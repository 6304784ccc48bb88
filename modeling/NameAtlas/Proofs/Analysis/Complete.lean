import NameAtlas.Proofs.Analysis.WellFormed
import NameAtlas.Proofs.Reading.Statements

/-!
# Every identifier has its reference

An analysis without findings has logged a reference for every identifier of the tree that is due one
(`analyze_complete`). What is in the statements of the module covers the identifiers of its tree,
every walk performs all of it as no two definitions have one node, and what an operation logs stays
in the log (`Outline.subset_foldl`). Identifiers in the format of an interpolation are due none, by
what the analysis does: it passes them over in silence (`exists_identifier_without_reference`).
-/

namespace NameAtlas

namespace Python

open Source

/-! ### What is logged stays in the log -/

namespace Outline

/-- An operation takes nothing back: what is noted stays noted. -/
theorem subset_outline (o : Outline) (a : Action) :
    o.references ⊆ (Action.outline o a).references ∧ o.findings ⊆ (Action.outline o a).findings := by
  obtain ⟨site, op⟩ := a
  -- Only these operations write to one of the two logs, and they write behind what is there.
  cases op with
  | report | readName | readMember | assignMember | keepMember =>
    exact ⟨by simp [Action.outline, Op.outline, report, refer],
      by simp [Action.outline, Op.outline, report, refer]⟩
  | enterFunction | enterClass =>
    simp only [Action.outline, Op.outline, openScope]
    split
    · exact ⟨List.Subset.refl _, List.Subset.refl _⟩
    · exact ⟨List.Subset.refl _, List.Subset.refl _⟩
  | _ => exact ⟨List.Subset.refl _, List.Subset.refl _⟩

/-- Nothing that was noted before some operations is lost in them. -/
theorem subset_foldl (P : List Action) (o : Outline) :
    o.references ⊆ (P.foldl Action.outline o).references ∧
      o.findings ⊆ (P.foldl Action.outline o).findings := by
  induction P generalizing o with
  | nil => exact ⟨List.Subset.refl _, List.Subset.refl _⟩
  | cons a rest ih =>
    obtain ⟨hreferences, hfindings⟩ := subset_outline o a
    exact ⟨List.Subset.trans hreferences (ih _).1, List.Subset.trans hfindings (ih _).2⟩

/-- What an action logs is in the log behind a run with that action. -/
theorem exists_subset_foldl {P : List Action} {a : Action} (ha : a ∈ P) (o : Outline) :
    ∃ o', (Action.outline o' a).references ⊆ (P.foldl Action.outline o).references ∧
      (Action.outline o' a).findings ⊆ (P.foldl Action.outline o).findings := by
  induction P generalizing o with
  | nil => cases ha
  | cons b rest ih =>
    rcases List.mem_cons.1 ha with rfl | ha
    · exact ⟨o, subset_foldl rest _⟩
    · exact ih ha _

/-- A run logs the references of its operations. -/
theorem exists_reference_foldl {P : List Action} {kind : ReferenceKind} {location : Location}
    {op : Op} (hop : op ∈ P.map Action.op) (hrefers : op.Refers kind location) (o : Outline) :
    ∃ r ∈ (P.foldl Action.outline o).references, r.kind = kind ∧ r.location = location := by
  obtain ⟨⟨site, op⟩, ha, rfl⟩ := List.mem_map.1 hop
  obtain ⟨o', hsub, -⟩ := exists_subset_foldl ha o
  cases op with
  | readName | readMember | assignMember | keepMember =>
    obtain ⟨rfl, rfl⟩ := hrefers
    exact ⟨_, hsub (List.mem_append_right _ List.mem_cons_self), rfl, rfl⟩
  | _ => exact hrefers.elim

/-- A run logs the findings of its operations. -/
theorem findings_foldl_ne_nil {P : List Action} {op : Op} (hop : op ∈ P.map Action.op)
    (hreport : op.isReport) (o : Outline) : (P.foldl Action.outline o).findings ≠ [] := by
  obtain ⟨⟨site, op⟩, ha, rfl⟩ := List.mem_map.1 hop
  obtain ⟨o', -, hsub⟩ := exists_subset_foldl ha o
  cases op with
  | report => exact List.ne_nil_of_mem (hsub (List.mem_append_right _ List.mem_cons_self))
  | _ => cases hreport

end Outline

/-- A walk behind which nothing has been found has logged what each identifier is due. -/
theorem Walk.exists_reference_of_covers {context : ImportContext} {m : Module}
    (hm : (definitionsOf m.body).Nodup) {source : SourceText} {ids : List (Role × NodeInfo)}
    (h : Python.Covers source (operationsOf m.body) ids) {k : Nat}
    (hfindings : (walks context m (k + 1)).outline.findings = []) :
    ∀ x ∈ ids, ∀ kind, x.1.reference? = some kind →
      ∃ r ∈ (walks context m (k + 1)).outline.references,
        r.kind = kind ∧ r.location = source.location x.2.start x.2.stop := by
  rw [outline_walks_succ] at hfindings ⊢
  intro x hx kind hkind
  -- A report in the statements would have been found.
  rcases h with ⟨op, hop, hreport⟩ | h
  · exact absurd hfindings
      (Outline.findings_foldl_ne_nil ((Module.mem_map_program_iff hm op).2 hop) hreport _)
  · obtain ⟨op, hop, hrefers⟩ := h x hx kind hkind
    exact Outline.exists_reference_foldl ((Module.mem_map_program_iff hm op).2 hop) hrefers _

/-- In a tree of the grammar without broken syntax every identifier has a role, and an analysis that
finds nothing logs the reference that it is due: to a member for the names behind dots, and to a name
for the others, unless they are bound or quoted. -/
theorem analyze_complete (path : String) (module : Fqn) (text : String) (tree : Node) (passes : Nat)
    (hids : tree.DistinctIds) (hkind : tree.kind = "module") (hgrammar : tree.Grammatical)
    (hclean : tree.Clean) :
    ∃ facts, analyze ⟨passes, false⟩ ⟨path, module, text, some tree⟩ = .ok facts ∧
      (facts.findings = [] → ∀ info ∈ tree.infos, info.kind = "identifier" →
        ∃ role, (role, info) ∈ tree.identifiers .value ∧
          ∀ kind, role.reference? = some kind → ∃ r ∈ facts.references,
            r.kind = kind ∧ r.location = (SourceText.ofString text).location info.start info.stop) := by
  let m := Module.ofTree (.ofString text) tree
  let context := ImportContext.ofPath path module
  let w := Walk.walks context m (m.silentWalks context passes + 1)
  refine ⟨_, (analyze_eq_ok path module text tree passes).trans
    (congrArg _ (analyzeModule_eq path module m passes)), fun hfindings info hinfo hidentifier => ?_⟩
  obtain ⟨role, hrole⟩ := Node.exists_role_of_mem_infos hidentifier .value tree hgrammar hinfo
  refine ⟨role, hrole, fun kind hkind' => ?_⟩
  obtain ⟨-, hreferences, hsorted⟩ := Walk.factsOf_outline path module m w
  -- The findings of the facts are those of the walk with those of the tree, in order.
  have hnone : w.outline.findings = [] := by
    have hlength := congrArg List.length hfindings
    rw [hsorted, sortFindings, List.length_mergeSort, List.length_append, List.length_nil] at hlength
    exact List.eq_nil_of_length_eq_zero (by omega)
  obtain ⟨shape, hshape, rfl, hlocation⟩ := Walk.exists_reference_of_covers
    (nodup_definitions _ hids) (covers_operationsOf_ofTree hkind hgrammar hclean) hnone
    (role, info) hrole kind hkind'
  -- The references of the facts are those of the walk, in order.
  have hmem : shape ∈ (factsOf path module m w).references.map Reference.shape := by
    rw [hreferences]
    exact List.mem_mergeSort.2 hshape
  obtain ⟨r, hr, rfl⟩ := List.mem_map.1 hmem
  exact ⟨r, hr, rfl, hlocation⟩

/-- The tree of a `with` statement that binds `c` to `a.b` and reads `c.x` in a string. -/
def withStatement : Node :=
  wholeNode 0 "module" "" 0 32
    [wholeNode 1 "with_statement" "" 0 31
      [wholeNode 2 "with_clause" "" 5 13
        [wholeNode 3 "with_item" "" 5 13
          [wholeNode 4 "as_pattern" "value" 5 13
            [wholeNode 5 "attribute" "" 5 8
              [wholeNode 6 "identifier" "object" 5 6 [], wholeNode 7 "identifier" "attribute" 7 8 []],
              wholeNode 8 "as_pattern_target" "alias" 12 13
                [wholeNode 9 "identifier" "" 12 13 []]]]],
        wholeNode 10 "block" "body" 19 31
          [wholeNode 11 "expression_statement" "" 19 31
            [wholeNode 12 "assignment" "" 19 31
              [wholeNode 13 "identifier" "left" 19 20 [],
                wholeNode 14 "string" "right" 23 31
                  [wholeNode 15 "string_start" "" 23 25 [],
                    wholeNode 16 "interpolation" "" 25 30
                      [wholeNode 17 "attribute" "expression" 26 29
                        [wholeNode 18 "identifier" "object" 26 27 [],
                          wholeNode 19 "identifier" "attribute" 28 29 []]],
                    wholeNode 20 "string_end" "" 30 31 []]]]]]]

/-- The member that is read in the string of a `with` statement has its reference. -/
theorem analyze_complete_withStatement :
    ∃ facts, analyze ⟨8, false⟩
        ⟨"m.py", .root "m", "with a.b as c:\n    d = f\"\x7bc.x\x7d\"\n", some withStatement⟩ = .ok facts ∧
      ∃ r ∈ facts.references, r.kind = .attr ∧ r.location.span = ⟨28, 29⟩ := by
  obtain ⟨facts, hfacts, hcomplete⟩ := analyze_complete "m.py" (.root "m")
    "with a.b as c:\n    d = f\"\x7bc.x\x7d\"\n" withStatement 8 (by decide) rfl (by decide) (by decide)
  refine ⟨facts, hfacts, ?_⟩
  have hfindings : facts.findings = [] := by
    obtain rfl := Except.ok.inj hfacts
    decide +kernel
  obtain ⟨role, hrole, hreference⟩ := hcomplete hfindings
    ⟨19, "identifier", "attribute", 28, 29, true, false, false⟩ (by decide) rfl
  -- The identifier stands behind a dot, and nowhere else in the tree.
  have hroles : ∀ x ∈ withStatement.identifiers .value, x.2.id = 19 → x.1 = .member := by decide
  have hmember : role = .member := hroles _ hrole rfl
  obtain ⟨r, hr, hkind, hlocation⟩ := hreference .attr (by rw [hmember]; rfl)
  exact ⟨r, hr, hkind, by rw [hlocation]; decide +kernel⟩

/-- The tree of a string with an interpolation whose width is another name. -/
def nestedFormat : Node :=
  wholeNode 0 "module" "" 0 11
    [wholeNode 1 "expression_statement" "" 0 10
      [wholeNode 2 "string" "" 0 10
        [wholeNode 3 "string_start" "" 0 2 [],
          wholeNode 4 "interpolation" "" 2 9
            [wholeNode 5 "identifier" "expression" 3 4 [],
              wholeNode 6 "format_specifier" "format_specifier" 4 8
                [wholeNode 7 "format_expression" "" 5 8
                  [wholeNode 8 "identifier" "expression" 6 7 []]]],
          wholeNode 9 "string_end" "" 9 10 []]]]

/-- An analysis can find nothing and have no reference for an identifier that is not bound. -/
theorem exists_identifier_without_reference :
    ∃ (text : String) (tree : Node) (facts : FileFacts),
      (tree.DistinctIds ∧ tree.kind = "module" ∧ tree.Grammatical ∧ tree.Clean) ∧
      analyze ⟨8, false⟩ ⟨"m.py", .root "m", text, some tree⟩ = .ok facts ∧
      facts.findings = [] ∧ ∃ info ∈ tree.infos, info.kind = "identifier" ∧
        (.quoted, info) ∈ tree.identifiers .value ∧
        ∀ r ∈ facts.references, r.location.span ≠ ⟨info.start, info.stop⟩ := by
  refine ⟨"f\"\x7bx:\x7bw\x7d\x7d\"\n", nestedFormat, _, ⟨by decide, rfl, by decide, by decide⟩,
    analyze_eq_ok _ _ _ _ _, ?_, ⟨8, "identifier", "expression", 6, 7, true, false, false⟩, by decide,
    rfl, by decide, ?_⟩
  · decide +kernel
  · decide +kernel

end Python

end NameAtlas
