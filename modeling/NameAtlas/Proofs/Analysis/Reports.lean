import NameAtlas.Proofs.Analysis.Broken

/-!
# What is reported

Every finding of an analysis but those of broken syntax is a report that some node of the tree causes
(`Reported`). Parameters, annotations and targets of plain assignments are only reported where nothing
is broken; so a finding at a node with something broken in it is one of those that are made without a
look at that (`Unchecked`). Each of the outermost broken nodes is reported as broken syntax, once
(`analyze_reports`). A target that is combined with a value is reported whatever is broken in it
(`exists_report_of_damaged`).
-/

namespace NameAtlas.Python

open Source

variable {source : SourceText} {tree : Node}

/-- A report of a node `n` that a node `t` causes. -/
structure Reported (source : SourceText) (t n : Node) (f : Finding) : Prop where
  /-- The node is `t` itself or a child of it. -/
  near : n = t ∨ n ∈ t.children
  /-- It is not modeled where it stands. -/
  reports : (Part.ofNode source t).Reports (Part.ofNode source n) f.code f.message
  /-- The report is made where it stands. -/
  location : f.location = source.location n.info.start n.info.stop

/-- The reports that are made whether or not something is broken: of statements and expressions of
kinds that are not modeled, of imports of every name, of lists of type parameters, and of targets that
are combined with a value. The node that causes the report is `above`. -/
def Unchecked (above info : NodeInfo) : DiagnosticCode → Prop
  | .unsupportedStatement =>
    info.kind ∉ Part.statementKinds ∨ info.kind = "import_from_statement"
  | .unsupportedExpression =>
    info.kind ∉ Part.expressionKinds ∨ info.field = "type_parameters"
  | .unsupportedTarget =>
    above.kind = "augmented_assignment" ∧ info.field = "left" ∧ info.kind ∉ Part.augmentedKinds
  | _ => False

namespace Part

/-- A part that is found by its field stands in this field. -/
theorem field_of_field? {p c : Part} {name : String} (h : p.field? name = some c) :
    c.info.field = name := by
  simpa using List.find?_some h

variable {p c : Part} {code : DiagnosticCode} {message : String}

/-- A part never reports broken syntax. -/
theorem Reports.code_ne_syntaxError (h : p.Reports c code message) : code ≠ .syntaxError := by
  cases h <;> simp

/-- What a node reports is itself or a child of it. -/
theorem Reports.eq_or_mem (h : p.Reports c code message) : c = p ∨ c ∈ p.children := by
  cases h with
  | typeParameters _ hc | augmented _ hc _ => exact .inr (mem_children_of_field? hc)
  | _ => exact .inl rfl

/-- What is reported although it is malformed is reported without a look at that. -/
theorem Reports.unchecked (h : p.Reports c code message) (hc : c.info.malformed) :
    Unchecked p.info c.info code := by
  cases h with
  | statement hkind => exact .inl hkind
  | wildcard hkind => exact .inr hkind
  | expression hkind => exact .inl hkind
  | typeParameters _ hfield => exact .inr (field_of_field? hfield)
  | augmented hkind hfield hkind' => exact ⟨hkind, field_of_field? hfield, hkind'⟩
  | target hsound | hint hsound | parameter hsound => exact absurd hc hsound

/-- A report of a part of a tree is one of a node. -/
theorem Reports.exists_reported {t : Node} (h : (ofNode source t).Reports c code message) :
    ∃ n, c = ofNode source n ∧ Reported source t n (.ofCode code message c.location) := by
  have hnode : ∃ n, (n = t ∨ n ∈ t.children) ∧ c = ofNode source n := by
    refine h.eq_or_mem.elim (fun hself => ⟨t, .inl rfl, hself⟩) fun hchild => ?_
    rw [children_ofNode] at hchild
    obtain ⟨n, hn, rfl⟩ := List.mem_map.1 hchild
    exact ⟨n, .inr hn, rfl⟩
  obtain ⟨n, hnear, rfl⟩ := hnode
  exact ⟨n, rfl, hnear, h, location_ofNode source n⟩

end Part

/-! ### The log of a walk -/

/-- The operations of which each report is one of a node of a tree. -/
def reportsClass (source : SourceText) (tree : Node) : OpClass where
  Has
    | .report code message location => ∃ t ∈ tree.subtrees, ∃ n ∈ tree.subtrees,
      Reported source t n (.ofCode code message location)
    | _ => True
  bare op h := by cases op <;> trivial
  constant _ _ := trivial
  combine _ _ := trivial
  markStatic _ _ _ := trivial

/-- A node of a tree adds reports of nodes of the tree. -/
theorem adds_reportsClass {t : Node} (ht : t ∈ tree.subtrees) :
    (Part.ofNode source t).Adds (reportsClass source tree) where
  -- The class only says something about reports; whatever else a part adds is in it.
  name _ := ⟨trivial, trivial, trivial⟩
  member _ _ _ := ⟨trivial, trivial, trivial⟩
  walrus _ _ _ := trivial
  function _ _ _ := ⟨fun _ => trivial, fun _ _ => trivial⟩
  classes _ _ _ := ⟨fun _ => trivial, fun _ _ => trivial, trivial⟩
  imports _ _ := trivial
  reports c code message h := by
    obtain ⟨n, -, hn⟩ := h.exists_reported
    refine ⟨t, ht, n, ?_, hn⟩
    rcases hn.near with rfl | hchild
    · exact ht
    · exact Node.subtrees_subset_of_mem_subtrees ht
        (Node.subtrees_subset_of_mem_children hchild (Node.self_mem_subtrees n))

/-- What a run finds has been found before or is a report of one of its operations. -/
theorem Outline.mem_findings_foldl {P : List Action} {o : Outline} {f : Finding}
    (h : f ∈ (P.foldl Action.outline o).findings) :
    f ∈ o.findings ∨ ∃ a ∈ P, ∃ code message location,
      a.op = .report code message location ∧ f = .ofCode code message location := by
  -- The induction is on the operations: a report notes its own finding, and no other operation
  -- notes one.
  induction P generalizing o with
  | nil => exact .inl h
  | cons a rest ih =>
    rcases ih h with h | ⟨b, hb, hreport⟩
    · obtain ⟨site, op⟩ := a
      cases op with
      | report code message location =>
        rcases List.mem_append.1 h with h | h
        · exact .inl h
        · exact .inr ⟨_, List.mem_cons_self, code, message, location, rfl, List.mem_singleton.1 h⟩
      | enterFunction | enterClass =>
        simp only [Action.outline, Op.outline, openScope] at h
        split at h
        · exact .inl h
        · exact .inl h
      | _ => exact .inl h
    · exact .inr ⟨b, List.mem_cons_of_mem a hb, hreport⟩

/-- A walk over a tree finds reports of nodes of the tree. -/
theorem Walk.exists_reported {context : ImportContext} {k : Nat} {f : Finding}
    (h : f ∈ (walks context (Module.ofTree source tree) (k + 1)).findings) :
    ∃ t ∈ tree.subtrees, ∃ n ∈ tree.subtrees, Reported source t n f := by
  have h : f ∈ (walks context (Module.ofTree source tree) (k + 1)).outline.findings :=
    Array.mem_toList_iff.2 h
  rw [outline_walks_succ] at h
  obtain ⟨a, ha, code, message, location, hop, rfl⟩ :=
    (Outline.mem_findings_foldl h).resolve_left List.not_mem_nil
  have hreport := OpClass.has_program (fun _ ht => adds_reportsClass ht) a ha
  rw [hop] at hreport
  exact hreport

/-! ### The findings of an analysis -/

/-- What an analysis finds is what its last walk finds and what is broken. -/
theorem mem_findings_analyzeModule {path : String} {module : Fqn} {m : Module} {passes : Nat}
    {f : Finding} : f ∈ (analyzeModule path module m passes).findings ↔
      f ∈ (finalWalk path module m passes).findings.toList ++ syntaxFindings m :=
  List.mem_mergeSort

/-- If the damaged nodes of a tree are marked, every finding but those of broken syntax reports a node
of the tree, and a damaged one only where damage is not looked at; and the findings of broken syntax
are one for each of the outermost broken nodes. -/
theorem analyze_reports (path : String) (module : Fqn) (text : String) {tree : Node} (passes : Nat)
    (h : tree.MarksDamage) :
    ∃ facts, analyze ⟨passes, false⟩ ⟨path, module, text, some tree⟩ = .ok facts ∧
      (∀ f ∈ facts.findings, f.code ≠ .syntaxError →
        ∃ t ∈ tree.subtrees, ∃ n ∈ tree.subtrees, Reported (.ofString text) t n f ∧
          (n.Damaged → Unchecked t.info n.info f.code)) ∧
      (facts.findings.filter fun f => f.code = .syntaxError).Perm
        (tree.broken.map (brokenFinding (.ofString text))) := by
  let source := SourceText.ofString text
  let m := Module.ofTree source tree
  let context := ImportContext.ofPath path module
  let w := Walk.walks context m (m.silentWalks context passes + 1)
  have hmarked : syntaxFindings m = tree.broken.map (brokenFinding source) :=
    syntaxFindings_of_marked source fun t ht => h.passesMarksOn (Node.sound_subset_subtrees tree ht)
  have hperm : (factsOf path module m w).findings.Perm (w.findings.toList ++ syntaxFindings m) :=
    List.mergeSort_perm _ _
  -- A finding of the walk was reported by a node; the other findings are those of broken syntax.
  have hwalk (f : Finding) (hf : f ∈ w.findings.toList) :
      ∃ t ∈ tree.subtrees, ∃ n ∈ tree.subtrees, Reported source t n f :=
    Walk.exists_reported (Array.mem_toList_iff.1 hf)
  refine ⟨_, (analyze_eq_ok path module text tree passes).trans
    (congrArg _ (analyzeModule_eq path module m passes)), fun f hf hcode => ?_, ?_⟩
  · rcases List.mem_append.1 (hperm.mem_iff.1 hf) with hf | hf
    · obtain ⟨t, ht, n, hn, hreported⟩ := hwalk f hf
      refine ⟨t, ht, n, hn, hreported, fun hdamaged => ?_⟩
      have hunchecked := hreported.reports.unchecked (by
        rw [Part.info_ofNode]
        exact (h n hn).2 hdamaged)
      rwa [Part.info_ofNode, Part.info_ofNode] at hunchecked
    · rw [hmarked] at hf
      obtain ⟨i, -, rfl⟩ := List.mem_map.1 hf
      exact absurd rfl hcode
  · -- A walk never reports broken syntax, and the reports of broken syntax are nothing else.
    refine (hperm.filter _).trans (.of_eq ?_)
    rw [List.filter_append, List.filter_eq_nil_iff.2, List.nil_append, hmarked,
      List.filter_eq_self.2]
    · intro f hf
      obtain ⟨i, -, rfl⟩ := List.mem_map.1 hf
      rfl
    · intro f hf
      obtain ⟨t, -, n, -, hreported⟩ := hwalk f hf
      simpa using hreported.reports.code_ne_syntaxError

/-- The tree of `x: = 1`, where the annotation is `1`, behind a sign that cannot be placed. -/
def misplacedSign : Node :=
  .mk ⟨0, "module", "", 0, 7, true, false, true⟩
    [.mk ⟨1, "expression_statement", "", 0, 6, true, false, true⟩
      [.mk ⟨2, "assignment", "", 0, 6, true, false, true⟩
        [wholeNode 3 "identifier" "left" 0 1 [], .mk ⟨4, "ERROR", "", 3, 4, true, false, true⟩ [],
          wholeNode 5 "type" "type" 5 6 [wholeNode 6 "integer" "" 5 6 []]]]]

/-- The sign is reported as broken syntax, and the annotation as one that is not modeled. -/
theorem analyze_reports_misplacedSign :
    misplacedSign.MarksDamage ∧
      ∃ facts, analyze ⟨8, false⟩ ⟨"t.py", .root "root", "x: = 1\n", some misplacedSign⟩ = .ok facts ∧
        (∀ f ∈ facts.findings, f.code ≠ .syntaxError →
          ∃ t ∈ misplacedSign.subtrees, ∃ n ∈ misplacedSign.subtrees,
            Reported (.ofString "x: = 1\n") t n f ∧
              (n.Damaged → Unchecked t.info n.info f.code)) ∧
        (facts.findings.filter fun f => f.code = .syntaxError).Perm
          (misplacedSign.broken.map (brokenFinding (.ofString "x: = 1\n"))) ∧
        ∃ f ∈ facts.findings, f.code = .unsupportedHint := by
  have hmarks : misplacedSign.MarksDamage := by decide +kernel
  obtain ⟨facts, hfacts, hreported, hbroken⟩ :=
    analyze_reports "t.py" (.root "root") "x: = 1\n" 8 hmarks
  refine ⟨hmarks, facts, hfacts, hreported, hbroken, ?_⟩
  -- The annotation is whole and stands in malformed code, so it is reported all the same.
  obtain rfl := Except.ok.inj hfacts
  exact ⟨.ofCode .unsupportedHint "annotation `1` is not modeled"
    ((SourceText.ofString "x: = 1\n").location 5 6), mem_findings_analyzeModule.2 (by decide +kernel),
    rfl⟩

/-- The tree of `, *= 1, 2`, where a name is missing in the target. -/
def brokenTarget : Node :=
  .mk ⟨0, "module", "", 0, 10, true, false, true⟩
    [.mk ⟨1, "expression_statement", "", 0, 9, true, false, true⟩
      [.mk ⟨2, "augmented_assignment", "", 0, 9, true, false, true⟩
        [.mk ⟨3, "pattern_list", "left", 0, 1, true, false, true⟩
            [.mk ⟨4, "identifier", "", 0, 0, true, true, true⟩ []],
          .mk ⟨5, "*=", "operator", 2, 4, false, false, false⟩ [],
          wholeNode 6 "expression_list" "right" 5 9
            [wholeNode 7 "integer" "" 5 6 [], wholeNode 8 "integer" "" 8 9 []]]]]

/-- The target is reported as one that is not modeled, although a name is missing in it. -/
theorem exists_report_of_damaged :
    brokenTarget.MarksDamage ∧
      ∃ facts, analyze ⟨8, false⟩ ⟨"t.py", .root "root", ", *= 1, 2\n", some brokenTarget⟩ = .ok facts ∧
        ∃ f ∈ facts.findings, f.code = .unsupportedTarget ∧
          (∃ n ∈ brokenTarget.subtrees,
            f.location = (SourceText.ofString ", *= 1, 2\n").location n.info.start n.info.stop) ∧
          ∀ n ∈ brokenTarget.subtrees,
            f.location = (SourceText.ofString ", *= 1, 2\n").location n.info.start n.info.stop →
              n.Damaged := by
  refine ⟨by decide +kernel, _, analyze_eq_ok "t.py" (.root "root") _ _ 8, ?_⟩
  exact ⟨.ofCode .unsupportedTarget "cannot assign to `pattern_list`"
    ((SourceText.ofString ", *= 1, 2\n").location 0 1), mem_findings_analyzeModule.2 (by decide +kernel),
    rfl, by decide +kernel⟩

end NameAtlas.Python
