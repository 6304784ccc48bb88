import Mathlib.Data.List.Pairwise
import NameAtlas.Proofs.Analysis.WellFormed
import NameAtlas.Proofs.Reading.Marks
import NameAtlas.Proofs.Walk.Logged

/-!
# References and reports have places of their own

Every body is read in every pass, bodies are read out of their order, and what is read may be read
for several reasons, yet the facts about a file hold one reference for a name at most
(`Walk.pairwise_references_start`), and code that is reported as not modeled is passed over as a
whole. Both are read off the places of the marks that the module can make (`LaidOut.exists_places`):
the log of the last walk is part of these marks, and marks stand apart in the tree, hence apart in
the text.
-/

namespace NameAtlas

/-- Where the node at the end of a path stands in the text. -/
def Source.Node.locationAt? (source : SourceText) (tree : Node) (path : List Nat) :
    Option Location :=
  (tree.at? path).map fun n => source.location n.info.start n.info.stop

namespace Python

open Source

/-- A tree in which what can be named has bytes of its own. -/
structure LaidOut (tree : Node) : Prop where
  /-- Every node lies within the one above it. -/
  nested : tree.nested
  /-- Children of one node share no byte. -/
  disjoint : ∀ t ∈ tree.subtrees, t.SiblingsDisjoint
  /-- Names are not empty. -/
  nonempty : ∀ t ∈ tree.subtrees, t.kind = "identifier" ∨ t.field = "attribute" →
    t.info.start < t.info.stop
  /-- No child is reached both by its place and by a field. -/
  once : ∀ t ∈ tree.subtrees, t.ReachedOnce

instance (tree : Node) : Decidable (LaidOut tree) :=
  decidable_of_iff
    (tree.nested ∧ (∀ t ∈ tree.subtrees, t.SiblingsDisjoint) ∧
      (∀ t ∈ tree.subtrees, t.kind = "identifier" ∨ t.field = "attribute" →
        t.info.start < t.info.stop) ∧ ∀ t ∈ tree.subtrees, t.ReachedOnce)
    ⟨fun ⟨nested, disjoint, nonempty, once⟩ => ⟨nested, disjoint, nonempty, once⟩,
      fun ⟨nested, disjoint, nonempty, once⟩ => ⟨nested, disjoint, nonempty, once⟩⟩

/-- A mark at the end of a path. -/
structure Mark.StandsAt (source : SourceText) (tree : Node) (mark : Mark) (path : List Nat) :
    Prop where
  /-- The mark is about the node there. -/
  location : tree.locationAt? source path = some mark.location
  /-- References are not empty. -/
  nonempty : mark.kind = .reference → mark.location.span.start < mark.location.span.stop

variable {source : SourceText} {tree : Node}

/-- A location at a path is that of the node there. -/
theorem span_of_locationAt? {path : List Nat} {l : Location} (h : tree.locationAt? source path = some l) :
    ∃ n, tree.at? path = some n ∧ l.span = n.info.span := by
  obtain ⟨n, hn, rfl⟩ := Option.map_eq_some_iff.1 h
  exact ⟨n, hn, rfl⟩

namespace LaidOut

/-- What stands at the ends of paths that diverge shares no byte. -/
theorem not_overlaps (h : LaidOut tree) {p q : List Nat} {l l' : Location}
    (hp : tree.locationAt? source p = some l) (hq : tree.locationAt? source q = some l')
    (hdiverge : Diverge p q) : ¬l.span.overlaps l'.span := by
  obtain ⟨n, hn, hspan⟩ := span_of_locationAt? hp
  obtain ⟨n', hn', hspan'⟩ := span_of_locationAt? hq
  rw [hspan, hspan']
  exact Node.not_overlaps_of_diverge h.nested h.disjoint hn hn' hdiverge

/-- The marks of a module have places in the tree that are apart from one another. -/
theorem exists_places (h : LaidOut tree) (source : SourceText) :
    ∃ places : List (Mark × List Nat),
      (places.map Prod.fst : List Mark) = marksOf (operationsOf (Module.ofTree source tree).body) ∧
      (∀ x ∈ places, x.1.StandsAt source tree x.2) ∧ places.Pairwise Apart := by
  obtain ⟨places, hmarks, hplaces, hapart⟩ := (holds_ofTree source h.once).exists_places
  refine ⟨places, hmarks, fun x hx => ?_, hapart⟩
  obtain ⟨q, hq, hlocation, hname⟩ := hplaces x hx
  -- Places of parts are those of nodes, as the part is made of the whole tree.
  rw [Part.at?_ofNode] at hq
  obtain ⟨n, hn, rfl⟩ := Option.map_eq_some_iff.1 hq
  rw [Part.location, Part.location_ofNode] at hlocation
  refine ⟨by rw [Node.locationAt?, hn, ← hlocation]; rfl, fun hkind => ?_⟩
  have hname := hname hkind
  rw [Part.IsName, Part.kind_ofNode, Part.info_ofNode] at hname
  rw [← hlocation]
  exact h.nonempty n (Node.mem_subtrees_of_at? hn) hname

end LaidOut

/-! ### References -/

/-- References with different starts are sorted by them strictly. -/
theorem pairwise_start_sortReferences {references : List Reference}
    (h : references.Pairwise fun a b => a.location.span.start ≠ b.location.span.start) :
    (sortReferences references).Pairwise
      fun a b => a.location.span.start < b.location.span.start := by
  -- Sorting makes the starts come in order, and no two of them are the same.
  have hsorted : (sortReferences references).Pairwise
      fun a b => a.location.startsNoLater b.location :=
    List.pairwise_mergeSort
      (fun a b c hab hbc => by
        simp only [Location.startsNoLater, decide_eq_true_eq] at *
        omega)
      (fun a b => by
        simp only [Location.startsNoLater, Bool.or_eq_true, decide_eq_true_eq]
        omega) references
  have hperm : references.Perm (sortReferences references) := (List.mergeSort_perm _ _).symm
  have hne := hperm.pairwise h Ne.symm
  refine (hsorted.and hne).imp fun ⟨hle, hne⟩ => ?_
  simp only [Location.startsNoLater, decide_eq_true_eq] at hle
  exact Nat.lt_of_le_of_ne hle hne

/-- The references that a walk logs start at different places. -/
theorem Walk.pairwise_references_start (h : LaidOut tree) (source : SourceText)
    (context : ImportContext) (k : Nat) :
    (walks context (Module.ofTree source tree) (k + 1)).references.toList.Pairwise
      fun a b => a.location.span.start ≠ b.location.span.start := by
  obtain ⟨places, hmarks, hplaces, hapart⟩ := h.exists_places source
  let m := Module.ofTree source tree
  let references := (walks context m (k + 1)).references.toList
  -- What the walk logs is at most what the operations log, which has one place for each mark.
  have hlogged : ((references.map fun r => ⟨.reference, r.location⟩ : List Mark) : Multiset Mark) ≤
      (places.map Prod.fst : List Mark) := by
    have hlog := marks_outline_walks_le context m k
    rw [Outline.marks, outline, List.map_map] at hlog
    rw [hmarks]
    exact (Multiset.le_add_right _ _).trans hlog
  obtain ⟨kept, hkept, hreferences⟩ := exists_map_eq_of_le hlogged
  have hstart : kept.Pairwise fun x y => x.1.kind = .reference → y.1.kind = .reference →
      x.1.location.span.start ≠ y.1.location.span.start := by
    refine (pairwise_of_subperm Apart.symm hapart hkept).imp_of_mem
      fun {x y} hx hy hxy hxkind hykind hsame => ?_
    have hx := hplaces x (hkept.subset hx)
    have hy := hplaces y (hkept.subset hy)
    -- Two references that stand apart diverge, so their nodes share no start.
    have hdiverge : Diverge x.2 y.2 := by simpa [Apart, hxkind, hykind] using hxy
    exact h.not_overlaps hx.location hy.location hdiverge
      (Span.overlaps_of_start_eq hsame (hx.nonempty hxkind) (hy.nonempty hykind))
  have hmarked : (kept.map Prod.fst).Pairwise fun x y => x.kind = .reference →
      y.kind = .reference → x.location.span.start ≠ y.location.span.start :=
    List.pairwise_map.2 hstart
  rw [hreferences] at hmarked
  exact (List.pairwise_map.1 hmarked).imp fun hne => hne rfl rfl

/-- The references of an analysis, in order, start each behind the start of the one before, so no two
have one location. -/
theorem analyze_refers_once (path : String) (module : Fqn) (text : String) (tree : Node)
    (passes : Nat) (h : LaidOut tree) :
    ∃ facts, analyze ⟨passes, false⟩ ⟨path, module, text, some tree⟩ = .ok facts ∧
      facts.references.Pairwise (fun a b => a.location.span.start < b.location.span.start) ∧
      (facts.references.map Reference.location).Nodup := by
  have hstart := Walk.pairwise_references_start h (.ofString text) (.ofPath path module)
    ((Module.ofTree (.ofString text) tree).silentWalks (.ofPath path module) passes)
  have hsorted := pairwise_start_sortReferences hstart
  refine ⟨_, (analyze_eq_ok path module text tree passes).trans
    (congrArg _ (analyzeModule_eq path module _ passes)), hsorted, ?_⟩
  refine List.pairwise_map.2 (hsorted.imp fun hlt heq => ?_)
  rw [heq] at hlt
  exact Nat.lt_irrefl _ hlt

/-- The tree of `a.b += a` with the annotated assignment `c: a = a.b` in the next line. -/
def repeatedNames : Node :=
  wholeNode 0 "module" "" 0 20
    [wholeNode 1 "expression_statement" "" 0 8
      [wholeNode 2 "augmented_assignment" "" 0 8
        [wholeNode 3 "attribute" "left" 0 3
          [wholeNode 4 "identifier" "object" 0 1 [], wholeNode 5 "identifier" "attribute" 2 3 []],
          wholeNode 6 "identifier" "right" 7 8 []]],
      wholeNode 7 "expression_statement" "" 9 19
        [wholeNode 8 "assignment" "" 9 19
          [wholeNode 9 "identifier" "left" 9 10 [],
            wholeNode 10 "type" "type" 12 13 [wholeNode 11 "identifier" "" 12 13 []],
            wholeNode 12 "attribute" "right" 16 19
              [wholeNode 13 "identifier" "object" 16 17 [],
                wholeNode 14 "identifier" "attribute" 18 19 []]]]]

/-- A name that is read, assigned to and annotated with is referred to once at each place. -/
theorem analyze_refers_once_repeatedNames :
    LaidOut repeatedNames ∧
      ∃ facts, analyze ⟨8, false⟩ ⟨"m.py", .root "m", "a.b += a\nc: a = a.b\n",
          some repeatedNames⟩ = .ok facts ∧
        facts.references.Pairwise (fun a b => a.location.span.start < b.location.span.start) ∧
        (facts.references.map Reference.location).Nodup :=
  ⟨by decide, analyze_refers_once "m.py" (.root "m") _ repeatedNames 8 (by decide)⟩

/-! ### Reports -/

/-- The symbols of the facts that are no modules have names of their own. -/
theorem get?_of_mem_declarations {path : String} {module : Fqn} {m : Module} {w : Walk}
    (hw : w.WellFormed module) {d : Declaration} (hd : d ∈ (factsOf path module m w).declarations)
    (hkind : d.kind ≠ .module) : d.fqn ≠ module ∧ w.symbols.get? d.fqn = some d := by
  have hget := hw.symbols.mem_toDeclarations hd
  refine ⟨fun heq => ?_, hget⟩
  obtain ⟨location, hself⟩ := hw.symbols.self
  rw [heq, hself] at hget
  exact hkind (by rw [← Option.some.inj hget])

/-- A symbol other than the module is declared at a place that a mark gives it. -/
theorem mem_marks_of_mem_declarations {path : String} {module : Fqn} {m : Module} {w : Walk}
    {ms : Multiset Mark} (hw : w.WellFormed module) (h : w.symbols.Located ms module)
    {d : Declaration} (hd : d ∈ (factsOf path module m w).declarations) (hkind : d.kind ≠ .module) :
    ⟨.symbol, d.location⟩ ∈ ms := by
  obtain ⟨hne, hget⟩ := get?_of_mem_declarations hw hd hkind
  exact h d.fqn d hne hget

/-- Every reference, and every symbol other than the module, has a mark which is no report. -/
theorem exists_mark_of_mem (path : String) (module : Fqn) (m : Module) (k : Nat) {l : Location} :
    let facts := factsOf path module m (Walk.walks (.ofPath path module) m (k + 1))
    (l ∈ facts.references.map Reference.location ∨
        l ∈ (facts.declarations.filter fun d => d.kind ≠ .module).map Declaration.location) →
      ∃ mark ∈ marksOf (operationsOf m.body), mark.kind ≠ .report ∧ mark.location = l := by
  intro facts hl
  let context := ImportContext.ofPath path module
  rcases hl with hl | hl
  -- References are logged by the walk, and symbols are located by the operation that declares them.
  · obtain ⟨r, hr, rfl⟩ := List.mem_map.1 hl
    have hr : r ∈ (Walk.walks context m (k + 1)).references.toList := mem_sortReferences.1 hr
    refine ⟨⟨.reference, r.location⟩, ?_, nofun, rfl⟩
    refine Multiset.mem_of_le (Walk.marks_outline_walks_le context m k)
      (Multiset.mem_add.2 (.inl ?_))
    exact List.mem_map.2 ⟨r.shape, List.mem_map_of_mem hr, rfl⟩
  · obtain ⟨d, hd, rfl⟩ := List.mem_map.1 hl
    obtain ⟨hd, hkind⟩ := List.mem_filter.1 hd
    exact ⟨⟨.symbol, d.location⟩,
      mem_marks_of_mem_declarations (Walk.wellFormed_walks context m (k + 1))
        (Walk.located_walks context m (k + 1)) hd (of_decide_eq_true hkind), nofun, rfl⟩

end Python

end NameAtlas
