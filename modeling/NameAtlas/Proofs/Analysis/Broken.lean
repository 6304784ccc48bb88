import NameAtlas.Proofs.Analysis.Places
import NameAtlas.Proofs.Reading.Faithful
import NameAtlas.Proofs.Reading.Mending
import NameAtlas.Proofs.Walk.Words

/-!
# Code around broken code

A tree sets its broken nodes apart if they stand where nothing is read by its place or its field
(`SetsApart`). Then the analysis of the tree is that of the tree without them, besides the reports of
broken syntax, of which each of the outermost broken nodes has one. No reference and no symbol
besides the module stands at what is broken or below it, and no name ends in an empty segment
(`analyze_mend`). A missing node that is read as a name is not set apart, and is referred to
(`exists_reference_of_missing`).
-/

namespace NameAtlas

/-- Between two offsets that are out of order no text stands. -/
theorem Source.SourceText.slice_eq_empty (t : SourceText) {start stop : Nat} (h : stop ≤ start) :
    t.slice start stop = "" := by
  have hbytes : t.bytes.extract start stop = ByteArray.empty := by
    ext1
    rw [ByteArray.data_extract, Array.extract_empty_of_stop_le_start h]
    rfl
  rw [slice, hbytes]
  split <;> rfl

namespace Python

open Source

/-- A tree whose broken nodes stand apart from what is read. -/
structure SetsApart (tree : Node) : Prop where
  /-- The file as a whole is not broken. -/
  root : ¬tree.info.isBroken
  /-- The broken nodes at its top are code that cannot be placed. -/
  top : tree.KeepsMissing
  /-- Every sound tree passes over its broken children. -/
  passes : ∀ t ∈ tree.sound, t.PassesBroken
  /-- Broken nodes are found by the marks above them. -/
  marks : ∀ t ∈ tree.sound, t.PassesMarksOn
  /-- Every node lies within the one above it. -/
  nested : tree.nested
  /-- Children of one node share no byte. -/
  disjoint : ∀ t ∈ tree.subtrees, t.SiblingsDisjoint
  /-- Names are leaves. -/
  leaves : ∀ t ∈ tree.sound, t.kind = "identifier" → t.children.isEmpty
  /-- What fills a field for names is a name. -/
  names : ∀ t ∈ tree.sound, ∀ c ∈ t.children, (t.kind, c.field) ∈ Part.wordFields →
    c.kind = "identifier"

instance (tree : Node) : Decidable (SetsApart tree) :=
  decidable_of_iff
    (¬tree.info.isBroken ∧ tree.KeepsMissing ∧ (∀ t ∈ tree.sound, t.PassesBroken) ∧
      (∀ t ∈ tree.sound, t.PassesMarksOn) ∧ tree.nested ∧
      (∀ t ∈ tree.subtrees, t.SiblingsDisjoint) ∧
      (∀ t ∈ tree.sound, t.kind = "identifier" → t.children.isEmpty) ∧
      ∀ t ∈ tree.sound, ∀ c ∈ t.children, Part.wordFields.contains (t.kind, c.field) →
        c.kind = "identifier")
    ⟨fun ⟨root, top, passes, marks, nested, disjoint, leaves, names⟩ =>
        ⟨root, top, passes, marks, nested, disjoint, leaves, fun t ht c hc hfield =>
          names t ht c hc (List.contains_iff_mem.2 hfield)⟩,
      fun ⟨root, top, passes, marks, nested, disjoint, leaves, names⟩ =>
        ⟨root, top, passes, marks, nested, disjoint, leaves, fun t ht c hc hfield =>
          names t ht c hc (List.contains_iff_mem.1 hfield)⟩⟩

/-- True for the word of a sound name of a tree. -/
def Word.IsSound (source : SourceText) (tree : Node) (word : Word) : Prop :=
  ∃ t ∈ tree.sound, t.kind = "identifier" ∧
    word.text = source.slice t.info.start t.info.stop ∧
    word.location = source.location t.info.start t.info.stop

/-- The report of a broken node. -/
def brokenFinding (source : SourceText) (i : NodeInfo) : Finding :=
  .ofCode .syntaxError (brokenMessage source i) (source.location i.start i.stop)

/-- The reports of broken syntax are those of the outermost broken nodes, if the marks lead to them. -/
theorem syntaxFindings_of_marked (source : SourceText) {tree : Node}
    (h : ∀ t ∈ tree.sound, t.PassesMarksOn) :
    syntaxFindings (Module.ofTree source tree) = tree.broken.map (brokenFinding source) := by
  rw [syntaxFindings, Module.ofTree, Node.syntaxErrors_of_marked tree h, List.map_map]
  rfl

namespace SetsApart

variable {tree : Node} (h : SetsApart tree) (source : SourceText)

include h

/-- The words of the mended tree are sound names. -/
theorem worded_mend : ∀ n ∈ tree.mend.subtrees,
    (Part.ofNode source n).Worded (Word.IsSound source tree) := by
  intro n hn
  rw [Node.subtrees_mend] at hn
  obtain ⟨t, ht, rfl⟩ := List.mem_map.1 hn
  refine ⟨fun hkind => ⟨t, ht, ?_, by simp, by simp⟩, fun c hc hname => ?_⟩
  · rwa [Part.kind_ofNode, Node.kind, Node.info_mend] at hkind
  · rw [Part.children_ofNode, Node.children_mend, List.map_map] at hc
    obtain ⟨d, hd, rfl⟩ := List.mem_map.1 hc
    obtain ⟨hd, hkept⟩ := List.mem_filter.1 hd
    have hkind := h.names t ht d hd (by simpa [Node.kind, Node.field] using hname)
    exact ⟨d, Node.mem_sound_of_mem_children ht hd (by simpa using hkept), hkind, by simp, by simp⟩

/-- A sound name that has bytes stands nowhere where something broken stands, nor on a byte of it. -/
theorem not_overlaps {word : Word} (hword : word.IsSound source tree) (hne : word.text ≠ "")
    {e : Node} (he : e ∈ tree.lost) :
    word.location ≠ source.location e.info.start e.info.stop ∧
      ¬word.location.span.overlaps e.info.span := by
  obtain ⟨t, ht, hkind, htext, hlocation⟩ := hword
  have hspan : word.location.span = t.info.span := by
    rw [hlocation]
    rfl
  -- A name is not empty, so its leaf takes up some bytes.
  have hlt : t.info.start < t.info.stop := by
    by_contra hle
    exact hne (htext.trans (source.slice_eq_empty (Nat.le_of_not_lt hle)))
  have hapart := Node.not_overlaps_of_lost (List.isEmpty_iff.1 (h.leaves t ht hkind)) h.nested h.disjoint h.root ht he
  rw [hspan]
  refine ⟨fun heq => hapart ?_, hapart⟩
  -- A lost node at the very place of the word would overlap it.
  have heq : t.info.span = e.info.span := by
    rw [← hspan, heq]
    rfl
  rw [← heq]
  exact Span.overlaps_of_start_eq rfl hlt hlt

/-- The mended tree has none. -/
theorem syntaxFindings_mend : syntaxFindings (Module.ofTree source tree.mend) = [] := by
  rw [syntaxFindings, Module.ofTree, Node.syntaxErrors_mend h.marks h.root]
  rfl

end SetsApart

/-- Besides the reports of broken syntax, the facts about a tree that sets its broken nodes apart are
those about the mended tree. -/
theorem SetsApart.facts_eq {tree : Node} (h : SetsApart tree) (source : SourceText) (path : String)
    (module : Fqn) (passes : Nat) :
    let facts := analyzeModule path module (Module.ofTree source tree) passes
    let bare := analyzeModule path module (Module.ofTree source tree.mend) passes
    facts = { bare with findings := facts.findings } ∧
      facts.findings.Perm (bare.findings ++ tree.broken.map (brokenFinding source)) := by
  intro facts bare
  let w := finalWalk path module (Module.ofTree source tree) passes
  have hbare : bare = factsOf path module (Module.ofTree source tree.mend) w :=
    (Module.alike_mend source h.passes h.top).analyzeModule path module passes
  refine ⟨by rw [hbare]; rfl, ?_⟩
  have hfindings :
      facts.findings.Perm (w.findings.toList ++ tree.broken.map (brokenFinding source)) := by
    rw [← syntaxFindings_of_marked source h.marks]
    exact List.mergeSort_perm _ _
  -- The mended tree has no broken syntax to report, so its findings are those of the walk alone.
  have hlog : bare.findings.Perm w.findings.toList := by
    rw [hbare]
    refine (List.mergeSort_perm _ _).trans (List.Perm.of_eq ?_)
    rw [h.syntaxFindings_mend source, List.append_nil]
  exact hfindings.trans (hlog.symm.append_right _)

/-- A tree that sets its broken nodes apart is analyzed as if they were absent. Each of the
outermost is reported as broken syntax, and that is all: no reference and no symbol besides the module
stands where something broken stands, nor on a byte of it, and if no sound name is empty, no symbol
besides the module has a name that ends in an empty segment. -/
theorem analyze_mend (path : String) (module : Fqn) (text : String) {tree : Node} (passes : Nat)
    (h : SetsApart tree) (hnames : ∀ t ∈ tree.sound, t.kind = "identifier" →
      (SourceText.ofString text).slice t.info.start t.info.stop ≠ "") :
    ∃ facts bare, analyze ⟨passes, false⟩ ⟨path, module, text, some tree⟩ = .ok facts ∧
      analyze ⟨passes, false⟩ ⟨path, module, text, some tree.mend⟩ = .ok bare ∧
      facts = { bare with findings := facts.findings } ∧
      facts.findings.Perm
        (bare.findings ++ tree.broken.map (brokenFinding (.ofString text))) ∧
      (∀ l, (l ∈ facts.references.map Reference.location ∨
          l ∈ (facts.declarations.filter fun d => d.kind ≠ .module).map Declaration.location) →
        ∀ e ∈ tree.lost, l ≠ (SourceText.ofString text).location e.info.start e.info.stop ∧
          ¬l.span.overlaps e.info.span) ∧
      ∀ d ∈ facts.declarations, d.kind ≠ .module → ∃ name, d.fqn.name? = some name ∧ name ≠ "" := by
  let source := SourceText.ofString text
  let m := Module.ofTree source tree.mend
  let bare := analyzeModule path module m passes
  obtain ⟨hfacts, hfindings⟩ := h.facts_eq source path module passes
  -- What the module names is a leaf of the source, and such leaves are not empty.
  have hword {word : Word} (hword : word.IsSound source tree) : word.text ≠ "" := by
    obtain ⟨t, ht, hkind, htext, -⟩ := hword
    rw [htext]
    exact hnames t ht hkind
  refine ⟨_, bare, analyze_eq_ok path module text tree passes,
    analyze_eq_ok path module text tree.mend passes, hfacts, hfindings, fun l hl e he => ?_,
    fun d hd hkind => ?_⟩
  · rw [hfacts] at hl
    -- Both a reference and a symbol stand where the mended tree has a word, which is a sound leaf.
    have hl : l ∈ bare.references.map Reference.location ∨
        l ∈ (bare.declarations.filter fun d => d.kind ≠ .module).map Declaration.location := hl
    rw [show bare = _ from analyzeModule_eq path module m passes] at hl
    obtain ⟨mark, hmark, hkind, rfl⟩ := exists_mark_of_mem path module m _ hl
    obtain ⟨word, hsound, hlocation⟩ :=
      (takes_ofTree (h.worded_mend source)).exists_word hmark hkind
    rw [hlocation]
    exact h.not_overlaps source hsound (hword hsound) he
  · rw [hfacts] at hd
    have hd : d ∈ bare.declarations := hd
    rw [show bare = _ from analyzeModule_eq path module m passes] at hd
    obtain ⟨hne, hget⟩ := get?_of_mem_declarations (Walk.wellFormed_walks _ m _) hd hkind
    obtain ⟨word, hsound, hname⟩ :=
      Walk.named_walks (takes_program (h.worded_mend source)) _ d.fqn d hne hget
    exact ⟨word.text, hname, hword hsound⟩

/-- The tree of `a = 1`, then `? b`, which cannot be placed, and then `c = f(a`, where the bracket is
missing. -/
def brokenLines : Node :=
  .mk ⟨0, "module", "", 0, 18, true, false, true⟩
    [wholeNode 1 "expression_statement" "" 0 5
      [wholeNode 2 "assignment" "" 0 5
        [wholeNode 3 "identifier" "left" 0 1 [], wholeNode 4 "integer" "right" 4 5 []]],
      .mk ⟨5, "ERROR", "", 6, 9, true, false, true⟩ [wholeNode 6 "identifier" "" 8 9 []],
      .mk ⟨7, "expression_statement", "", 10, 17, true, false, true⟩
        [.mk ⟨8, "assignment", "", 10, 17, true, false, true⟩
          [wholeNode 9 "identifier" "left" 10 11 [],
            .mk ⟨10, "call", "right", 14, 17, true, false, true⟩
              [wholeNode 11 "identifier" "function" 14 15 [],
                .mk ⟨12, "argument_list", "arguments", 15, 17, true, false, true⟩
                  [wholeNode 13 "identifier" "" 16 17 [],
                    .mk ⟨14, ")", "", 17, 17, false, true, true⟩ []]]]]]

/-- The name in the line that cannot be placed is not referred to, and the call is read as if its
bracket were there. -/
theorem analyze_mend_brokenLines :
    SetsApart brokenLines ∧
      (∀ t ∈ brokenLines.sound, t.kind = "identifier" →
        (SourceText.ofString "a = 1\n? b\nc = f(a\n").slice t.info.start t.info.stop ≠ "") ∧
      ∃ facts bare, analyze ⟨8, false⟩ ⟨"m.py", .root "m", "a = 1\n? b\nc = f(a\n",
          some brokenLines⟩ = .ok facts ∧
        analyze ⟨8, false⟩ ⟨"m.py", .root "m", "a = 1\n? b\nc = f(a\n",
          some brokenLines.mend⟩ = .ok bare ∧
        facts = { bare with findings := facts.findings } ∧
        facts.findings.Perm (bare.findings ++
          brokenLines.broken.map (brokenFinding (.ofString "a = 1\n? b\nc = f(a\n"))) ∧
        (∀ l, (l ∈ facts.references.map Reference.location ∨
            l ∈ (facts.declarations.filter fun d => d.kind ≠ .module).map Declaration.location) →
          ∀ e ∈ brokenLines.lost,
            l ≠ (SourceText.ofString "a = 1\n? b\nc = f(a\n").location e.info.start e.info.stop ∧
              ¬l.span.overlaps e.info.span) ∧
        ∀ d ∈ facts.declarations, d.kind ≠ .module →
          ∃ name, d.fqn.name? = some name ∧ name ≠ "" := by
  have hnames : ∀ t ∈ brokenLines.sound, t.kind = "identifier" →
      (SourceText.ofString "a = 1\n? b\nc = f(a\n").slice t.info.start t.info.stop ≠ "" := by
    decide +kernel
  exact ⟨by decide +kernel, hnames,
    analyze_mend "m.py" (.root "m") _ 8 (by decide +kernel) hnames⟩

/-- The tree of a string with nothing between the braces, where an expression is missing. -/
def emptyInterpolation : Node :=
  .mk ⟨0, "module", "", 0, 6, true, false, true⟩
    [.mk ⟨1, "expression_statement", "", 0, 5, true, false, true⟩
      [.mk ⟨2, "string", "", 0, 5, true, false, true⟩
        [wholeNode 3 "string_start" "" 0 2 [],
          .mk ⟨4, "interpolation", "", 2, 4, true, false, true⟩
            [.mk ⟨5, "identifier", "expression", 3, 3, true, true, true⟩ []],
          wholeNode 6 "string_end" "" 4 5 []]]]

/-- The missing expression is referred to where it is missing. -/
theorem exists_reference_of_missing :
    ∃ facts, analyze ⟨8, false⟩ ⟨"t.py", .root "root", "f\x27\x7b\x7d\x27\n",
        some emptyInterpolation⟩ = .ok facts ∧
      ∃ r ∈ facts.references, ∃ e ∈ emptyInterpolation.lost, e.info.missing ∧
        r.location = (SourceText.ofString "f\x27\x7b\x7d\x27\n").location e.info.start
          e.info.stop := by
  refine ⟨_, analyze_eq_ok "t.py" (.root "root") _ _ 8, ?_⟩
  decide +kernel

end Python

end NameAtlas
