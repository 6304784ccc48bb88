import NameAtlas.Proofs.Analysis.WellFormed
import NameAtlas.Proofs.Index.Sound
import NameAtlas.Proofs.Walk.Entered

/-!
# The bases of redeclared classes

When several files declare one name, the symbol of the last one wins. Its file is found in the list
of files (`exists_supplier`): no file behind it declares the name, so none lists bases for it, as an
analysis lists bases only for classes that it declares (`FileFacts.DeclaresDerived`). The bases of
the name are then those that this file lists, unless it lists none: then they are left over from the
files in front. So they are the bases of the winning symbol exactly if its file lists some or none
of the files in front does (`Store.basesOf_index_after_iff`), and not in general
(`Store.exists_basesOf_index_after_ne`).
-/

namespace NameAtlas

/-- Facts that list bases only for what they declare. -/
structure FileFacts.DeclaresDerived (facts : FileFacts) : Prop where
  /-- There is a scope to declare symbols in. -/
  scopes : facts.scopes ≠ []
  /-- A name with bases is declared. -/
  derived : ∀ i ∈ facts.inheritances, ∃ d ∈ facts.declarations, d.fqn = i.derived

/-! ### Facts from an analysis -/

namespace Python

/-- An analysis ends with some walk over the module of a tree. -/
theorem exists_walks_of_analyze {options : AnalysisOptions} {file : SourceFile} {facts : FileFacts}
    (h : analyze options file = .ok facts) :
    ∃ tree k, file.tree = some tree ∧
      facts = factsOf file.path file.module (.ofTree (.ofString file.text) tree)
        (Walk.walks (.ofPath file.path file.module) (.ofTree (.ofString file.text) tree) k) := by
  rw [analyze] at h
  split at h
  · cases h
  · next tree htree =>
    dsimp only at h
    split at h
    · cases h
    -- Strict or not, the facts are those of the last walk.
    · rw [analyzeModule_eq] at h
      exact ⟨tree, _, htree, (Except.ok.inj h).symm⟩

/-- What an analysis lists bases for it declares. -/
theorem declaresDerived_of_analyze {options : AnalysisOptions} {file : SourceFile}
    {facts : FileFacts} (h : analyze options file = .ok facts) : facts.DeclaresDerived := by
  obtain ⟨tree, k, -, rfl⟩ := exists_walks_of_analyze h
  let m := Module.ofTree (.ofString file.text) tree
  have hwf : (Walk.walks (.ofPath file.path file.module) m k).WellFormed file.module :=
    Walk.wellFormed_walks (.ofPath file.path file.module) m k
  have hbases := Walk.basesDeclared_walks (.ofPath file.path file.module) m k
  constructor
  case scopes =>
    have hfacts : (factsOf file.path file.module m _).WellFormed := hwf.factsOf
    obtain ⟨span, hfirst⟩ := hfacts.firstScope
    intro hempty
    rw [hempty] at hfirst
    cases hfirst
  case derived =>
    intro i hi
    -- The bases come from the table of bases, whose keys are declared.
    obtain ⟨hclass, -⟩ := SymbolTable.mem_toInheritances_iff.1 hi
    exact hwf.symbols.keyed.mem_keys_iff.1 (hbases i.derived hclass)

end Python

namespace Index

variable {files later : List StoredFile} {c : Fqn} {s : Symbol}

/-! ### The file that supplies a symbol -/

/-- Where there is a scope, every declaration becomes a symbol. -/
theorem exists_mem_symbolsOf {facts : FileFacts} {d : Declaration} (index : Index)
    (hscopes : facts.scopes ≠ []) (hd : d ∈ facts.declarations) :
    ∃ s ∈ symbolsOf (index.numbering facts) facts, s.fqn = d.fqn := by
  have hfirst : (index.numbering facts).scope? 0 = some ⟨index.scopes.length + 0⟩ :=
    if_pos (List.length_pos_iff.2 hscopes)
  obtain ⟨scope, hscope⟩ : ∃ scope, (index.numbering facts).scopeOrFirst? d.scope = some scope := by
    rw [Numbering.scopeOrFirst?]
    split
    · exact ⟨_, rfl⟩
    · exact ⟨_, hfirst⟩
  exact ⟨_, mem_symbolsOf.2 ⟨d, hd, scope, hscope, rfl⟩, rfl⟩

/-- The symbol of a name is declared by one of the files, and no file behind that one lists bases
for the name. -/
theorem exists_supplier (hfiles : ∀ f ∈ files, f.facts.DeclaresDerived)
    (hs : (files.foldl merge .empty).symbol? c = some s) :
    ∃ before stored later, files = before ++ stored :: later ∧ s.file = ⟨before.length⟩ ∧
      (∃ d ∈ stored.facts.declarations, d.fqn = c ∧ d.kind = s.kind ∧ d.location = s.location) ∧
      ∀ f ∈ later, basesIn f.facts c = [] := by
  induction files using List.reverseRecOn with
  | nil => cases hs
  | append_singleton earlier last ih =>
    have hearlier : ∀ f ∈ earlier, f.facts.DeclaresDerived :=
      fun f hf => hfiles f (List.mem_append_left _ hf)
    have hlast : last.facts.DeclaresDerived := hfiles last (by simp)
    rw [foldl_merge_concat] at hs
    -- The symbol is one of the last file, or was there before and the last file does not declare it.
    obtain ⟨hmem, rfl⟩ | ⟨hold, hnone⟩ := symbol?_merge hs
    · obtain ⟨d, hd, scope, -, rfl⟩ := mem_symbolsOf.1 hmem
      refine ⟨earlier, last, [], rfl, ?_, ⟨d, hd, rfl, rfl, rfl⟩, fun _ h => nomatch h⟩
      exact congrArg FileId.mk (linked_foldl earlier).length_files
    · obtain ⟨before, stored, later, hsplit, hfile, hdeclared, hlater⟩ := ih hearlier hold
      refine ⟨before, stored, later ++ [last], by simp [hsplit], hfile, hdeclared, ?_⟩
      -- Bases in the last file would come with a declaration there, and so with a later symbol.
      have hnil : basesIn last.facts c = [] := by
        rw [basesIn_eq_nil_iff]
        intro i hi hderived
        obtain ⟨d, hd, hfqn⟩ := hlast.derived i hi
        obtain ⟨s', hs', hs'fqn⟩ :=
          exists_mem_symbolsOf (earlier.foldl merge .empty) hlast.scopes hd
        exact hnone s' hs' (hs'fqn.trans (hfqn.trans hderived))
      exact List.forall_mem_append.2 ⟨hlater, List.forall_mem_singleton.2 hnil⟩

/-! ### Bases through merges -/

/-- A merged file that lists bases of a class replaces them; one that lists none leaves them. -/
theorem basesOf_merge (index : Index) (stored : StoredFile) (c : Fqn) :
    Hierarchy.basesOf (index.merge stored).bases c =
      if basesIn stored.facts c = [] then Hierarchy.basesOf index.bases c
      else basesIn stored.facts c :=
  basesOf_insertBases index.bases stored.facts c

/-- Files that list no bases for a class leave those that it has. -/
theorem basesOf_foldl_of_nil (index : Index) (h : ∀ f ∈ later, basesIn f.facts c = []) :
    Hierarchy.basesOf (later.foldl merge index).bases c = Hierarchy.basesOf index.bases c := by
  induction later generalizing index with
  | nil => rfl
  | cons f rest ih =>
    rw [List.foldl_cons, ih _ fun f' hf' => h f' (List.mem_cons_of_mem f hf'), basesOf_merge,
      if_pos (h f List.mem_cons_self)]

/-- A class has no bases if no file lists any. -/
theorem basesOf_foldl_eq_nil_iff :
    Hierarchy.basesOf (files.foldl merge .empty).bases c = [] ↔
      ∀ f ∈ files, basesIn f.facts c = [] := by
  induction files using List.reverseRecOn with
  | nil => simp [Hierarchy.basesOf, empty]
  | append_singleton earlier last ih =>
    rw [foldl_merge_concat, basesOf_merge, List.forall_mem_append, List.forall_mem_singleton, ← ih]
    split
    · next hnil => simp [hnil]
    · next hne => simp [hne]

/-- The bases of a class behind the last file that declares it. -/
theorem basesOf_foldl_append_cons (before : List StoredFile) (stored : StoredFile)
    (h : ∀ f ∈ later, basesIn f.facts c = []) :
    Hierarchy.basesOf ((before ++ stored :: later).foldl merge .empty).bases c =
      if basesIn stored.facts c = [] then
        Hierarchy.basesOf (before.foldl merge .empty).bases c
      else basesIn stored.facts c := by
  rw [List.foldl_append, List.foldl_cons, basesOf_foldl_of_nil _ h, basesOf_merge]

end Index

namespace Store

/-- The file that supplies a symbol of the index is the one with the number of the symbol, and the
bases of the symbol are those that this file lists exactly if it lists some, or if no file in front
of it lists any for that name. -/
theorem basesOf_index_after_iff {changes : List Change}
    (hanalyzed : ∀ facts contentHash, .upsert facts contentHash ∈ changes →
      ∃ options file, Python.analyze options file = .ok facts)
    {s : Symbol} (hs : s ∈ (after changes).index.allSymbols) :
    ∃ stored, (after changes).files.values[s.file.position]? = some stored ∧
      (∃ d ∈ stored.facts.declarations, d.fqn = s.fqn ∧ d.kind = s.kind ∧
        d.location = s.location) ∧
      (Hierarchy.basesOf (after changes).index.bases s.fqn =
          Index.basesIn stored.facts s.fqn ↔
        Index.basesIn stored.facts s.fqn ≠ [] ∨
          ∀ earlier ∈ (after changes).files.values.take s.file.position,
            Index.basesIn earlier.facts s.fqn = []) := by
  have hfiles : ∀ f ∈ (after changes).files.values, f.facts.DeclaresDerived := by
    refine forall_values_after fun facts contentHash hmem => ?_
    obtain ⟨options, file, hfacts⟩ := hanalyzed facts contentHash hmem
    exact Python.declaresDerived_of_analyze hfacts
  obtain ⟨k, hk⟩ := Index.mem_allSymbols.1 hs
  obtain rfl := ((Index.linked_foldl _).symbols k s hk).1
  obtain ⟨before, stored, later, hsplit, hfile, hdeclared, hlater⟩ :=
    Index.exists_supplier hfiles hk
  have hbases := Index.basesOf_foldl_append_cons before stored hlater
  rw [← hsplit] at hbases
  -- The number of the file of the symbol is its position in the list of files.
  have hposition : s.file.position = before.length := congrArg FileId.position hfile
  refine ⟨stored, ?_, hdeclared, ?_⟩
  · rw [hsplit, hposition]
    simp
  · have htake : (after changes).files.values.take s.file.position = before := by
      rw [hsplit, hposition, List.take_left]
    rw [htake, ← Index.basesOf_foldl_eq_nil_iff]
    refine (Eq.congr_left hbases).trans ?_
    -- If the file lists bases, both sides hold; if not, they say the same of the files in front.
    by_cases hnil : Index.basesIn stored.facts s.fqn = []
    · simp [hnil]
    · simp [hnil]

/-- A file with two classes, the second of which has the first one as its base. -/
def derivingFacts : FileFacts :=
  Python.analyzeModule "one.py" (.root "root")
    (.ofTree (.ofString "class A:\n    pass\nclass C(A):\n    pass\n")
      (Python.wholeNode 0 "module" "" 0 39
        [Python.wholeNode 1 "class_definition" "" 0 17
          [Python.wholeNode 2 "identifier" "name" 6 7 [],
            Python.wholeNode 3 "block" "body" 13 17 [Python.wholeNode 4 "pass_statement" "" 13 17 []]],
          Python.wholeNode 5 "class_definition" "" 18 38
            [Python.wholeNode 6 "identifier" "name" 24 25 [],
              Python.wholeNode 7 "argument_list" "superclasses" 25 28
                [Python.wholeNode 8 "identifier" "" 26 27 []],
              Python.wholeNode 9 "block" "body" 34 38
                [Python.wholeNode 10 "pass_statement" "" 34 38 []]]]))
    8

/-- A file of the same module that declares the second class again, with another base. -/
def rederivingFacts : FileFacts :=
  Python.analyzeModule "two.py" (.root "root")
    (.ofTree (.ofString "class C(int):\n    pass\n")
      (Python.wholeNode 0 "module" "" 0 23
        [Python.wholeNode 1 "class_definition" "" 0 22
          [Python.wholeNode 2 "identifier" "name" 6 7 [],
            Python.wholeNode 3 "argument_list" "superclasses" 7 12
              [Python.wholeNode 4 "identifier" "" 8 11 []],
            Python.wholeNode 5 "block" "body" 18 22
              [Python.wholeNode 6 "pass_statement" "" 18 22 []]]]))
    8

/-- A file of the same module that declares the second class again, without a base. -/
def baselessFacts : FileFacts :=
  Python.analyzeModule "two.py" (.root "root")
    (.ofTree (.ofString "class C:\n    pass\n")
      (Python.wholeNode 0 "module" "" 0 18
        [Python.wholeNode 1 "class_definition" "" 0 17
          [Python.wholeNode 2 "identifier" "name" 6 7 [],
            Python.wholeNode 3 "block" "body" 13 17
              [Python.wholeNode 4 "pass_statement" "" 13 17 []]]]))
    8

/-- The symbol of the class that both files declare, as the second one declares it. -/
def redeclaredClass : Symbol :=
  ⟨⟨["root", "C"]⟩, .class, .resolved ⟨["root", "C"]⟩, ⟨3⟩, ⟨1⟩, ⟨⟨6, 7⟩, 1, 7⟩⟩

/-- The facts of the example are those of an analysis. -/
theorem exists_analyze_derivingFacts :
    ∃ options file, Python.analyze options file = .ok derivingFacts :=
  ⟨⟨8, false⟩, _, Python.analyze_eq_ok _ _ _ _ _⟩

/-- A class that a later file gives another base has that base alone. -/
theorem basesOf_index_after_rederiving :
    let index := (after [.upsert derivingFacts "1", .upsert rederivingFacts "2"]).index
    redeclaredClass ∈ index.allSymbols ∧
      Hierarchy.basesOf index.bases redeclaredClass.fqn = [.builtin "int"] := by
  intro index
  have hmem : redeclaredClass ∈ index.allSymbols :=
    Index.mem_allSymbols.2 ⟨⟨["root", "C"]⟩, by decide +kernel⟩
  have hanalyzed : ∀ facts contentHash,
      .upsert facts contentHash ∈
        [Change.upsert derivingFacts "1", Change.upsert rederivingFacts "2"] →
      ∃ options file, Python.analyze options file = .ok facts := by
    intro facts contentHash h
    simp only [List.mem_cons, Change.upsert.injEq, List.not_mem_nil, or_false] at h
    obtain ⟨rfl, -⟩ | ⟨rfl, -⟩ := h
    · exact exists_analyze_derivingFacts
    · exact ⟨⟨8, false⟩, _, Python.analyze_eq_ok _ _ _ _ _⟩
  obtain ⟨stored, hstored, -, hiff⟩ := basesOf_index_after_iff hanalyzed hmem
  -- The file that supplies the symbol is the second one, which lists a base.
  have hfacts : some rederivingFacts = some stored.facts := by
    have hget := congrArg (Option.map StoredFile.facts) hstored
    exact (show some rederivingFacts = _ by decide +kernel).trans hget
  have hbases : Index.basesIn stored.facts redeclaredClass.fqn = [.builtin "int"] := by
    rw [← Option.some.inj hfacts]
    decide +kernel
  refine ⟨hmem, (hiff.2 (.inl ?_)).trans hbases⟩
  rw [hbases]
  exact List.cons_ne_nil _ _

/-- A class that a later file declares without a base keeps the base that an earlier file gives
it. -/
theorem exists_basesOf_index_after_ne :
    ∃ changes s, (∀ facts contentHash, .upsert facts contentHash ∈ changes →
        ∃ options file, Python.analyze options file = .ok facts) ∧
      s ∈ (after changes).index.allSymbols ∧ s.kind = .class ∧
      ∃ stored, (after changes).files.values[s.file.position]? = some stored ∧
        Hierarchy.basesOf (after changes).index.bases s.fqn ≠ Index.basesIn stored.facts s.fqn := by
  -- The second file declares the class without bases, and the entry of the first one stays.
  refine ⟨[.upsert derivingFacts "1", .upsert baselessFacts "2"], redeclaredClass, ?_,
    Index.mem_allSymbols.2 ⟨⟨["root", "C"]⟩, by decide +kernel⟩, rfl, ⟨baselessFacts, "2"⟩,
    by decide +kernel, by decide +kernel⟩
  intro facts contentHash h
  simp only [List.mem_cons, Change.upsert.injEq, List.not_mem_nil, or_false] at h
  obtain ⟨rfl, -⟩ | ⟨rfl, -⟩ := h
  · exact exists_analyze_derivingFacts
  · exact ⟨⟨8, false⟩, _, Python.analyze_eq_ok _ _ _ _ _⟩

end Store

end NameAtlas
