import NameAtlas.Proofs.Analysis.WellFormed
import NameAtlas.Proofs.Walk.Settled

/-!
# Types that have settled

An analysis stops walking when a walk leaves the types as they were, and then walks once more to log
what it finds. The types of that last walk are the ones that were compared, if the walk before it
has left the bases of the classes as they were too (`analyze_types_of_settled`). The comparison does
not look at the bases, and they can make the difference (`exists_analyze_types_ne`): if the base of
a class is declared behind the class, then the class gets the base only in the second walk, which
may change no type any more, and the last walk finds a member through it.
-/

namespace NameAtlas

/-- The names and types that the facts about a file list. -/
def FileFacts.types (facts : FileFacts) : List (Fqn × BindingType) :=
  facts.declarations.map fun d => (d.fqn, d.type)

namespace Python

open Source

/-- The state of the analysis of a file after some walks. -/
def fileWalk (path : String) (module : Fqn) (text : String) (tree : Node) (k : Nat) : Walk :=
  Walk.walks (.ofPath path module) (Module.ofTree (.ofString text) tree) k

/-- How many walks the analysis of a file makes before the last one. -/
def silentFileWalks (path : String) (module : Fqn) (text : String) (tree : Node) (passes : Nat) :
    Nat :=
  (Module.ofTree (.ofString text) tree).silentWalks (.ofPath path module) passes

/-- If an analysis stops because a walk has left the types as they were, and if that walk has left
the bases of the classes as they were too, then the facts have these types, and no further walk
would change them. Where names are declared `global` or `nonlocal`, the walk must also have left
what names mean as it was. -/
theorem analyze_types_of_settled (path : String) (module : Fqn) (text : String) (tree : Node)
    (passes : Nat) {k : Nat} (hk : silentFileWalks path module text tree passes = k + 1)
    (htypes : (fileWalk path module text tree (k + 1)).symbols.types =
      (fileWalk path module text tree k).symbols.types)
    (hbases : ∀ c, (fileWalk path module text tree (k + 1)).symbols.basesOf c =
      (fileWalk path module text tree k).symbols.basesOf c)
    (hnames : (∀ info ∈ tree.infos, ¬isScopeDeclaration info.kind) ∨
      (fileWalk path module text tree k).SameMeanings (fileWalk path module text tree (k + 1))) :
    ∃ facts, analyze ⟨passes, false⟩ ⟨path, module, text, some tree⟩ = .ok facts ∧
      facts.types = (fileWalk path module text tree (k + 1)).symbols.types ∧
      ∀ l, k ≤ l → (fileWalk path module text tree l).symbols.types = facts.types := by
  let m := Module.ofTree (.ofString text) tree
  let context := ImportContext.ofPath path module
  have hwf := Walk.wellFormed_walks context m (k + 1 + 1)
  -- From the first walk that changes nothing on, no walk changes a type.
  have hsettled {l : Nat} (hl : k ≤ l) := Walk.types_walks_of_settled context m htypes hbases
    (hnames.imp_left (not_declaresScope _)) hl
  have hfacts := (analyze_eq_ok path module text tree passes).trans
    (congrArg _ (analyzeModule_eq path module m passes))
  rw [show m.silentWalks (.ofPath path module) passes = k + 1 from hk] at hfacts
  have hlast : (factsOf path module m (Walk.walks context m (k + 1 + 1))).types =
      (Walk.walks context m (k + 1 + 1)).symbols.types := hwf.symbols.types_toDeclarations
  refine ⟨_, hfacts, ?_, fun l hl => ?_⟩
  · rw [hlast, hsettled (by omega)]
    exact htypes.symm
  · rw [hlast, hsettled (by omega)]
    exact hsettled hl

/-- Two classes, the second of which has the first one as its base. -/
def inheritingSource : String := "class B:\n    a = 1\nclass C(B):\n    pass\nx = C().a\n"

/-- The tree of `inheritingSource`. -/
def inheritingTree : Node :=
  wholeNode 0 "module" "" 0 51
    [wholeNode 1 "class_definition" "" 0 18
      [wholeNode 2 "identifier" "name" 6 7 [],
        wholeNode 3 "block" "body" 13 18
          [wholeNode 4 "expression_statement" "" 13 18
            [wholeNode 5 "assignment" "" 13 18
              [wholeNode 6 "identifier" "left" 13 14 [], wholeNode 7 "integer" "right" 17 18 []]]]],
      wholeNode 8 "class_definition" "" 19 39
        [wholeNode 9 "identifier" "name" 25 26 [],
          wholeNode 10 "argument_list" "superclasses" 26 29 [wholeNode 11 "identifier" "" 27 28 []],
          wholeNode 12 "block" "body" 35 39 [wholeNode 13 "pass_statement" "" 35 39 []]],
      wholeNode 14 "expression_statement" "" 40 49
        [wholeNode 15 "assignment" "" 40 49
          [wholeNode 16 "identifier" "left" 40 41 [],
            wholeNode 17 "attribute" "right" 44 49
              [wholeNode 18 "call" "object" 44 47
                [wholeNode 19 "identifier" "function" 44 45 [],
                  wholeNode 20 "argument_list" "arguments" 45 47 []],
                wholeNode 21 "identifier" "attribute" 48 49 []]]]]

/-- Where a class stands behind its base, the types have settled when two walks agree on them. -/
theorem analyze_types_inheritingSource :
    ∃ facts, analyze ⟨8, false⟩ ⟨"m.py", .root "m", inheritingSource, some inheritingTree⟩ =
        .ok facts ∧
      facts.types.map Prod.snd =
        [.resolved (.root "m"), .resolved ((Fqn.root "m").child "B"), .primitive "int",
          .resolved ((Fqn.root "m").child "C"), .primitive "int"] := by
  -- The bases of the second walk are those of the first, as the class is declared in front.
  have hbases : (fileWalk "m.py" (.root "m") inheritingSource inheritingTree 2).symbols.bases.entries =
      (fileWalk "m.py" (.root "m") inheritingSource inheritingTree 1).symbols.bases.entries := by
    decide +kernel
  obtain ⟨facts, hfacts, htypes, -⟩ := analyze_types_of_settled "m.py" (.root "m")
    inheritingSource inheritingTree 8 (k := 1) (by decide +kernel) (by decide +kernel)
    (fun c => congrArg (fun es => (Table.lookup c es).getD []) hbases) (.inl (by decide))
  refine ⟨facts, hfacts, ?_⟩
  rw [htypes]
  decide +kernel

/-- A class in front of its base, and two values that depend on the base. -/
def forwardSource : String :=
  "z = y\ny = C().a\nclass C(B):\n    pass\nclass B:\n    a = 1\n"

/-- The tree of `forwardSource`. -/
def forwardTree : Node :=
  wholeNode 0 "module" "" 0 56
    [wholeNode 1 "expression_statement" "" 0 5
      [wholeNode 2 "assignment" "" 0 5
        [wholeNode 3 "identifier" "left" 0 1 [], wholeNode 4 "identifier" "right" 4 5 []]],
      wholeNode 5 "expression_statement" "" 6 15
        [wholeNode 6 "assignment" "" 6 15
          [wholeNode 7 "identifier" "left" 6 7 [],
            wholeNode 8 "attribute" "right" 10 15
              [wholeNode 9 "call" "object" 10 13
                [wholeNode 10 "identifier" "function" 10 11 [],
                  wholeNode 11 "argument_list" "arguments" 11 13 []],
                wholeNode 12 "identifier" "attribute" 14 15 []]]],
      wholeNode 13 "class_definition" "" 16 36
        [wholeNode 14 "identifier" "name" 22 23 [],
          wholeNode 15 "argument_list" "superclasses" 23 26 [wholeNode 16 "identifier" "" 24 25 []],
          wholeNode 17 "block" "body" 32 36 [wholeNode 18 "pass_statement" "" 32 36 []]],
      wholeNode 19 "class_definition" "" 37 55
        [wholeNode 20 "identifier" "name" 43 44 [],
          wholeNode 21 "block" "body" 50 55
            [wholeNode 22 "expression_statement" "" 50 55
              [wholeNode 23 "assignment" "" 50 55
                [wholeNode 24 "identifier" "left" 50 51 [],
                  wholeNode 25 "integer" "right" 54 55 []]]]]]

/-- An analysis can stop at a walk that has left the types as they were, and give other types. -/
theorem exists_analyze_types_ne :
    ∃ path module text tree passes k,
      silentFileWalks path module text tree passes = k + 1 ∧
      (fileWalk path module text tree (k + 1)).symbols.types =
        (fileWalk path module text tree k).symbols.types ∧
      (∀ info ∈ tree.infos, ¬isScopeDeclaration info.kind) ∧
      ∃ facts, analyze ⟨passes, false⟩ ⟨path, module, text, some tree⟩ = .ok facts ∧
        facts.types ≠ (fileWalk path module text tree (k + 1)).symbols.types :=
  ⟨"m.py", .root "m", forwardSource, forwardTree, 8, 1, by decide +kernel, by decide +kernel,
    by decide, _, analyze_eq_ok _ _ _ _ _, by decide +kernel⟩

end Python

end NameAtlas
