import NameAtlas.Proofs.Analysis.ClassTypes
import NameAtlas.Proofs.Walk.LastBinding

/-!
# The latest binding

When a name of the module is bound several times, the last statement that gives it a type decides,
as the bindings are read in their order. There is one exception: the bodies of functions are read
behind the module, and where such a body ends, a function without a known annotation gets the type
that the body returns, also if its name has been bound anew behind it. The typings of the name in an
analysis therefore end with that of the last statement and those of such ends
(`analyze_type_of_gives`), and an earlier function can decide (`exists_type_ne_of_gives`).
-/

namespace NameAtlas.Python

open Source

/-- If the last statement of a module that binds a name gives it a type of its own, and the bodies
of functions and classes do not bind it in the module, its last typing besides those by the ends of
functions with that name is the one by this statement. The name has this type if these functions
have known annotations. -/
theorem analyze_type_of_gives (path : String) (module : Fqn) (text : String) (tree : Node)
    (passes : Nat) {name : String} {type : BindingType}
    (hlast : Stmt.Gives (.ofPath path module) module name
      (fileWalk path module text tree (silentFileWalks path module text tree passes)).clearLog
      (.block (Module.ofTree (.ofString text) tree).body) type)
    (hbodies : ∀ a ∈ (Module.ofTree (.ofString text) tree).program, a.site ≠ .module →
      (Module.ofTree (.ofString text) tree).binds name a = false) :
    ∃ facts, analyze ⟨passes, false⟩ ⟨path, module, text, some tree⟩ = .ok facts ∧
      ∃ d ∈ facts.declarations, d.fqn = module.child name ∧
        ∃ earlier op ends,
          fileTypings path module text tree passes d.fqn = earlier ++ (op, type) :: ends ∧
          (∀ t ∈ ends, t.1 = .endBody) ∧ d.type = lastType ends type ∧
          ((visitAll (.ofPath path module) ScopeTree.moduleScope
              (Module.ofTree (.ofString text) tree).body
              (fileWalk path module text tree
                (silentFileWalks path module text tree passes)).clearLog).Annotates d.fqn →
            d.type = type) := by
  let m := Module.ofTree (.ofString text) tree
  let context := ImportContext.ofPath path module
  let k := m.silentWalks context passes
  have hwf := Walk.wellFormed_walks context m (k + 1)
  obtain ⟨earlier, op, ends, htypings, hends, hannotates⟩ :=
    Walk.typings_program_of_gives context (m := m) (k := k) hlast hbodies
  -- What has a typing is declared, and has the type of the last one.
  have hdeclared : (Walk.walks context m (k + 1)).Declares (module.child name) := by
    have hrun : (Machine.run context m.program (.ofWalk (Walk.walks context m k))).walk.Declares
        (module.child name) :=
      Machine.declares_of_mem_typings (t := (op, type)) (htypings ▸ by simp)
    rwa [Walk.run_program] at hrun
  rw [Walk.Declares, ← hwf.symbols.keyed.map_toDeclarations] at hdeclared
  obtain ⟨d, hd, hfqn⟩ := List.mem_map.1 hdeclared
  have hall : Walk.typings context m d.fqn (k + 1) =
      Walk.typings context m d.fqn k ++ earlier ++ (op, type) :: ends := by
    rw [Walk.typings, hfqn, List.append_assoc]
    exact congrArg _ htypings
  have htype : d.type = lastType ends type := by
    have hlast := Walk.typeOf_walks context m d.fqn (k + 1)
    rw [hall, SymbolTable.typeOf, hwf.symbols.mem_toDeclarations hd, List.append_cons,
      lastType_append, lastType_append] at hlast
    exact hlast
  refine ⟨_, (analyze_eq_ok path module text tree passes).trans
    (congrArg _ (analyzeModule_eq path module m passes)), d, hd, hfqn, _, op, ends, hall, hends,
    htype, fun h => ?_⟩
  rw [htype, hannotates (hfqn ▸ h), lastType_nil]

/-- An annotated function whose name is assigned to behind it. -/
def rebornSource : String := "def f() -> int:\n    return 1\nf = \"s\"\n"

/-- The tree of `rebornSource`. -/
def rebornTree : Node :=
  wholeNode 0 "module" "" 0 37
    [wholeNode 1 "function_definition" "" 0 28
      [wholeNode 2 "identifier" "name" 4 5 [], wholeNode 3 "parameters" "parameters" 5 7 [],
        wholeNode 4 "type" "return_type" 11 14 [wholeNode 5 "identifier" "" 11 14 []],
        wholeNode 6 "block" "body" 20 28
          [wholeNode 7 "return_statement" "" 20 28 [wholeNode 8 "integer" "" 27 28 []]]],
    wholeNode 9 "expression_statement" "" 29 36
      [wholeNode 10 "assignment" "" 29 36
        [wholeNode 11 "identifier" "left" 29 30 [], wholeNode 12 "string" "right" 33 36 []]]]

/-- The assignment decides, as the function has an annotation. -/
theorem analyze_type_reborn :
    ∃ facts, analyze ⟨8, false⟩ ⟨"m.py", .root "m", rebornSource, some rebornTree⟩ = .ok facts ∧
      ∃ d ∈ facts.declarations, d.fqn = (Fqn.root "m").child "f" ∧ d.type = .primitive "str" := by
  -- The last binding is the assignment, which stands behind the function.
  have hlast : Stmt.Gives (.ofPath "m.py" (.root "m")) (.root "m") "f"
      (fileWalk "m.py" (.root "m") rebornSource rebornTree
        (silentFileWalks "m.py" (.root "m") rebornSource rebornTree 8)).clearLog
      (.block (Module.ofTree (.ofString rebornSource) rebornTree).body) (.primitive "str") :=
    @Stmt.Gives.block _ _ _ _ [_] [] _ _
      (@Stmt.Gives.assign _ _ _ _ [] [] _ _ (.plain rfl rfl) nofun) nofun
  obtain ⟨facts, hfacts, d, hd, hfqn, -, -, -, -, -, -, htype⟩ :=
    analyze_type_of_gives "m.py" (.root "m") rebornSource rebornTree 8 hlast (by decide +kernel)
  refine ⟨facts, hfacts, d, hd, hfqn, htype ?_⟩
  -- The number of walks is worked out first, as the evaluation goes through all of them.
  rw [hfqn, show silentFileWalks "m.py" (.root "m") rebornSource rebornTree 8 = 2 by decide +kernel]
  decide +kernel

/-- The same without the annotation. -/
def revivedSource : String := "def f():\n    return 1\nf = \"s\"\n"

/-- The tree of `revivedSource`. -/
def revivedTree : Node :=
  wholeNode 0 "module" "" 0 30
    [wholeNode 1 "function_definition" "" 0 21
      [wholeNode 2 "identifier" "name" 4 5 [], wholeNode 3 "parameters" "parameters" 5 7 [],
        wholeNode 4 "block" "body" 13 21
          [wholeNode 5 "return_statement" "" 13 21 [wholeNode 6 "integer" "" 20 21 []]]],
    wholeNode 7 "expression_statement" "" 22 29
      [wholeNode 8 "assignment" "" 22 29
        [wholeNode 9 "identifier" "left" 22 23 [],
          wholeNode 10 "string" "right" 26 29
            [wholeNode 11 "string_start" "" 26 27 [], wholeNode 12 "string_content" "" 27 28 [],
              wholeNode 13 "string_end" "" 28 29 []]]]]

/-- The body of an earlier function can decide. -/
theorem exists_type_ne_of_gives :
    ∃ (path : String) (module : Fqn) (text : String) (tree : Node) (passes : Nat) (name : String)
      (type : BindingType) (facts : FileFacts),
      Stmt.Gives (.ofPath path module) module name
        (fileWalk path module text tree (silentFileWalks path module text tree passes)).clearLog
        (.block (Module.ofTree (.ofString text) tree).body) type ∧
      (∀ a ∈ (Module.ofTree (.ofString text) tree).program, a.site ≠ .module →
        (Module.ofTree (.ofString text) tree).binds name a = false) ∧
      analyze ⟨passes, false⟩ ⟨path, module, text, some tree⟩ = .ok facts ∧
      ∃ d ∈ facts.declarations, d.fqn = module.child name ∧ d.type ≠ type :=
  -- The statement gives `f` the type of a string, and the body of the old `f` ends behind it.
  ⟨"m.py", .root "m", revivedSource, revivedTree, 8, "f", .primitive "str", _,
    @Stmt.Gives.block _ _ _ _ [_] [] _ _
      (@Stmt.Gives.assign _ _ _ _ [] [] _ _ (.plain rfl rfl) nofun) nofun,
    by decide +kernel, analyze_eq_ok _ _ _ _ _, by decide +kernel⟩

end NameAtlas.Python
