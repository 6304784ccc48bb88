import NameAtlas.Proofs.Analysis.Settled
import NameAtlas.Proofs.Walk.Overwriting

/-!
# The types of classes

A class statement gives the class itself as its type, and from then on the symbol is a class,
whatever else the file binds to the name. The type is not kept in that way: what binds the name to a
value behind the class statement writes another type over it, and so does the end of the body of a
function with the name, which may stand in front of the class. So a class has the type that the last
of these gives it, and itself if there is none (`analyze_classType_iff`), which is not what a class
should have (`exists_classType_ne`). If the file binds the name by class statements and imports only,
there is none.
-/

namespace NameAtlas.Python

open Source

/-- The typings of a symbol in the analysis of a file: all that gives it a type, in all the walks,
each with the type that it gives. -/
def fileTypings (path : String) (module : Fqn) (text : String) (tree : Node) (passes : Nat)
    (f : Fqn) : List (Op × BindingType) :=
  Walk.typings (.ofPath path module) (Module.ofTree (.ofString text) tree) f
    (silentFileWalks path module text tree passes + 1)

/-- The last definition of a class is a class statement, which gives the class itself as its type.
Behind it the type is overwritten by what binds the name to a value and by the ends of function
bodies, and by nothing else; the last of these decides. So the class has itself as its type exactly
if there is none or the last one gives it this type, and it does if the file binds the name by class
statements and imports only. -/
theorem analyze_classType_iff (path : String) (module : Fqn) (text : String) (tree : Node)
    (passes : Nat) :
    ∃ facts, analyze ⟨passes, false⟩ ⟨path, module, text, some tree⟩ = .ok facts ∧
      ∀ d ∈ facts.declarations, d.kind = .class →
        ∃ earlier header later,
          fileTypings path module text tree passes d.fqn =
            earlier ++ (.enterClass header, .resolved d.fqn) :: later ∧
          (∀ t ∈ later, t.1.Overwrites d.fqn) ∧
          d.type = lastType later (.resolved d.fqn) ∧
          (d.type = .resolved d.fqn ↔ ∀ t ∈ later.getLast?, t.2 = .resolved d.fqn) ∧
          ∀ name, d.fqn.name? = some name →
            (∀ op ∈ operationsOf (Module.ofTree (.ofString text) tree).body,
              op.rebinds name = false) →
            d.type = .resolved d.fqn := by
  let m := Module.ofTree (.ofString text) tree
  let context := ImportContext.ofPath path module
  let k := m.silentWalks context passes + 1
  have hwf := Walk.wellFormed_walks context m k
  refine ⟨_, (analyze_eq_ok path module text tree passes).trans
    (congrArg _ (analyzeModule_eq path module m passes)), fun d hd hkind => ?_⟩
  have hget : (Walk.walks context m k).symbols.get? d.fqn = some d := hwf.symbols.mem_toDeclarations hd
  have hclass : (Walk.walks context m k).symbols.kindOf? d.fqn = some .class := by
    rw [SymbolTable.kindOf?, hget, Option.map_some, hkind]
  -- The typings split at the last class statement, behind which nothing defines the symbol.
  obtain ⟨earlier, header, later, htypings, hlater⟩ := Walk.definedAsClass_walks context m hclass
  have hmem (t : Op × BindingType) (ht : t ∈ later) : t ∈ Walk.typings context m d.fqn k := by
    rw [htypings]
    exact List.mem_append_right _ (List.mem_cons_of_mem _ ht)
  have htype : d.type = lastType later (.resolved d.fqn) := by
    -- The class statement gives the class itself, and the last of the later typings overwrites it.
    have hlast := Walk.typeOf_walks context m d.fqn k
    rw [htypings, SymbolTable.typeOf, hget, List.append_cons, lastType_append, lastType_append] at hlast
    exact hlast
  refine ⟨earlier, header, later, htypings,
    fun t ht => Walk.overwrites_of_mem_typings (hmem t ht) (hlater t ht), htype, ?_,
    fun name hname hops => ?_⟩
  · rw [htype, lastType]
    cases later.getLast? <;> simp
  · -- What comes behind the class statement would be one again, and none comes behind the last one.
    have hclasses := (Walk.exists_enterClass_of_mem_typings context hname
      (fun a ha => hops a.op (Module.op_mem_operationsOf ha)) k).1
    have hnone : later = [] := List.eq_nil_iff_forall_not_mem.2 fun t ht => by
      obtain ⟨header, hop⟩ := hclasses t (hmem t ht)
      have hdefines := hlater t ht
      rw [hop] at hdefines
      cases hdefines
    rw [htype, hnone, lastType_nil]

/-- A function that a class with its name follows, and another class. -/
def redefinedSource : String :=
  "def A():\n    return 1\nclass A:\n    pass\nclass B:\n    pass\n"

/-- The tree of `redefinedSource`. -/
def redefinedTree : Node :=
  wholeNode 0 "module" "" 0 58
    [wholeNode 1 "function_definition" "" 0 21
      [wholeNode 2 "identifier" "name" 4 5 [], wholeNode 3 "parameters" "parameters" 5 7 [],
        wholeNode 4 "block" "body" 13 21
          [wholeNode 5 "return_statement" "" 13 21 [wholeNode 6 "integer" "" 20 21 []]]],
    wholeNode 7 "class_definition" "" 22 39
      [wholeNode 8 "identifier" "name" 28 29 [],
        wholeNode 9 "block" "body" 35 39 [wholeNode 10 "pass_statement" "" 35 39 []]],
    wholeNode 11 "class_definition" "" 40 57
      [wholeNode 12 "identifier" "name" 46 47 [],
        wholeNode 13 "block" "body" 53 57 [wholeNode 14 "pass_statement" "" 53 57 []]]]

/-- The body of the function in front ends last, and makes the class `A` an integer; the class `B`,
whose name nothing else binds, has itself as its type. -/
theorem analyze_classType_redefined :
    ∃ facts, analyze ⟨8, false⟩ ⟨"m.py", .root "m", redefinedSource, some redefinedTree⟩ =
        .ok facts ∧
      (∃ d ∈ facts.declarations, d.fqn = (Fqn.root "m").child "A" ∧ d.kind = .class ∧
        d.type = .primitive "int") ∧
      ∃ d ∈ facts.declarations, d.fqn = (Fqn.root "m").child "B" ∧ d.kind = .class ∧
        d.type = .resolved d.fqn := by
  obtain ⟨facts, hfacts, hclass⟩ :=
    analyze_classType_iff "m.py" (.root "m") redefinedSource redefinedTree 8
  obtain rfl := Except.ok.inj (hfacts.symm.trans (analyze_eq_ok _ _ _ _ _))
  have hdeclared : ∀ name ∈ ["A", "B"], ∃ d ∈ (analyzeModule "m.py" (.root "m")
      (Module.ofTree (.ofString redefinedSource) redefinedTree) 8).declarations,
      d.fqn = (Fqn.root "m").child name ∧ d.kind = .class := by decide +kernel
  refine ⟨_, analyze_eq_ok _ _ _ _ _, ?_, ?_⟩
  · obtain ⟨d, hmem, hfqn, hkind⟩ := hdeclared "A" (by simp)
    obtain ⟨earlier, header, later, htypings, -, htype, -⟩ := hclass d hmem hkind
    -- The last typing is no definition, so it comes behind the class statement.
    have hlast : (fileTypings "m.py" (.root "m") redefinedSource redefinedTree 8
        ((Fqn.root "m").child "A")).getLast?.map (fun t => (t.1.defines, t.2)) =
          some (false, .primitive "int") := by
      rw [fileTypings, show silentFileWalks "m.py" (.root "m") redefinedSource redefinedTree 8 = 2 by
        decide +kernel]
      decide +kernel
    rw [← hfqn, htypings, List.getLast?_append, List.getLast?_cons] at hlast
    refine ⟨d, hmem, hfqn, hkind, ?_⟩
    cases hlater : later.getLast? with
    | none =>
      rw [hlater] at hlast
      cases hlast
    | some t =>
      rw [hlater] at hlast
      rw [htype, lastType, hlater]
      exact (Prod.mk.inj (Option.some.inj hlast)).2
  · obtain ⟨d, hmem, hfqn, hkind⟩ := hdeclared "B" (by simp)
    obtain ⟨-, -, -, -, -, -, -, hown⟩ := hclass d hmem hkind
    exact ⟨d, hmem, hfqn, hkind, hown "B" (hfqn ▸ rfl) (by decide +kernel)⟩

/-- A class whose name is assigned to behind it. -/
def reassignedSource : String := "class A:\n    pass\nA = 1\n"

/-- The tree of `reassignedSource`. -/
def reassignedTree : Node :=
  wholeNode 0 "module" "" 0 24
    [wholeNode 1 "class_definition" "" 0 17
      [wholeNode 2 "identifier" "name" 6 7 [],
        wholeNode 3 "block" "body" 13 17 [wholeNode 4 "pass_statement" "" 13 17 []]],
    wholeNode 5 "expression_statement" "" 18 23
      [wholeNode 6 "assignment" "" 18 23
        [wholeNode 7 "identifier" "left" 18 19 [], wholeNode 8 "integer" "right" 22 23 []]]]

/-- A class can have another type than itself. -/
theorem exists_classType_ne :
    ∃ path module text tree passes facts,
      analyze ⟨passes, false⟩ ⟨path, module, text, some tree⟩ = .ok facts ∧
      ∃ d ∈ facts.declarations, d.kind = .class ∧ d.type ≠ .resolved d.fqn :=
  ⟨"m.py", .root "m", reassignedSource, reassignedTree, 8, _, analyze_eq_ok _ _ _ _ _,
    by decide +kernel⟩

end NameAtlas.Python
