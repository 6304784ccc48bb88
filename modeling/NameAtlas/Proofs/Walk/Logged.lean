import NameAtlas.Proofs.Walk.Marks
import NameAtlas.Proofs.Walk.Outline

/-!
# What a walk says of places

The marks that a walk makes are marks of the statements of the module, each no more often than the
statements make it. A walk performs the operations of a module at most once each, as it reads no
body twice (`Module.marksOf_program_le`), and what it logs is the marks of the operations
(`Walk.marks_outline_walks_le`). Symbols are declared in all walks and keep their first places, which
are among the marks too (`Walk.located_walks`).
-/

namespace NameAtlas.Python

/-! ### The program of a module -/

mutual

/-- What a statement does is done by its code and by that of the functions in it, and once. -/
theorem Stmt.marksOf_operations_eq :
    ∀ (st : Stmt) (s : Site), marksOf st.operations =
      marksOf ((st.code s).map Action.op) +
        (st.allFunctions.map fun f => marksOf (f.code.map Action.op)).sum
  -- The operations of a body stand in the middle of its statement, and in the code behind all else.
  | .simple _, s | .imports _ _, s | .returns (some _), s | .returns none, s | .globals _, s
  | .nonlocals _, s | .unsupported _ _, s => by
    simp only [Stmt.operations, Stmt.code, Site.map_op_actions, Stmt.allFunctions, List.map_nil,
      List.sum_nil, add_zero]
  | .block body, s => marksOf_operationsOf_eq body s
  | .caught value between target, s => by
    simp only [Stmt.operations, Stmt.code, List.map_append, Site.map_op_actions, marksOf_append,
      Stmt.allFunctions, marksOf_operationsOf_eq between s]
    ac_rfl
  | .function header body, s => by
    simp only [Stmt.operations, Stmt.code, Site.map_op_actions, Stmt.allFunctions, marksOf_append,
      marksOf_cons, List.map_cons, List.sum_cons, FunctionBody.map_op_code,
      marksOf_operationsOf_eq body (FunctionBody.site ⟨header, body⟩)]
    ac_rfl
  | .class header body, s => by
    simp only [Stmt.operations, Stmt.code, List.map_append, Site.map_op_actions,
      ClassHeader.map_op_code, marksOf_append, Stmt.allFunctions,
      marksOf_operationsOf_eq body (.body header.node)]
    ac_rfl

/-- What some statements do is done by their code and by that of the functions in them, and once. -/
theorem marksOf_operationsOf_eq :
    ∀ (body : List Stmt) (s : Site), marksOf (operationsOf body) =
      marksOf ((codeOf s body).map Action.op) +
        ((allFunctionsOf body).map fun f => marksOf (f.code.map Action.op)).sum
  | [], s => rfl
  | st :: rest, s => by
    simp only [operationsOf, codeOf, List.map_append, marksOf_append, allFunctionsOf,
      List.sum_append, Stmt.marksOf_operations_eq st s, marksOf_operationsOf_eq rest s]
    ac_rfl

end

/-- A walk over a module makes no mark more often than its statements do. -/
theorem Module.marksOf_program_le (m : Module) :
    marksOf (m.program.map Action.op) ≤ marksOf (operationsOf m.body) := by
  have hbodies : m.bodies.Subperm (allFunctionsOf m.body) :=
    List.subperm_of_subset m.nodup_bodies.of_map fun f hf =>
      mem_allFunctions_of_reaches (reaches_of_mem_bodies hf)
  obtain ⟨read, hperm, hsub⟩ := hbodies
  have hread : (m.bodies.map fun f => marksOf (f.code.map Action.op)).sum ≤
      ((allFunctionsOf m.body).map fun f => marksOf (f.code.map Action.op)).sum := by
    rw [← (hperm.map _).sum_eq]
    exact (hsub.map _).sum_le_sum fun _ _ => Multiset.zero_le _
  rw [marksOf_operationsOf_eq m.body .module, program, code, List.map_append, List.map_flatMap,
    marksOf_append, marksOf_flatMap]
  exact add_le_add_right hread _

/-! ### The log -/

/-- The marks of what has been logged. -/
def Outline.marks (o : Outline) : Multiset Mark :=
  (o.references.map fun r => ⟨.reference, r.location⟩ : List Mark) +
    (o.findings.map fun f => ⟨.report, f.location⟩ : List Mark)

/-- An operation logs no more than its marks. -/
theorem Op.marks_outline_le (scope : Nat) (op : Op) (o : Outline) :
    (op.outline scope o).marks ≤ o.marks + op.marks := by
  have hrefer (r : ReferenceShape) : (o.refer r).marks = o.marks + {⟨.reference, r.location⟩} := by
    simp only [Outline.marks, Outline.refer, List.map_append, ← Multiset.coe_add]
    exact add_right_comm _ _ _
  have hopen (node : Nat) (kind : ScopeKind) (span : Span) :
      (o.openScope node kind scope span).marks = o.marks := by
    rw [Outline.openScope]
    split <;> rfl
  have hmember (word : Word) : ({⟨.reference, word.location⟩} : Multiset Mark) ≤
      {⟨.reference, word.location⟩, ⟨.symbol, word.location⟩} :=
    Multiset.singleton_le.2 (Multiset.mem_cons_self _ _)
  -- A reference or report adds its mark, and opening a scope adds none.
  cases op with
  | report code message location =>
    simp only [Op.outline, Outline.marks, Outline.report, List.map_append, ← Multiset.coe_add,
      ← add_assoc]
    exact le_refl _
  | readName word | readMember word => exact (hrefer _).le
  | assignMember word | keepMember word =>
    exact (hrefer _).le.trans (add_le_add_right (hmember word) _)
  | enterFunction f | enterClass h => exact (hopen _ _ _).le.trans (Multiset.le_add_right _ _)
  | _ => exact Multiset.le_add_right _ _

/-- A run leaves no more marks than its operations have. -/
theorem Outline.marks_foldl_le (P : List Action) (o : Outline) :
    (P.foldl Action.outline o).marks ≤ o.marks + marksOf (P.map Action.op) := by
  induction P generalizing o with
  | nil => exact Multiset.le_add_right _ _
  | cons a rest ih =>
    rw [List.foldl_cons, List.map_cons, marksOf_cons, ← add_assoc]
    exact (ih _).trans (add_le_add_left (a.op.marks_outline_le _ o) _)

/-- A walk logs no more than the marks of the module. -/
theorem Walk.marks_outline_walks_le (context : ImportContext) (m : Module) (k : Nat) :
    (walks context m (k + 1)).outline.marks ≤ marksOf (operationsOf m.body) := by
  have hclear : (walks context m k).outline.clearLog.marks = 0 := rfl
  have hlog := Outline.marks_foldl_le m.program (walks context m k).outline.clearLog
  rw [hclear, zero_add] at hlog
  rw [outline_walks_succ]
  exact hlog.trans m.marksOf_program_le

/-! ### Symbols -/

/-- True if every symbol but the module is declared at a place that a mark gives it. -/
def SymbolTable.Located (ms : Multiset Mark) (module : Fqn) (t : SymbolTable) : Prop :=
  ∀ fqn d, fqn ≠ module → t.get? fqn = some d → ⟨.symbol, d.location⟩ ∈ ms

namespace SymbolTable.Located

variable {ms : Multiset Mark} {module : Fqn} {t : SymbolTable}

/-- A declaration adds a symbol at its place; one that is there already keeps its own. -/
theorem declare (h : t.Located ms module) {d : Declaration} (hd : ⟨.symbol, d.location⟩ ∈ ms) :
    (t.declare d).Located ms module := by
  intro fqn e hne he
  rw [get?_declare] at he
  split at he
  · rename_i hfqn
    obtain rfl := Option.some.inj he
    cases hold : t.get? d.fqn with
    | none => exact hd
    | some old => exact h fqn old hne (hfqn ▸ hold)
  · exact h fqn e hne he

/-- Setting a type leaves where symbols are located. -/
theorem setType (h : t.Located ms module) (fqn : Fqn) (type : BindingType) :
    (t.setType fqn type).Located ms module := by
  intro fqn' e hne he
  rw [get?_setType] at he
  split at he
  · rename_i hfqn
    obtain ⟨d, hd, rfl⟩ := Option.map_eq_some_iff.1 he
    exact h fqn' d hne (hfqn ▸ hd)
  · exact h fqn' e hne he

end SymbolTable.Located

namespace Machine

variable {ms : Multiset Mark} {module : Fqn} {M : Machine} {context : ImportContext}

/-- An operation declares symbols at the places that its marks give them. -/
theorem located_perform (scope : Nat) {op : Op} (hop : ∀ mark ∈ op.marks, mark ∈ ms)
    (h : M.walk.symbols.Located ms module) :
    (perform context scope op M).walk.symbols.Located ms module := by
  have hassign (object : Evaluated) (word : Word) (type : Option BindingType)
      (hword : ⟨.symbol, word.location⟩ ∈ ms) :
      (M.walk.assignMember scope object word type).symbols.Located ms module := by
    rw [Walk.assignMember]
    split
    · exact h.declare hword
    · exact h
  -- Only declarations locate a symbol; assigning to a member is one of them.
  cases op with
  | bindName word | parameter word => exact h.declare (hop _ (Multiset.mem_singleton_self _))
  | assignMember word | keepMember word =>
    exact hassign _ _ _ (hop _ (Multiset.mem_cons_of_mem (Multiset.mem_singleton_self _)))
  | enterFunction f =>
    simp only [perform, setWalk, Walk.symbols_enterFunction]
    exact h.declare (hop _ (Multiset.mem_singleton_self _))
  | enterClass c => exact h.declare (hop _ (Multiset.mem_singleton_self _))
  | noteReturn =>
    simp only [perform, setWalk, Walk.symbols_noteReturn]
    exact h
  | endBody =>
    simp only [perform, setWalk, Walk.endBody]
    split
    · split
      · exact h
      · exact h.setType _ _
    · exact h
  | _ => exact h

/-- A run declares symbols only at its marks. -/
theorem located_run (context : ImportContext) (P : List Action) (hP : ∀ a ∈ P, ∀ mark ∈ a.op.marks, mark ∈ ms)
    (h : M.walk.symbols.Located ms module) :
    (run context P M).walk.symbols.Located ms module := by
  induction P generalizing M with
  | nil => exact h
  | cons a rest ih =>
    exact ih (fun a' ha' => hP a' (List.mem_cons_of_mem a ha'))
      (located_perform _ (hP a List.mem_cons_self) h)

end Machine

/-- Every walk keeps the symbols at places that the statements of the module give them. -/
theorem Walk.located_walks (context : ImportContext) (m : Module) (k : Nat) :
    (walks context m k).symbols.Located (marksOf (operationsOf m.body)) context.module := by
  induction k with
  | zero =>
    intro fqn d hne hd
    simp only [walks, start, SymbolTable.get?_declare, if_neg hne] at hd
    cases hd
  | succ k ih =>
    -- An operation of the program is one of the code, in the module or in a body.
    have hmarks : ∀ a ∈ m.program, ∀ mark ∈ a.op.marks, mark ∈ marksOf (operationsOf m.body) :=
      fun a ha mark hmark =>
        Multiset.mem_of_le (marks_le_marksOf (Module.op_mem_operationsOf ha)) hmark
    have hrun := Machine.located_run context m.program hmarks
      (M := .ofWalk (walks context m k)) ih
    rw [run_program] at hrun
    exact hrun

end NameAtlas.Python
