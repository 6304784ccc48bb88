import NameAtlas.Proofs.Walk.Passes

/-!
# What gives a symbol its type

A symbol has no type of its own: whatever binds the name writes a type over the one before, also the
end of the body of a function without an annotation, which comes long after the function was
defined. The typings of a symbol are these writes in their order, each with the operation that makes
it (`Machine.typings`), and the type of a symbol is that of the last one (`typeOf_run`). A definition
sets the kind as well, and nothing else changes it afterwards, so the last definition among the
typings of a class is that of a class (`definedAsClass_run`).
-/

namespace NameAtlas.Python

namespace Walk

/-- The member that is declared by an assignment to a value, with the type that it gets. -/
def memberTyping? (w : Walk) (object : Evaluated) (word : Word) (type : Option BindingType) :
    Option (Fqn × BindingType) :=
  (w.ownerOf? object).map fun owner =>
    (owner.1.child word.text,
      type.getD (match memberOf? w.symbols object word.text with
        | some (.declared f) => w.symbols.typeOf f
        | _ => .unknown))

/-- The function that gets a type at the end of the body in a scope, with that type. -/
def returnTyping? (w : Walk) (scope : Nat) : Option (Fqn × BindingType) :=
  match w.scopes.function? scope with
  | some info =>
    if info.annotated = false ∧ (w.symbols.get? info.symbol).isSome then
      some (info.symbol, (w.returned.get? scope).getD .noneType)
    else none
  | none => none

end Walk

/-- True for the operations that define a function or a class. -/
def Op.defines : Op → Bool
  | .enterFunction _ | .enterClass _ => true
  | _ => false

namespace Machine

/-- The symbol that an operation gives a type, with the type. -/
def typing? (scope : Nat) : Op → Machine → Option (Fqn × BindingType)
  | .bindName word, M => some ((M.walk.bindingPlace scope word.text).2, M.value.type)
  | .assignMember word, M => M.walk.memberTyping? M.value word (some M.pop.value.type)
  | .keepMember word, M => M.walk.memberTyping? M.value word none
  | .enterFunction f, M =>
    let fqn := (M.placeOf scope f.header.node f.header.word).2
    some (fqn, M.annotation.getD (M.walk.symbols.typeOf fqn))
  | .parameter word, M =>
    some ((M.walk.scopes.ownerOf M.definition.inner).child word.text,
      match M.definition.receiver with
      | some c => .resolved c
      | none => M.annotation.getD .unknown)
  | .enterClass h, M =>
    let fqn := (M.placeOf scope h.node h.word).2
    some (fqn, .resolved fqn)
  | .endBody, M => M.walk.returnTyping? scope
  | _, _ => none

/-! ### One operation -/

variable (context : ImportContext)

/-- Assigning to a member gives a type to the member, and to nothing else. -/
theorem typeOf_assignMember (w : Walk) (scope : Nat) (object : Evaluated) (word : Word)
    (type : Option BindingType) (f : Fqn) :
    (w.assignMember scope object word type).symbols.typeOf f =
      match w.memberTyping? object word type with
      | some (g, t) => if f = g then t else w.symbols.typeOf f
      | none => w.symbols.typeOf f := by
  rw [Walk.assignMember, Walk.memberTyping?]
  cases w.ownerOf? object with
  | none => rfl
  | some owner => exact SymbolTable.typeOf_declare _ _ f

/-- Ending a body gives a type to its function, and to nothing else. -/
theorem typeOf_endBody (w : Walk) (scope : Nat) (f : Fqn) :
    (w.endBody scope).symbols.typeOf f =
      match w.returnTyping? scope with
      | some (g, t) => if f = g then t else w.symbols.typeOf f
      | none => w.symbols.typeOf f := by
  rw [Walk.endBody, Walk.returnTyping?, ScopeTree.function?]
  cases (w.scopes.frame? scope).bind Frame.function with
  | none => rfl
  | some info =>
    -- An annotated function keeps its type, and one that is not declared gets none.
    cases hannotated : info.annotated with
    | true => simp [hannotated]
    | false =>
      simp only [hannotated, Bool.false_eq_true, if_false, true_and, SymbolTable.typeOf_setType]
      by_cases hdeclared : (w.symbols.get? info.symbol).isSome <;> simp [hdeclared]

/-- An operation changes the type of the symbol that it gives one, and of no other. -/
theorem typeOf_perform (scope : Nat) (op : Op) (M : Machine) (f : Fqn) :
    (perform context scope op M).walk.symbols.typeOf f =
      match typing? scope op M with
      | some (g, type) => if f = g then type else M.walk.symbols.typeOf f
      | none => M.walk.symbols.typeOf f := by
  -- Each operation either declares a symbol, sets a type, or leaves the table.
  cases op with
  | bindName | parameter | enterClass => exact SymbolTable.typeOf_declare _ _ f
  | assignMember | keepMember => exact typeOf_assignMember _ _ _ _ _ f
  | enterFunction g =>
    simp only [perform, setWalk, Walk.symbols_enterFunction]
    exact SymbolTable.typeOf_declare _ _ f
  | noteReturn => simp only [perform, setWalk, Walk.symbols_noteReturn, typing?]
  | endBody => exact typeOf_endBody _ _ f
  | _ => rfl

/-- What is declared as something else than a class or function keeps the kind that it has. -/
theorem kindOf?_of_declare {t : SymbolTable} {d : Declaration} {f : Fqn}
    (hd : d.kind.isDefinition = false) (hne : d.kind ≠ .class)
    (h : (t.declare d).kindOf? f = some .class) : t.kindOf? f = some .class := by
  rw [SymbolTable.kindOf?_declare, hd] at h
  split at h
  · cases hold : t.kindOf? f with
    | some kind => simpa [hold] using h
    | none => simp [hold, hne] at h
  · exact h

/-- A symbol that is a class behind an operation has just been defined as one, with itself as its
type, or has been one before and not been defined as anything else. -/
theorem kindOf?_perform_class {scope : Nat} {op : Op} {M : Machine} {f : Fqn}
    (h : (perform context scope op M).walk.symbols.kindOf? f = some .class) :
    (∃ header, op = .enterClass header ∧ typing? scope op M = some (f, .resolved f)) ∨
      (M.walk.symbols.kindOf? f = some .class ∧
        (op.defines = false ∨ ∀ type, typing? scope op M ≠ some (f, type))) := by
  -- Either the class is entered here, or it was one before and nothing here defines it anew.
  cases op with
  | bindName word =>
    refine .inr ⟨kindOf?_of_declare ?_ ?_ h, .inl rfl⟩ <;> dsimp only <;> split <;> simp [SymbolKind.isDefinition]
  | parameter word => exact .inr ⟨kindOf?_of_declare rfl SymbolKind.noConfusion h, .inl rfl⟩
  | assignMember | keepMember =>
    refine .inr ⟨?_, .inl rfl⟩
    simp only [perform, setWalk, Walk.assignMember] at h
    split at h
    · exact kindOf?_of_declare rfl SymbolKind.noConfusion h
    · exact h
  | enterFunction g =>
    simp only [perform, setWalk, Walk.symbols_enterFunction, SymbolTable.kindOf?_declare] at h
    split at h
    · exact absurd (Option.some.inj h) (by simp [SymbolKind.isDefinition])
    · rename_i hne
      exact .inr ⟨h, .inr fun type htyping => hne (by cases htyping; rfl)⟩
  | enterClass header =>
    by_cases hf : f = (M.placeOf scope header.node header.word).2
    · exact .inl ⟨header, rfl, by rw [typing?, ← hf]⟩
    · rw [show (perform context scope (.enterClass header) M).walk.symbols.kindOf? f = _ from
        SymbolTable.kindOf?_declare _ _ f, if_neg hf] at h
      exact .inr ⟨h, .inr fun type htyping => hf (by cases htyping; rfl)⟩
  | noteReturn =>
    rw [perform, setWalk, pop] at h
    simp only [Walk.symbols_noteReturn] at h
    exact .inr ⟨h, .inl rfl⟩
  | endBody =>
    refine .inr ⟨?_, .inl rfl⟩
    simp only [perform, setWalk, Walk.endBody] at h
    split at h
    · split at h
      · exact h
      · rwa [SymbolTable.kindOf?_setType] at h
    · exact h
  | _ => exact .inr ⟨h, .inl rfl⟩

/-! ### Runs -/

/-- The typings of a symbol in a run: the operations that give it a type, in order, each with the
type that it gives. -/
def typings (f : Fqn) : List Action → Machine → List (Op × BindingType)
  | [], _ => []
  | a :: rest, M =>
    (match typing? (M.walk.scopes.resolve a.site) a.op M with
      | some (g, type) => if f = g then [(a.op, type)] else []
      | none => []) ++ typings f rest (step context M a)

/-- No actions give no types. -/
@[simp] theorem typings_nil (f : Fqn) (M : Machine) : typings context f [] M = [] := rfl

/-- The first action of a run gives a symbol a type, or the actions behind it do. -/
theorem mem_typings_cons_iff {f : Fqn} {a : Action} {rest : List Action} {M : Machine}
    {t : Op × BindingType} :
    t ∈ typings context f (a :: rest) M ↔
      (t.1 = a.op ∧ typing? (M.walk.scopes.resolve a.site) a.op M = some (f, t.2)) ∨
        t ∈ typings context f rest (step context M a) := by
  rw [typings, List.mem_append]
  refine or_congr_left ?_
  rcases typing? (M.walk.scopes.resolve a.site) a.op M with _ | ⟨g, type⟩
  · simp
  · by_cases hg : f = g <;> simp [hg, Prod.ext_iff, eq_comm]

/-- Two runs give types one after the other. -/
theorem typings_append (f : Fqn) (P P' : List Action) (M : Machine) :
    typings context f (P ++ P') M =
      typings context f P M ++ typings context f P' (run context P M) := by
  induction P generalizing M with
  | nil => rfl
  | cons a rest ih => rw [List.cons_append, typings, ih, typings, List.append_assoc, run_cons]

end Machine

/-- The type that the last of some typings gives, if there is one. -/
def lastType (ts : List (Op × BindingType)) (type : BindingType) : BindingType :=
  (ts.getLast?.map Prod.snd).getD type

/-- If no types are given, the old one is the last. -/
@[simp] theorem lastType_nil (type : BindingType) : lastType [] type = type := rfl

/-- The last type of two lists is that of the second, from the last one of the first on. -/
theorem lastType_append (ts ts' : List (Op × BindingType)) (type : BindingType) :
    lastType (ts ++ ts') type = lastType ts' (lastType ts type) := by
  rw [lastType, lastType, lastType, List.getLast?_append]
  cases ts'.getLast? <;> rfl

/-- True if the last definition among some typings is that of a class, which gives it itself as its
type. -/
def DefinedAsClass (f : Fqn) (ts : List (Op × BindingType)) : Prop :=
  ∃ earlier header later, ts = earlier ++ (.enterClass header, .resolved f) :: later ∧
    ∀ t ∈ later, t.1.defines = false

/-- What defines nothing may follow. -/
theorem DefinedAsClass.append {f : Fqn} {ts ts' : List (Op × BindingType)} (h : DefinedAsClass f ts)
    (hts' : ∀ t ∈ ts', t.1.defines = false) : DefinedAsClass f (ts ++ ts') := by
  obtain ⟨earlier, header, later, rfl, hlater⟩ := h
  exact ⟨earlier, header, later ++ ts', by simp, List.forall_mem_append.2 ⟨hlater, hts'⟩⟩

namespace Machine

variable (context : ImportContext)

/-- Behind a run a symbol has the type of its last typing. -/
theorem typeOf_run (f : Fqn) (P : List Action) (M : Machine) :
    (run context P M).walk.symbols.typeOf f =
      lastType (typings context f P M) (M.walk.symbols.typeOf f) := by
  induction P generalizing M with
  | nil => rfl
  | cons a rest ih =>
    rw [run_cons, ih, typings, lastType_append, step, typeOf_perform]
    congr 1
    cases typing? (M.walk.scopes.resolve a.site) a.op M with
    | none => rfl
    | some t => by_cases h : f = t.1 <;> simp [h, lastType]

/-- Behind a run the last definition of a class is that of a class. -/
theorem definedAsClass_run {f : Fqn} {P : List Action} {M : Machine}
    {ts : List (Op × BindingType)}
    (hM : M.walk.symbols.kindOf? f = some .class → DefinedAsClass f ts)
    (h : (run context P M).walk.symbols.kindOf? f = some .class) :
    DefinedAsClass f (ts ++ typings context f P M) := by
  -- The induction is on the run, for whatever was given before it.
  induction P generalizing M ts with
  | nil => simpa using hM h
  | cons a rest ih =>
    rw [typings, ← List.append_assoc]
    refine ih (fun hstep => ?_) h
    rcases kindOf?_perform_class context hstep with ⟨header, hop, htyping⟩ | ⟨hold, hkeeps⟩
    · rw [htyping, hop]
      exact ⟨ts, header, [], by simp, nofun⟩
    · refine (hM hold).append fun t ht => ?_
      rcases htyping : typing? (M.walk.scopes.resolve a.site) a.op M with _ | ⟨g, type⟩
      · simp [htyping] at ht
      · by_cases hg : f = g
        · subst hg
          obtain rfl : t = (a.op, type) := by simpa [htyping] using ht
          exact hkeeps.resolve_right fun hnone => hnone type htyping
        · simp [htyping, hg] at ht

end Machine

/-! ### Walks over a module -/

namespace Walk

variable (context : ImportContext) (m : Module)

/-- The typings of a symbol in some walks over a module. -/
def typings (f : Fqn) : Nat → List (Op × BindingType)
  | 0 => []
  | k + 1 => typings f k ++ Machine.typings context f m.program (.ofWalk (walks context m k))

/-- After some walks a symbol has the type of its last typing. -/
theorem typeOf_walks (f : Fqn) (k : Nat) :
    (walks context m k).symbols.typeOf f =
      lastType (typings context m f k) ((walks context m 0).symbols.typeOf f) := by
  induction k with
  | zero => rfl
  | succ k ih =>
    have hrun := Machine.typeOf_run context f m.program (.ofWalk (walks context m k))
    rw [run_program] at hrun
    rw [typings, lastType_append, ← ih]
    exact hrun

/-- After some walks the last definition of a class is that of a class. -/
theorem definedAsClass_walks {f : Fqn} {k : Nat}
    (h : (walks context m k).symbols.kindOf? f = some .class) :
    DefinedAsClass f (typings context m f k) := by
  induction k with
  | zero =>
    rw [show (walks context m 0).symbols.kindOf? f = _ from SymbolTable.kindOf?_declare _ _ f] at h
    split at h <;> simp [SymbolTable.kindOf?, SymbolTable.get?, SymbolTable.empty,
      SymbolKind.isDefinition, Table.get?_empty] at h
  | succ k ih =>
    refine Machine.definedAsClass_run context (M := .ofWalk (walks context m k)) ih ?_
    rw [run_program]
    exact h

end Walk

end NameAtlas.Python
