import NameAtlas.Proofs.ScopeTree.Frames
import NameAtlas.Python.Queue

/-!
# What the operations of a walk leave alone

The parts of the state that an operation of a walk does not change, for the operations whose
definitions branch. The others are plain updates, of which the same is true by definition.
-/

namespace NameAtlas.Python.Walk

/-! ### Assignments to members -/

/-- The owner of a member is a class with its scope. -/
theorem classScopes_of_ownerOf? {w : Walk} {object : Evaluated} {c : Fqn} {i : Nat}
    (h : w.ownerOf? object = some (c, i)) : w.classScopes.get? c = some i := by
  obtain ⟨c', -, h⟩ := Option.bind_eq_some_iff.1 h
  obtain ⟨i', hi, h⟩ := Option.bind_eq_some_iff.1 h
  obtain ⟨rfl, rfl⟩ := Prod.mk.inj (Option.some.inj h)
  exact hi

/-- Assigning to a member leaves the scopes. -/
@[simp] theorem scopes_assignMember (w : Walk) (scope : Nat) (object : Evaluated) (word : Word)
    (type : Option BindingType) : (w.assignMember scope object word type).scopes = w.scopes := by
  rw [assignMember]
  split <;> rfl

/-- Assigning to a member leaves the scopes of classes. -/
@[simp] theorem classScopes_assignMember (w : Walk) (scope : Nat) (object : Evaluated) (word : Word)
    (type : Option BindingType) :
    (w.assignMember scope object word type).classScopes = w.classScopes := by
  rw [assignMember]
  split <;> rfl

/-! ### Returns and ends of bodies -/

/-- Noting a return leaves the scopes. -/
@[simp] theorem scopes_noteReturn (w : Walk) (scope : Nat) (type : BindingType) :
    (w.noteReturn scope type).scopes = w.scopes := by
  rw [noteReturn]
  split <;> rfl

/-- Noting a return leaves the symbols. -/
@[simp] theorem symbols_noteReturn (w : Walk) (scope : Nat) (type : BindingType) :
    (w.noteReturn scope type).symbols = w.symbols := by
  rw [noteReturn]
  split <;> rfl

/-- Noting a return leaves the scopes of classes. -/
@[simp] theorem classScopes_noteReturn (w : Walk) (scope : Nat) (type : BindingType) :
    (w.noteReturn scope type).classScopes = w.classScopes := by
  rw [noteReturn]
  split <;> rfl

/-- Noting a return leaves the references. -/
@[simp] theorem references_noteReturn (w : Walk) (scope : Nat) (type : BindingType) :
    (w.noteReturn scope type).references = w.references := by
  rw [noteReturn]
  split <;> rfl

/-- Noting a return leaves the findings. -/
@[simp] theorem findings_noteReturn (w : Walk) (scope : Nat) (type : BindingType) :
    (w.noteReturn scope type).findings = w.findings := by
  rw [noteReturn]
  split <;> rfl

/-- Ending a body leaves the scopes. -/
@[simp] theorem scopes_endBody (w : Walk) (scope : Nat) : (w.endBody scope).scopes = w.scopes := by
  rw [endBody]
  split
  · split <;> rfl
  · rfl

/-- Ending a body leaves the scopes of classes. -/
@[simp] theorem classScopes_endBody (w : Walk) (scope : Nat) :
    (w.endBody scope).classScopes = w.classScopes := by
  rw [endBody]
  split
  · split <;> rfl
  · rfl

/-- Ending a body leaves the references. -/
@[simp] theorem references_endBody (w : Walk) (scope : Nat) :
    (w.endBody scope).references = w.references := by
  rw [endBody]
  split
  · split <;> rfl
  · rfl

/-- Ending a body leaves the findings. -/
@[simp] theorem findings_endBody (w : Walk) (scope : Nat) :
    (w.endBody scope).findings = w.findings := by
  rw [endBody]
  split
  · split <;> rfl
  · rfl

/-! ### The queue -/

/-- Only the queue changes when a function is queued. -/
theorem enqueue_eq (w : Walk) (f : FunctionBody) (scope : Nat) :
    w.enqueue f scope = { w with queue := (w.enqueue f scope).queue } := by
  rw [enqueue]
  split <;> rfl

/-- Queueing a function leaves the scopes. -/
@[simp] theorem scopes_enqueue (w : Walk) (f : FunctionBody) (scope : Nat) :
    (w.enqueue f scope).scopes = w.scopes := by
  rw [enqueue_eq]

/-- Queueing a function leaves the symbols. -/
@[simp] theorem symbols_enqueue (w : Walk) (f : FunctionBody) (scope : Nat) :
    (w.enqueue f scope).symbols = w.symbols := by
  rw [enqueue_eq]

/-- Queueing a function leaves the scopes of classes. -/
@[simp] theorem classScopes_enqueue (w : Walk) (f : FunctionBody) (scope : Nat) :
    (w.enqueue f scope).classScopes = w.classScopes := by
  rw [enqueue_eq]

/-- Queueing a function leaves what bodies returned. -/
@[simp] theorem returned_enqueue (w : Walk) (f : FunctionBody) (scope : Nat) :
    (w.enqueue f scope).returned = w.returned := by
  rw [enqueue_eq]

/-- Queueing a function leaves the references. -/
@[simp] theorem references_enqueue (w : Walk) (f : FunctionBody) (scope : Nat) :
    (w.enqueue f scope).references = w.references := by
  rw [enqueue_eq]

/-- Queueing a function leaves the findings. -/
@[simp] theorem findings_enqueue (w : Walk) (f : FunctionBody) (scope : Nat) :
    (w.enqueue f scope).findings = w.findings := by
  rw [enqueue_eq]

/-! ### Functions -/

/-- What is recorded about a function when it is defined. -/
def definedInfo (w : Walk) (scope : Nat) (h : FunctionHeader) (place : Nat × Fqn)
    (annotated : Option BindingType) : FunctionInfo :=
  ⟨place.2, (w.openFunction scope h place annotated).2.methodOwner? scope, annotated.isSome⟩

/-- Entering a function opens its scope and writes down what is known about it. -/
@[simp] theorem scopes_enterFunction (w : Walk) (scope : Nat) (f : FunctionBody)
    (place : Nat × Fqn) (annotated : Option BindingType) :
    (w.enterFunction scope f place annotated).2.scopes =
      (w.openFunction scope f.header place annotated).2.scopes.setFunction
        (w.openFunction scope f.header place annotated).1
        (w.definedInfo scope f.header place annotated) :=
  scopes_enqueue _ _ _

/-- Entering a function declares its symbol, with the type that is annotated or the old one. -/
@[simp] theorem symbols_enterFunction (w : Walk) (scope : Nat) (f : FunctionBody)
    (place : Nat × Fqn) (annotated : Option BindingType) :
    (w.enterFunction scope f place annotated).2.symbols =
      w.symbols.declare ⟨place.2, .function, annotated.getD (w.symbols.typeOf place.2), place.1,
        f.header.word.location⟩ :=
  symbols_enqueue _ _ _

/-- Entering a function leaves the scopes of classes. -/
@[simp] theorem classScopes_enterFunction (w : Walk) (scope : Nat) (f : FunctionBody)
    (place : Nat × Fqn) (annotated : Option BindingType) :
    (w.enterFunction scope f place annotated).2.classScopes = w.classScopes :=
  classScopes_enqueue _ _ _

/-- The node of a function that was entered has the scope that was opened. -/
theorem byNode_enterFunction (w : Walk) (scope : Nat) (f : FunctionBody) (place : Nat × Fqn)
    (annotated : Option BindingType) :
    (w.enterFunction scope f place annotated).2.scopes.byNode.get? f.header.node =
      some (w.enterFunction scope f place annotated).1 := by
  rw [scopes_enterFunction]
  exact ScopeTree.byNode_openFrame _ _ _ _ _ _

/-- Entering a function binds its name and no other. -/
theorem binding?_enterFunction (w : Walk) (scope : Nat) (f : FunctionBody) (place : Nat × Fqn)
    (annotated : Option BindingType) (i : Nat) (name : String) :
    (w.enterFunction scope f place annotated).2.scopes.binding? i name =
      (w.scopes.bind place.1 f.header.word.text (.declared place.2)).binding? i name := by
  rw [scopes_enterFunction, ScopeTree.binding?_setFunction]
  exact ScopeTree.binding?_openFrame _ _ _ _ _ _ _ _

/-- Defining a function records what is known about it in the scope of its body. -/
theorem function?_enterFunction (w : Walk) (scope : Nat) (f : FunctionBody) (place : Nat × Fqn)
    (annotated : Option BindingType) (i : Nat) :
    (w.enterFunction scope f place annotated).2.scopes.function? i =
      if (w.enterFunction scope f place annotated).1 = i ∧
          i < (w.enterFunction scope f place annotated).2.scopes.size then
        some (w.definedInfo scope f.header place annotated)
      else w.scopes.function? i := by
  -- Opening a scope writes down nothing about functions.
  have hopen : (w.openFunction scope f.header place annotated).2.scopes.function? i =
      w.scopes.function? i :=
    (ScopeTree.function?_openFrame _ _ _ _ _ _ _).trans (ScopeTree.function?_bind _ _ _ _ _)
  have hinner : (w.enterFunction scope f place annotated).1 =
      (w.openFunction scope f.header place annotated).1 := rfl
  rw [scopes_enterFunction, ScopeTree.function?_setFunction, hopen, hinner, ScopeTree.setFunction,
    ScopeTree.size_modify]
  refine ite_congr (propext ?_) (fun _ => rfl) fun _ => rfl
  exact and_congr_right fun h => by rw [h]

/-- The class around a function is the one that is recorded. -/
theorem methodOwner?_enterFunction (w : Walk) (scope : Nat) (f : FunctionBody) (place : Nat × Fqn)
    (annotated : Option BindingType) :
    (w.enterFunction scope f place annotated).2.methodOwner? scope =
      (w.definedInfo scope f.header place annotated).owner := by
  simp only [definedInfo, methodOwner?, scopes_enterFunction, ScopeTree.ownerOf_setFunction,
    ScopeTree.kindOf_eq, ScopeTree.scope?_setFunction]

end NameAtlas.Python.Walk
