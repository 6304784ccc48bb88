import NameAtlas.Proofs.ScopeTree.Frames

/-!
# Scope trees without the meanings of names

`ScopeTree.erase` takes out of a tree what its names stand for and what is known about its
functions, and leaves the scopes, the names that are bound and the names that are declared `global`
or `nonlocal`. Where a binding goes depends only on what is left (`bindingScope_erase`), and every
operation can be done before or after the erasure.
-/

namespace NameAtlas.Python

/-- The frame with its names, without what they stand for. -/
def Frame.erase (f : Frame) : Frame :=
  { f with function := none, bindings := f.bindings.mapValues fun _ => .builtin .empty }

namespace ScopeTree

/-- The tree with its names, without what they stand for. -/
def erase (t : ScopeTree) : ScopeTree := { t with frames := t.frames.map Frame.erase }

/-- Erasing targets leaves the frames of the nodes. -/
@[simp] theorem byNode_erase (t : ScopeTree) : t.erase.byNode = t.byNode := rfl

/-- The frames of an erased tree are the erased frames. -/
@[simp] theorem frame?_erase (t : ScopeTree) (i : Nat) :
    t.erase.frame? i = (t.frame? i).map Frame.erase := by
  simp [erase, frame?]

/-- Erasing targets leaves each scope. -/
@[simp] theorem scope?_erase (t : ScopeTree) (i : Nat) : t.erase.scope? i = t.scope? i := by
  rw [scope?, scope?, frame?_erase, Option.map_map]
  rfl

/-- Erasing targets leaves the list of scopes. -/
@[simp] theorem scopes_erase (t : ScopeTree) : t.erase.scopes = t.scopes := by
  apply List.ext_getElem?
  intro i
  rw [getElem?_scopes, getElem?_scopes, scope?_erase]

/-! ### Questions -/

/-- Erasing targets leaves the owners. -/
theorem ownerOf_erase (t : ScopeTree) (i : Nat) : t.erase.ownerOf i = t.ownerOf i := by
  rw [ownerOf_eq, ownerOf_eq, scope?_erase]

/-- Erasing targets leaves the kinds. -/
theorem kindOf_erase (t : ScopeTree) (i : Nat) : t.erase.kindOf i = t.kindOf i := by
  rw [kindOf_eq, kindOf_eq, scope?_erase]

/-- An erased frame binds the same names. -/
theorem isSome_binding?_erase (t : ScopeTree) (i : Nat) (name : String) :
    (t.erase.binding? i name).isSome = (t.binding? i name).isSome := by
  rw [binding?, binding?, frame?_erase]
  cases t.frame? i with
  | none => rfl
  | some f => simp [Frame.erase, Table.get?_mapValues]

/-- An erased frame declares the same names `global`. -/
theorem declaresGlobal_erase (t : ScopeTree) (i : Nat) (name : String) :
    t.erase.declaresGlobal i name = t.declaresGlobal i name := by
  rw [declaresGlobal, declaresGlobal, frame?_erase]
  cases t.frame? i <;> rfl

/-- An erased frame declares the same names `nonlocal`. -/
theorem declaresNonlocal_erase (t : ScopeTree) (i : Nat) (name : String) :
    t.erase.declaresNonlocal i name = t.declaresNonlocal i name := by
  rw [declaresNonlocal, declaresNonlocal, frame?_erase]
  cases t.frame? i <;> rfl

/-- Where a binding goes does not depend on what the names stand for. -/
theorem bindingScope_erase (t : ScopeTree) (i : Nat) (name : String) :
    t.erase.bindingScope i name = t.bindingScope i name := by
  have hchain : t.erase.chain i = t.chain i :=
    chain_congr (fun j => by rw [parentOf?_eq, parentOf?_eq, scope?_erase]) i
  have hfunction : t.erase.isFunction = t.isFunction := by
    funext j
    rw [isFunction, isFunction, kindOf_erase]
  simp only [bindingScope, declaresGlobal_erase, declaresNonlocal_erase, outerFunctions, hchain,
    hfunction, isSome_binding?_erase]

/-! ### Operations -/

/-- Erasing commutes with a change of a frame if it does so on every frame. -/
theorem erase_modify (t : ScopeTree) (i : Nat) {g g' : Frame → Frame}
    (h : ∀ f, (g f).erase = g' f.erase) : (t.modify i g).erase = t.erase.modify i g' :=
  congrArg (ScopeTree.mk · t.byNode) (t.map_frames_modify i h)

/-- A binding stays behind an erasure, without its target. -/
theorem erase_bind (t : ScopeTree) (i : Nat) (name : String) (target : NameTarget) :
    (t.bind i name target).erase = t.erase.bind i name (.builtin .empty) :=
  erase_modify t i fun f => by
    simp only [Frame.erase, Frame.bind, Table.mapValues_insert]

/-- A `global` declaration commutes with erasing. -/
theorem erase_declareGlobal (t : ScopeTree) (i : Nat) (name : String) :
    (t.declareGlobal i name).erase = t.erase.declareGlobal i name :=
  erase_modify t i fun _ => rfl

/-- A `nonlocal` declaration commutes with erasing. -/
theorem erase_declareNonlocal (t : ScopeTree) (i : Nat) (name : String) :
    (t.declareNonlocal i name).erase = t.erase.declareNonlocal i name :=
  erase_modify t i fun _ => rfl

/-- What is known about a function is erased. -/
theorem erase_setFunction (t : ScopeTree) (i : Nat) (info : FunctionInfo) :
    (t.setFunction i info).erase = t.erase := by
  simp only [erase, setFunction, modify, ScopeTree.mk.injEq, and_true]
  apply Array.ext_getElem?
  intro j
  simp only [Array.getElem?_map, Array.getElem?_modify]
  split
  · cases t.frames[j]? <;> rfl
  · rfl

/-- Opening a frame commutes with erasing and gives the same position. -/
theorem erase_openFrame (t : ScopeTree) (node : Nat) (kind : ScopeKind) (owner : Fqn)
    (parent : Nat) (span : Span) :
    t.erase.openFrame node kind owner parent span =
      ((t.openFrame node kind owner parent span).1,
        (t.openFrame node kind owner parent span).2.erase) := by
  have hsize : t.erase.size = t.size := by simp [erase, size]
  simp only [openFrame, byNode_erase, hsize]
  cases t.byNode.get? node with
  | some i => rfl
  | none =>
    simp only [erase, Array.map_push]
    rfl

end ScopeTree

end NameAtlas.Python
