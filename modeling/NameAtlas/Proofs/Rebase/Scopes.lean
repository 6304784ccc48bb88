import NameAtlas.Proofs.Rebase.Facts
import NameAtlas.Proofs.ScopeTree.Frames
import NameAtlas.Proofs.Walk.Machine

/-!
# Scope trees under other names

A scope tree with other names (`ScopeTree.mapNames`) has the same frames around one another, and in
each frame the same names of the source; only the symbols that these stand for, and the owners, are
called differently. So every question about a place has the same answer, up to the change of names,
and every operation can be done before or after it. Only two answers do not come from the tree, and
are those of a `Rebasing`: the owner of a frame that is not there, and what the built-ins stand for.
-/

namespace NameAtlas.Python

section

variable (g : Fqn → Fqn)

/-- The target with another name. -/
def NameTarget.mapNames : NameTarget → NameTarget
  | .declared f => .declared (g f)
  | .imported f => .imported (g f)
  | .builtin f => .builtin (g f)

/-- The name of a renamed target is the renamed one. -/
@[simp] theorem NameTarget.fqn_mapNames (t : NameTarget) : (t.mapNames g).fqn = g t.fqn := by
  cases t <;> rfl

/-- The name of a renamed target, if there is one, is the renamed one. -/
theorem NameTarget.map_fqn_mapNames (t : Option NameTarget) :
    (t.map (NameTarget.mapNames g)).map NameTarget.fqn = (t.map NameTarget.fqn).map g := by
  cases t <;> simp

/-- What is known about a function, with other names for it and its class. -/
def FunctionInfo.mapNames (info : FunctionInfo) : FunctionInfo :=
  ⟨g info.symbol, info.owner.map g, info.annotated⟩

/-- The frame with other names for its owner, its function and what its names stand for. -/
def Frame.mapNames (f : Frame) : Frame :=
  { f with
    owner := g f.owner
    function := f.function.map (FunctionInfo.mapNames g)
    bindings := f.bindings.mapValues (NameTarget.mapNames g) }

/-- The tree with other names for symbols. -/
def ScopeTree.mapNames (t : ScopeTree) : ScopeTree :=
  ⟨t.frames.map (Frame.mapNames g), t.byNode⟩

end

namespace ScopeTree

variable (g : Fqn → Fqn) (t : ScopeTree)

/-- Renaming leaves the frames of the nodes. -/
@[simp] theorem byNode_mapNames : (t.mapNames g).byNode = t.byNode := rfl

/-- Renaming opens no frame. -/
@[simp] theorem size_mapNames : (t.mapNames g).size = t.size := Array.size_map

/-- The frames of a renamed tree are the renamed frames. -/
@[simp] theorem frame?_mapNames (i : Nat) :
    (t.mapNames g).frame? i = (t.frame? i).map (Frame.mapNames g) := Array.getElem?_map

/-- A site is found in the same frame. -/
@[simp] theorem resolve_mapNames (s : Site) : (t.mapNames g).resolve s = t.resolve s := by
  cases s <;> rfl

/-- The scopes of a renamed tree are the renamed scopes. -/
theorem scopes_mapNames : (t.mapNames g).scopes = t.scopes.map (LocalScope.mapNames g) := by
  unfold scopes mapNames
  rw [Array.toList_map, List.map_map, List.map_map]
  rfl

/-! ### Questions -/

/-- Renaming leaves the kinds. -/
@[simp] theorem kindOf_mapNames (i : Nat) : (t.mapNames g).kindOf i = t.kindOf i := by
  rw [kindOf, kindOf, frame?_mapNames, Option.map_map]
  rfl

/-- Renaming leaves functions functions. -/
@[simp] theorem isFunction_mapNames (i : Nat) : (t.mapNames g).isFunction i = t.isFunction i := by
  rw [isFunction, isFunction, kindOf_mapNames]

/-- Renaming leaves the parents. -/
theorem parentOf?_mapNames (i : Nat) : (t.mapNames g).parentOf? i = t.parentOf? i := by
  rw [parentOf?, parentOf?, frame?_mapNames]
  cases t.frame? i <;> rfl

/-- Renaming leaves the chains. -/
@[simp] theorem chain_mapNames (i : Nat) : (t.mapNames g).chain i = t.chain i :=
  chain_congr (parentOf?_mapNames g t) i

/-- Renaming leaves what is seen. -/
@[simp] theorem sees_mapNames (start i : Nat) : (t.mapNames g).sees start i = t.sees start i := by
  rw [sees, sees, kindOf_mapNames]

/-- A renamed frame binds the same names to the renamed targets. -/
theorem binding?_mapNames (i : Nat) (name : String) :
    (t.mapNames g).binding? i name = (t.binding? i name).map (NameTarget.mapNames g) := by
  rw [binding?, binding?, frame?_mapNames]
  cases t.frame? i with
  | none => rfl
  | some f => exact Table.get?_mapValues f.bindings _ name

/-- What is known about a function is renamed. -/
theorem function?_mapNames (i : Nat) :
    (t.mapNames g).function? i = (t.function? i).map (FunctionInfo.mapNames g) := by
  rw [function?, function?, frame?_mapNames]
  cases t.frame? i <;> rfl

/-- A renamed frame declares the same names `global`. -/
theorem declaresGlobal_mapNames (i : Nat) (name : String) :
    (t.mapNames g).declaresGlobal i name = t.declaresGlobal i name := by
  rw [declaresGlobal, declaresGlobal, frame?_mapNames]
  cases t.frame? i <;> rfl

/-- A renamed frame declares the same names `nonlocal`. -/
theorem declaresNonlocal_mapNames (i : Nat) (name : String) :
    (t.mapNames g).declaresNonlocal i name = t.declaresNonlocal i name := by
  rw [declaresNonlocal, declaresNonlocal, frame?_mapNames]
  cases t.frame? i <;> rfl

/-- Renaming leaves the functions around a frame. -/
@[simp] theorem outerFunctions_mapNames (i : Nat) :
    (t.mapNames g).outerFunctions i = t.outerFunctions i := by
  have hfunction : (t.mapNames g).isFunction = t.isFunction := funext (isFunction_mapNames g t)
  rw [outerFunctions, outerFunctions, chain_mapNames, hfunction]

/-- Where a binding goes depends on the names of the source alone. -/
@[simp] theorem bindingScope_mapNames (i : Nat) (name : String) :
    (t.mapNames g).bindingScope i name = t.bindingScope i name := by
  have hbound (j : Nat) :
      ((t.mapNames g).binding? j name).isSome = (t.binding? j name).isSome := by
    rw [binding?_mapNames, Option.isSome_map]
  simp only [bindingScope, declaresGlobal_mapNames, declaresNonlocal_mapNames,
    outerFunctions_mapNames, hbound]

/-- Renaming leaves the function around a frame. -/
@[simp] theorem enclosingFunction?_mapNames (i : Nat) :
    (t.mapNames g).enclosingFunction? i = t.enclosingFunction? i := by
  have hfunction : (t.mapNames g).isFunction = t.isFunction := funext (isFunction_mapNames g t)
  rw [enclosingFunction?, enclosingFunction?, chain_mapNames, hfunction]

/-! ### Operations -/

/-- A change of one frame that can be made under other names can be made to the tree under them. -/
theorem modify_mapNames (i : Nat) {h h' : Frame → Frame}
    (hframe : ∀ f : Frame, (h f).mapNames g = h' (f.mapNames g)) :
    (t.mapNames g).modify i h' = (t.modify i h).mapNames g :=
  congrArg (ScopeTree.mk · t.byNode) (t.map_frames_modify i hframe).symm

/-- Binding a renamed target commutes with renaming. -/
theorem bind_mapNames (i : Nat) (name : String) (target : NameTarget) :
    (t.mapNames g).bind i name (target.mapNames g) = (t.bind i name target).mapNames g :=
  modify_mapNames g t i fun f => by
    simp only [Frame.mapNames, Frame.bind, Table.mapValues_insert]

/-- A `global` declaration commutes with renaming. -/
theorem declareGlobal_mapNames (i : Nat) (name : String) :
    (t.mapNames g).declareGlobal i name = (t.declareGlobal i name).mapNames g :=
  modify_mapNames g t i fun _ => rfl

/-- A `nonlocal` declaration commutes with renaming. -/
theorem declareNonlocal_mapNames (i : Nat) (name : String) :
    (t.mapNames g).declareNonlocal i name = (t.declareNonlocal i name).mapNames g :=
  modify_mapNames g t i fun _ => rfl

/-- Recording a renamed function commutes with renaming. -/
theorem setFunction_mapNames (i : Nat) (info : FunctionInfo) :
    (t.mapNames g).setFunction i (info.mapNames g) = (t.setFunction i info).mapNames g :=
  modify_mapNames g t i fun _ => rfl

/-- Opening a frame for a renamed owner commutes with renaming and gives the same position. -/
theorem openFrame_mapNames (node : Nat) (kind : ScopeKind) (owner : Fqn) (parent : Nat)
    (span : Span) :
    (t.mapNames g).openFrame node kind (g owner) parent span =
      ((t.openFrame node kind owner parent span).1,
        (t.openFrame node kind owner parent span).2.mapNames g) := by
  simp only [openFrame, byNode_mapNames, size_mapNames]
  cases t.byNode.get? node with
  | some i => rfl
  | none =>
    simp only [mapNames, Array.map_push]
    rfl

/-- The tree of the renamed module is the renamed tree. -/
theorem ofModule_mapNames (module : Fqn) (span : Span) :
    ofModule (g module) span = (ofModule module span).mapNames g := by
  rw [mapNames, ofModule, ofModule, List.map_toArray]
  rfl

/-! ### Answers that do not come from the tree -/

variable {old new : Fqn} (ρ : Rebasing old new)

/-- The owner of a frame is renamed. -/
theorem ownerOf_mapNames (i : Nat) : (t.mapNames ρ).ownerOf i = ρ (t.ownerOf i) := by
  rw [ownerOf, ownerOf, frame?_mapNames]
  cases t.frame? i with
  | none => exact ρ.map_empty.symm
  | some f => rfl

/-- A name is read as the renamed target, as built-in names keep theirs. -/
theorem lookup_mapNames (start : Nat) (name : String) :
    (t.mapNames ρ).lookup start name = (t.lookup start name).map (NameTarget.mapNames ρ) := by
  have hread : (fun i => if (t.mapNames ρ).sees start i then (t.mapNames ρ).binding? i name
        else none) =
      Option.map (NameTarget.mapNames ρ) ∘
        fun i => if t.sees start i then t.binding? i name else none := by
    funext i
    rw [Function.comp_apply, sees_mapNames, binding?_mapNames]
    split <;> rfl
  rw [lookup, lookup, chain_mapNames, hread, ← List.map_findSome?]
  -- A frame of the chain binds the name, or else it may be built in.
  cases (t.chain start).findSome? fun i => if t.sees start i then t.binding? i name else none with
  | some target => rfl
  | none =>
    show (if isBuiltin name then some (NameTarget.builtin (.builtin name)) else none) =
      (if isBuiltin name then some (NameTarget.builtin (.builtin name)) else none).map
        (NameTarget.mapNames ρ)
    split
    · rw [Option.map_some, NameTarget.mapNames, ρ.map_builtin]
    · rfl

end ScopeTree

end NameAtlas.Python
