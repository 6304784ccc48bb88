import NameAtlas.Python.ScopeTree

/-!
# What the operations on a scope tree change

A scope tree is asked about five things: the scope at a position, the frame of a node, the names
bound in a frame, the names declared `global` or `nonlocal` in it, and the function that it belongs
to. For each operation one lemma says what becomes of each of the five. Binding and declaring leave the scopes as they are, so they
keep the chain of frames around a place (`chain_congr`); opening adds a scope at the end.

`Rooted` is the shape that every tree has: the module stands first and has no parent, and every
other frame stands behind its own. In a rooted tree every chain ends in the module
(`moduleScope_mem_chain`).
-/

namespace NameAtlas.Python.ScopeTree

/-- The scope at a position, without its names. -/
def scope? (t : ScopeTree) (i : Nat) : Option LocalScope := (t.frame? i).map Frame.scope

/-- The kind of a frame is that of its scope. -/
theorem kindOf_eq (t : ScopeTree) (i : Nat) :
    t.kindOf i = ((t.scope? i).map LocalScope.kind).getD .module := by
  rw [kindOf, scope?]
  cases t.frame? i <;> rfl

/-- The owner of a frame is that of its scope. -/
theorem ownerOf_eq (t : ScopeTree) (i : Nat) :
    t.ownerOf i = ((t.scope? i).map LocalScope.owner).getD .empty := by
  rw [ownerOf, scope?]
  cases t.frame? i <;> rfl

/-- The parent of a frame is that of its scope. -/
theorem parentOf?_eq (t : ScopeTree) (i : Nat) :
    t.parentOf? i = (t.scope? i).bind LocalScope.parent := by
  rw [parentOf?, scope?]
  cases t.frame? i <;> rfl

/-- What is known about the function of the frame at a position. -/
def function? (t : ScopeTree) (i : Nat) : Option FunctionInfo := (t.frame? i).bind Frame.function

/-- The positions that hold a frame are those below the size. -/
theorem isSome_frame?_iff (t : ScopeTree) (i : Nat) : (t.frame? i).isSome ↔ i < t.size := by
  simp [frame?, size]

/-- The positions that hold a scope are those below the size. -/
theorem isSome_scope?_iff (t : ScopeTree) (i : Nat) : (t.scope? i).isSome ↔ i < t.size := by
  simp [scope?, frame?, size]

/-- The list of scopes has the scope of each frame at its position. -/
theorem getElem?_scopes (t : ScopeTree) (i : Nat) : t.scopes[i]? = t.scope? i := by
  simp [scopes, scope?, frame?]

/-- There are as many scopes as frames. -/
theorem length_scopes (t : ScopeTree) : t.scopes.length = t.size := by
  simp [scopes, size]

/-- In the tree of a module there is one frame, the module's. -/
theorem frame?_ofModule (module : Fqn) (span : Span) (i : Nat) :
    (ofModule module span).frame? i =
      if i = moduleScope then some (.ofScope .module module none span) else none := by
  rcases Nat.eq_zero_or_pos i with rfl | h0
  · rfl
  · have hne : i ≠ moduleScope := Nat.ne_of_gt h0
    rw [if_neg hne]
    simp [frame?, ofModule]
    omega

/-- In a module in which nothing is open no function is known. -/
theorem function?_ofModule (module : Fqn) (span : Span) (i : Nat) :
    (ofModule module span).function? i = none := by
  rw [function?, frame?_ofModule]
  split <;> rfl

/-! ### Changing one frame -/

/-- A change concerns the frame at its position only. -/
theorem frame?_modify (t : ScopeTree) (i j : Nat) (g : Frame → Frame) :
    (t.modify i g).frame? j = if i = j then (t.frame? j).map g else t.frame? j := by
  simp only [modify, frame?, Array.getElem?_modify]

/-- A change of a frame opens none. -/
@[simp] theorem size_modify (t : ScopeTree) (i : Nat) (g : Frame → Frame) :
    (t.modify i g).size = t.size := by
  simp [modify, size]

/-- What is done to all frames can be done before or after a change of one of them. -/
theorem map_frames_modify (t : ScopeTree) (i : Nat) {e g g' : Frame → Frame}
    (h : ∀ f, e (g f) = g' (e f)) : (t.modify i g).frames.map e = (t.frames.map e).modify i g' := by
  apply Array.ext_getElem?
  intro j
  simp only [modify, Array.getElem?_map, Array.getElem?_modify]
  split
  · cases t.frames[j]? <;> simp [h]
  · rfl

/-- A change that keeps the scope of every frame keeps the scopes. -/
theorem scope?_modify (t : ScopeTree) (i j : Nat) {g : Frame → Frame}
    (hg : ∀ f, (g f).scope = f.scope) : (t.modify i g).scope? j = t.scope? j := by
  rw [scope?, scope?, frame?_modify]
  split
  · cases t.frame? j <;> simp [hg]
  · rfl

/-- A change that keeps the scope of every frame keeps the list of scopes. -/
theorem scopes_modify (t : ScopeTree) (i : Nat) {g : Frame → Frame}
    (hg : ∀ f, (g f).scope = f.scope) : (t.modify i g).scopes = t.scopes := by
  apply List.ext_getElem?
  intro j
  rw [getElem?_scopes, getElem?_scopes, scope?_modify t i j hg]

/-- A binding keeps each scope. -/
@[simp] theorem scope?_bind (t : ScopeTree) (i j : Nat) (name : String) (target : NameTarget) :
    (t.bind i name target).scope? j = t.scope? j := scope?_modify t i j fun _ => rfl

/-- A `global` declaration keeps each scope. -/
@[simp] theorem scope?_declareGlobal (t : ScopeTree) (i j : Nat) (name : String) :
    (t.declareGlobal i name).scope? j = t.scope? j := scope?_modify t i j fun _ => rfl

/-- A `nonlocal` declaration keeps each scope. -/
@[simp] theorem scope?_declareNonlocal (t : ScopeTree) (i j : Nat) (name : String) :
    (t.declareNonlocal i name).scope? j = t.scope? j := scope?_modify t i j fun _ => rfl

/-- What is known about a function is no part of its scope. -/
@[simp] theorem scope?_setFunction (t : ScopeTree) (i j : Nat) (info : FunctionInfo) :
    (t.setFunction i info).scope? j = t.scope? j := scope?_modify t i j fun _ => rfl

/-- A binding keeps the list of scopes. -/
@[simp] theorem scopes_bind (t : ScopeTree) (i : Nat) (name : String) (target : NameTarget) :
    (t.bind i name target).scopes = t.scopes := scopes_modify t i fun _ => rfl

/-- A `global` declaration keeps the list of scopes. -/
@[simp] theorem scopes_declareGlobal (t : ScopeTree) (i : Nat) (name : String) :
    (t.declareGlobal i name).scopes = t.scopes := scopes_modify t i fun _ => rfl

/-- A `nonlocal` declaration keeps the list of scopes. -/
@[simp] theorem scopes_declareNonlocal (t : ScopeTree) (i : Nat) (name : String) :
    (t.declareNonlocal i name).scopes = t.scopes := scopes_modify t i fun _ => rfl

/-- What is known about a function is no part of the list of scopes. -/
@[simp] theorem scopes_setFunction (t : ScopeTree) (i : Nat) (info : FunctionInfo) :
    (t.setFunction i info).scopes = t.scopes := scopes_modify t i fun _ => rfl

/-- A binding opens no frame. -/
@[simp] theorem size_bind (t : ScopeTree) (i : Nat) (name : String) (target : NameTarget) :
    (t.bind i name target).size = t.size := size_modify t i _

/-- A `global` declaration opens no frame. -/
@[simp] theorem size_declareGlobal (t : ScopeTree) (i : Nat) (name : String) :
    (t.declareGlobal i name).size = t.size := size_modify t i _

/-- A `nonlocal` declaration opens no frame. -/
@[simp] theorem size_declareNonlocal (t : ScopeTree) (i : Nat) (name : String) :
    (t.declareNonlocal i name).size = t.size := size_modify t i _

/-- Binding a name in a frame of the tree changes what that name stands for there, and nothing
else. -/
theorem binding?_bind (t : ScopeTree) (i j : Nat) (name name' : String) (target : NameTarget) :
    (t.bind i name target).binding? j name' =
      if j = i ∧ name' = name ∧ i < t.size then some target else t.binding? j name' := by
  simp only [binding?, bind, frame?_modify, ← isSome_frame?_iff]
  by_cases hij : i = j
  · subst hij
    cases t.frame? i with
    | none => simp
    | some f => simp [Frame.bind, Table.get?_insert]
  · simp [hij, Ne.symm hij]

/-- A `global` declaration binds nothing. -/
@[simp] theorem binding?_declareGlobal (t : ScopeTree) (i j : Nat) (name name' : String) :
    (t.declareGlobal i name).binding? j name' = t.binding? j name' := by
  simp only [binding?, declareGlobal, frame?_modify]
  split <;> cases t.frame? j <;> rfl

/-- A `nonlocal` declaration binds nothing. -/
@[simp] theorem binding?_declareNonlocal (t : ScopeTree) (i j : Nat) (name name' : String) :
    (t.declareNonlocal i name).binding? j name' = t.binding? j name' := by
  simp only [binding?, declareNonlocal, frame?_modify]
  split <;> cases t.frame? j <;> rfl

/-- What is known about a function binds nothing. -/
@[simp] theorem binding?_setFunction (t : ScopeTree) (i j : Nat) (info : FunctionInfo)
    (name : String) : (t.setFunction i info).binding? j name = t.binding? j name := by
  simp only [binding?, setFunction, frame?_modify]
  split <;> cases t.frame? j <;> rfl

/-- A change that keeps the function of every frame keeps the functions. -/
theorem function?_modify (t : ScopeTree) (i j : Nat) {g : Frame → Frame}
    (hg : ∀ f, (g f).function = f.function) : (t.modify i g).function? j = t.function? j := by
  rw [function?, function?, frame?_modify]
  split
  · cases t.frame? j <;> simp [hg]
  · rfl

/-- A binding keeps what is known about functions. -/
@[simp] theorem function?_bind (t : ScopeTree) (i j : Nat) (name : String) (target : NameTarget) :
    (t.bind i name target).function? j = t.function? j := function?_modify t i j fun _ => rfl

/-- A `global` declaration keeps what is known about functions. -/
@[simp] theorem function?_declareGlobal (t : ScopeTree) (i j : Nat) (name : String) :
    (t.declareGlobal i name).function? j = t.function? j := function?_modify t i j fun _ => rfl

/-- A `nonlocal` declaration keeps what is known about functions. -/
@[simp] theorem function?_declareNonlocal (t : ScopeTree) (i j : Nat) (name : String) :
    (t.declareNonlocal i name).function? j = t.function? j := function?_modify t i j fun _ => rfl

/-- What is recorded about a function is found in its frame, if there is one. -/
theorem function?_setFunction (t : ScopeTree) (i j : Nat) (info : FunctionInfo) :
    (t.setFunction i info).function? j =
      if i = j ∧ i < t.size then some info else t.function? j := by
  simp only [function?, setFunction, frame?_modify, ← isSome_frame?_iff]
  by_cases hij : i = j
  · subst hij
    cases t.frame? i with
    | none => simp
    | some f => simp [Frame.setFunction]
  · simp [hij]

/-- A change that keeps a property of every frame keeps it at every position. -/
theorem any_frame?_modify (t : ScopeTree) (i j : Nat) {g : Frame → Frame} {P : Frame → Bool}
    (hg : ∀ f, P (g f) = P f) : ((t.modify i g).frame? j).any P = (t.frame? j).any P := by
  rw [frame?_modify]
  split
  · cases t.frame? j <;> simp [hg]
  · rfl

/-- A binding declares nothing `global`. -/
@[simp] theorem declaresGlobal_bind (t : ScopeTree) (i j : Nat) (name name' : String)
    (target : NameTarget) :
    (t.bind i name target).declaresGlobal j name' = t.declaresGlobal j name' :=
  any_frame?_modify t i j fun _ => rfl

/-- A binding declares nothing `nonlocal`. -/
@[simp] theorem declaresNonlocal_bind (t : ScopeTree) (i j : Nat) (name name' : String)
    (target : NameTarget) :
    (t.bind i name target).declaresNonlocal j name' = t.declaresNonlocal j name' :=
  any_frame?_modify t i j fun _ => rfl

/-- What is known about a function declares nothing `global`. -/
@[simp] theorem declaresGlobal_setFunction (t : ScopeTree) (i j : Nat) (info : FunctionInfo)
    (name : String) : (t.setFunction i info).declaresGlobal j name = t.declaresGlobal j name :=
  any_frame?_modify t i j fun _ => rfl

/-- What is known about a function declares nothing `nonlocal`. -/
@[simp] theorem declaresNonlocal_setFunction (t : ScopeTree) (i j : Nat) (info : FunctionInfo)
    (name : String) : (t.setFunction i info).declaresNonlocal j name = t.declaresNonlocal j name :=
  any_frame?_modify t i j fun _ => rfl

/-- A `nonlocal` declaration declares nothing `global`. -/
@[simp] theorem declaresGlobal_declareNonlocal (t : ScopeTree) (i j : Nat) (name name' : String) :
    (t.declareNonlocal i name).declaresGlobal j name' = t.declaresGlobal j name' :=
  any_frame?_modify t i j fun _ => rfl

/-- A `global` declaration declares nothing `nonlocal`. -/
@[simp] theorem declaresNonlocal_declareGlobal (t : ScopeTree) (i j : Nat) (name name' : String) :
    (t.declareGlobal i name).declaresNonlocal j name' = t.declaresNonlocal j name' :=
  any_frame?_modify t i j fun _ => rfl

/-- A change of one frame of the tree, as far as a property of frames sees it. -/
theorem any_frame?_modify_or (t : ScopeTree) (i j : Nat) {g : Frame → Frame} {P : Frame → Bool}
    {b : Bool} (hg : ∀ f, P (g f) = (b || P f)) :
    ((t.modify i g).frame? j).any P = ((decide (i = j ∧ i < t.size) && b) || (t.frame? j).any P) := by
  rw [frame?_modify]
  -- At the changed position the property is decided by the change, if there is a frame at all.
  by_cases hij : i = j
  · subst hij
    cases hf : t.frame? i with
    | some f =>
      have hi : i < t.size := by
        rw [← isSome_scope?_iff, scope?, hf]
        rfl
      simp [hg, hi]
    | none =>
      have hi : ¬i < t.size := fun h => by
        rw [← isSome_scope?_iff, scope?, hf] at h
        cases h
      simp [hi]
  · simp [hij]

/-- Declaring a name `global` in a frame of the tree declares that name there and no other. -/
theorem declaresGlobal_declareGlobal (t : ScopeTree) (i j : Nat) (name name' : String) :
    (t.declareGlobal i name).declaresGlobal j name' =
      ((decide (i = j ∧ i < t.size) && name' == name) || t.declaresGlobal j name') :=
  any_frame?_modify_or t i j fun _ => List.contains_cons

/-- Declaring a name `nonlocal` in a frame of the tree declares that name there and no other. -/
theorem declaresNonlocal_declareNonlocal (t : ScopeTree) (i j : Nat) (name name' : String) :
    (t.declareNonlocal i name).declaresNonlocal j name' =
      ((decide (i = j ∧ i < t.size) && name' == name) || t.declaresNonlocal j name') :=
  any_frame?_modify_or t i j fun _ => List.contains_cons

/-- A binding keeps the owners. -/
@[simp] theorem ownerOf_bind (t : ScopeTree) (i j : Nat) (name : String) (target : NameTarget) :
    (t.bind i name target).ownerOf j = t.ownerOf j := by
  rw [ownerOf_eq, scope?_bind, ← ownerOf_eq]

/-- What is known about a function keeps the owners. -/
@[simp] theorem ownerOf_setFunction (t : ScopeTree) (i j : Nat) (info : FunctionInfo) :
    (t.setFunction i info).ownerOf j = t.ownerOf j := by
  rw [ownerOf_eq, scope?_setFunction, ← ownerOf_eq]

/-! ### Opening a frame -/

/-- A node that has a frame keeps it. -/
theorem openFrame_eq_of_some {t : ScopeTree} {node i : Nat} (h : t.byNode.get? node = some i)
    (kind : ScopeKind) (owner : Fqn) (parent : Nat) (span : Span) :
    t.openFrame node kind owner parent span = (i, t) := by
  rw [openFrame, h]

/-- A new frame stands behind the others, which stay. -/
theorem frame?_openFrame_of_none {t : ScopeTree} {node : Nat} (h : t.byNode.get? node = none)
    (kind : ScopeKind) (owner : Fqn) (parent : Nat) (span : Span) (j : Nat) :
    (t.openFrame node kind owner parent span).2.frame? j =
      if j = t.size then some (.ofScope kind owner (some parent) span) else t.frame? j := by
  simp only [openFrame, h, frame?, size]
  exact Array.getElem?_push

/-- A new frame makes the tree larger by one. -/
theorem size_openFrame_of_none {t : ScopeTree} {node : Nat} (h : t.byNode.get? node = none)
    (kind : ScopeKind) (owner : Fqn) (parent : Nat) (span : Span) :
    (t.openFrame node kind owner parent span).2.size = t.size + 1 := by
  simp [openFrame, h, size]

/-- A new scope is listed behind the others. -/
theorem scopes_openFrame_of_none {t : ScopeTree} {node : Nat} (h : t.byNode.get? node = none)
    (kind : ScopeKind) (owner : Fqn) (parent : Nat) (span : Span) :
    (t.openFrame node kind owner parent span).2.scopes =
      t.scopes ++ [⟨kind, owner, some parent, span⟩] := by
  simp [openFrame, h, scopes, Frame.scope, Frame.ofScope]

/-- A new scope is found behind the others, which stay. -/
theorem scope?_openFrame_of_none {t : ScopeTree} {node : Nat} (h : t.byNode.get? node = none)
    (kind : ScopeKind) (owner : Fqn) (parent : Nat) (span : Span) (j : Nat) :
    (t.openFrame node kind owner parent span).2.scope? j =
      if j = t.size then some ⟨kind, owner, some parent, span⟩ else t.scope? j := by
  rw [scope?, scope?, frame?_openFrame_of_none h]
  split <;> rfl

/-- Nothing is known about the function of a new frame, and the others stay. -/
theorem function?_openFrame (t : ScopeTree) (node : Nat) (kind : ScopeKind) (owner : Fqn)
    (parent : Nat) (span : Span) (j : Nat) :
    (t.openFrame node kind owner parent span).2.function? j = t.function? j := by
  cases h : t.byNode.get? node with
  | some i => rw [openFrame_eq_of_some h]
  | none =>
    rw [function?, function?, frame?_openFrame_of_none h]
    split
    · rename_i hj
      have hnone : t.frame? j = none := by simp [hj, frame?, size]
      rw [hnone]
      rfl
    · rfl

/-- A new frame binds nothing, so what names are bound to is not changed by opening one. -/
@[simp] theorem binding?_openFrame (t : ScopeTree) (node : Nat) (kind : ScopeKind) (owner : Fqn)
    (parent : Nat) (span : Span) (j : Nat) (name : String) :
    (t.openFrame node kind owner parent span).2.binding? j name = t.binding? j name := by
  cases h : t.byNode.get? node with
  | some i => rw [openFrame_eq_of_some h]
  | none =>
    rw [binding?, binding?, frame?_openFrame_of_none h]
    split
    · rename_i hj
      have hnone : t.frame? j = none := by simp [hj, frame?, size]
      rw [hnone]
      rfl
    · rfl

/-- A new frame declares nothing, so what frames declare is not changed by opening one. -/
theorem any_frame?_openFrame (t : ScopeTree) (node : Nat) (kind : ScopeKind) (owner : Fqn)
    (parent : Nat) (span : Span) (j : Nat) {P : Frame → Bool}
    (hP : P (.ofScope kind owner (some parent) span) = false) :
    ((t.openFrame node kind owner parent span).2.frame? j).any P = (t.frame? j).any P := by
  -- The new frame has nothing of what is asked for, and there was none in its place.
  cases h : t.byNode.get? node with
  | some i => rw [openFrame_eq_of_some h]
  | none =>
    rw [frame?_openFrame_of_none h]
    split
    · rename_i hj
      have hnone : t.frame? j = none := by simp [hj, frame?, size]
      rw [hnone, Option.any_some, hP]
      rfl
    · rfl

/-- A new frame declares nothing `global`. -/
@[simp] theorem declaresGlobal_openFrame (t : ScopeTree) (node : Nat) (kind : ScopeKind)
    (owner : Fqn) (parent : Nat) (span : Span) (j : Nat) (name : String) :
    (t.openFrame node kind owner parent span).2.declaresGlobal j name = t.declaresGlobal j name :=
  any_frame?_openFrame t node kind owner parent span j rfl

/-- A new frame declares nothing `nonlocal`. -/
@[simp] theorem declaresNonlocal_openFrame (t : ScopeTree) (node : Nat) (kind : ScopeKind)
    (owner : Fqn) (parent : Nat) (span : Span) (j : Nat) (name : String) :
    (t.openFrame node kind owner parent span).2.declaresNonlocal j name =
      t.declaresNonlocal j name :=
  any_frame?_openFrame t node kind owner parent span j rfl

/-! ### Trees without `global` and `nonlocal` names -/

/-- True if no frame declares a name `global` or `nonlocal`. -/
structure Undeclared (t : ScopeTree) : Prop where
  /-- No name is declared `global`. -/
  global : ∀ i name, t.declaresGlobal i name = false
  /-- No name is declared `nonlocal`. -/
  nonlocal : ∀ i name, t.declaresNonlocal i name = false

namespace Undeclared

variable {t : ScopeTree}

/-- A name is bound in the scope where it is written. -/
theorem bindingScope_eq (h : t.Undeclared) (i : Nat) (name : String) :
    t.bindingScope i name = i := by
  rw [bindingScope, h.global, h.nonlocal]
  rfl

/-- The tree of a module declares nothing. -/
theorem ofModule (module : Fqn) (span : Span) : (ofModule module span).Undeclared := by
  have hany {P : Frame → Bool} (hP : P (.ofScope .module module none span) = false) (i : Nat) :
      ((ScopeTree.ofModule module span).frame? i).any P = false := by
    rw [frame?_ofModule]
    split
    · exact hP
    · rfl
  exact ⟨fun i _ => hany rfl i, fun i _ => hany rfl i⟩

/-- A binding declares nothing. -/
theorem bind (h : t.Undeclared) (i : Nat) (name : String) (target : NameTarget) :
    (t.bind i name target).Undeclared :=
  ⟨fun j n => by rw [declaresGlobal_bind, h.global],
    fun j n => by rw [declaresNonlocal_bind, h.nonlocal]⟩

/-- What is known about a function declares nothing. -/
theorem setFunction (h : t.Undeclared) (i : Nat) (info : FunctionInfo) :
    (t.setFunction i info).Undeclared :=
  ⟨fun j n => by rw [declaresGlobal_setFunction, h.global],
    fun j n => by rw [declaresNonlocal_setFunction, h.nonlocal]⟩

/-- A new frame declares nothing. -/
theorem openFrame (h : t.Undeclared) (node : Nat) (kind : ScopeKind) (owner : Fqn) (parent : Nat)
    (span : Span) : (t.openFrame node kind owner parent span).2.Undeclared :=
  ⟨fun j n => by rw [declaresGlobal_openFrame, h.global],
    fun j n => by rw [declaresNonlocal_openFrame, h.nonlocal]⟩

end Undeclared

/-! ### The chain of frames around a place -/

/-- The chain depends only on the parents. -/
theorem chain_congr {t u : ScopeTree} (h : ∀ i, t.parentOf? i = u.parentOf? i) (i : Nat) :
    t.chain i = u.chain i := by
  induction i using Nat.strongRecOn with
  | ind i ih =>
    rw [chain, chain, h i]
    cases u.parentOf? i with
    | none => rfl
    | some p =>
      by_cases hp : p < i
      · simp only [hp, if_true]
        rw [ih p hp]
      · simp [hp]

/-- A binding keeps the chains. -/
theorem chain_bind (t : ScopeTree) (i j : Nat) (name : String) (target : NameTarget) :
    (t.bind i name target).chain j = t.chain j :=
  chain_congr (fun k => by simp [parentOf?_eq]) j

/-- Every chain begins at its own frame. -/
theorem mem_chain_self (t : ScopeTree) (i : Nat) : i ∈ t.chain i := by
  rw [chain]
  split
  · split <;> simp
  · simp

/-- The shape of a scope tree: the module stands first and has no parent, and every other frame
stands behind its parent. -/
structure Rooted (t : ScopeTree) : Prop where
  /-- There is a first frame. -/
  size_pos : 0 < t.size
  /-- The first frame is the module's. -/
  kindOf_moduleScope : t.kindOf moduleScope = .module
  /-- Every other frame has a parent, which stands before it. -/
  parent_lt : ∀ i, 0 < i → i < t.size → ∃ p, t.parentOf? i = some p ∧ p < i

/-- Every chain of a rooted tree ends in the module. -/
theorem Rooted.moduleScope_mem_chain {t : ScopeTree} (ht : t.Rooted) :
    ∀ i, i < t.size → moduleScope ∈ t.chain i := by
  intro i
  -- The induction is on the position: the parent stands before the frame and leads to the module.
  induction i using Nat.strongRecOn with
  | ind i ih =>
    intro hi
    by_cases h0 : i = 0
    · subst h0
      exact t.mem_chain_self 0
    · obtain ⟨p, hp, hpi⟩ := ht.parent_lt i (by omega) hi
      rw [chain, hp]
      simp only [hpi, if_true]
      exact List.mem_cons_of_mem _ (ih p hpi (by omega))

/-- The tree of a module is rooted. -/
theorem rooted_ofModule (module : Fqn) (span : Span) : (ofModule module span).Rooted where
  size_pos := Nat.one_pos
  kindOf_moduleScope := rfl
  parent_lt i h hi := by
    have : i < 1 := hi
    omega

/-- A tree with the scopes of a rooted one is rooted. -/
theorem Rooted.congr {t u : ScopeTree} (ht : t.Rooted) (h : ∀ i, u.scope? i = t.scope? i) :
    u.Rooted := by
  have hsize : ∀ i, i < u.size ↔ i < t.size := fun i => by
    rw [← isSome_scope?_iff, ← isSome_scope?_iff, h]
  refine ⟨(hsize 0).2 ht.size_pos, ?_, fun i h0 hi => ?_⟩
  · rw [kindOf_eq, h, ← kindOf_eq]
    exact ht.kindOf_moduleScope
  · rw [parentOf?_eq, h, ← parentOf?_eq]
    exact ht.parent_lt i h0 ((hsize i).1 hi)

/-- Opening a frame inside a frame of the tree keeps the tree rooted. -/
theorem Rooted.openFrame {t : ScopeTree} (ht : t.Rooted) (node : Nat) (kind : ScopeKind)
    (owner : Fqn) {parent : Nat} (hparent : parent < t.size) (span : Span) :
    (t.openFrame node kind owner parent span).2.Rooted := by
  cases h : t.byNode.get? node with
  | some i =>
    rw [openFrame_eq_of_some h]
    exact ht
  | none =>
    have hscope := scope?_openFrame_of_none h kind owner parent span
    have hsize := size_openFrame_of_none h kind owner parent span
    -- The new frame is the last one and has its parent before it; the module is still the first
    -- one.
    refine ⟨by omega, ?_, fun i h0 hi => ?_⟩
    · have h0 : moduleScope ≠ t.size := Nat.ne_of_lt ht.size_pos
      rw [kindOf_eq, hscope, if_neg h0, ← kindOf_eq]
      exact ht.kindOf_moduleScope
    · rw [parentOf?_eq, hscope]
      by_cases hlast : i = t.size
      · exact ⟨parent, by simp [hlast], by omega⟩
      · rw [if_neg hlast, ← parentOf?_eq]
        exact ht.parent_lt i h0 (by omega)

/-! ### Growth -/

/-- The tree `u` has the scopes of `t` at the same positions, and gives the nodes of `t` the same
frames. -/
structure Extends (t u : ScopeTree) : Prop where
  /-- A node keeps its frame. -/
  byNode : ∀ node i, t.byNode.get? node = some i → u.byNode.get? node = some i
  /-- A position keeps its scope. -/
  scope? : ∀ i s, t.scope? i = some s → u.scope? i = some s

namespace Extends

/-- A tree extends itself. -/
theorem refl (t : ScopeTree) : t.Extends t := ⟨fun _ _ h => h, fun _ _ h => h⟩

/-- What extends an extension extends the tree. -/
theorem trans {t u v : ScopeTree} (h : t.Extends u) (h' : u.Extends v) : t.Extends v :=
  ⟨fun node i hi => h'.byNode node i (h.byNode node i hi),
    fun i s hs => h'.scope? i s (h.scope? i s hs)⟩

/-- An extension has at least as many frames. -/
theorem size_le {t u : ScopeTree} (h : t.Extends u) : t.size ≤ u.size := by
  rcases Nat.eq_zero_or_pos t.size with h0 | h0
  · omega
  · obtain ⟨s, hs⟩ := Option.isSome_iff_exists.1
      ((isSome_scope?_iff t (t.size - 1)).2 (by omega))
    have hlast := (isSome_scope?_iff u (t.size - 1)).1 (by rw [h.scope? _ s hs]; rfl)
    omega

/-- A frame keeps its owner. -/
theorem ownerOf_eq {t u : ScopeTree} (h : t.Extends u) {i : Nat} (hi : i < t.size) :
    u.ownerOf i = t.ownerOf i := by
  obtain ⟨s, hs⟩ := Option.isSome_iff_exists.1 ((isSome_scope?_iff t i).2 hi)
  rw [ScopeTree.ownerOf_eq, ScopeTree.ownerOf_eq, hs, h.scope? i s hs]

/-- A change that keeps the scope of the frame extends the tree. -/
theorem modify (t : ScopeTree) (i : Nat) {g : Frame → Frame} (hg : ∀ f, (g f).scope = f.scope) :
    t.Extends (t.modify i g) :=
  ⟨fun _ _ h => h, fun j s hs => by rw [scope?_modify t i j hg]; exact hs⟩

/-- A binding extends the tree. -/
theorem bind (t : ScopeTree) (i : Nat) (name : String) (target : NameTarget) :
    t.Extends (t.bind i name target) := modify t i fun _ => rfl

/-- A `global` declaration extends the tree. -/
theorem declareGlobal (t : ScopeTree) (i : Nat) (name : String) :
    t.Extends (t.declareGlobal i name) := modify t i fun _ => rfl

/-- A `nonlocal` declaration extends the tree. -/
theorem declareNonlocal (t : ScopeTree) (i : Nat) (name : String) :
    t.Extends (t.declareNonlocal i name) := modify t i fun _ => rfl

/-- What is recorded about a function extends the tree. -/
theorem setFunction (t : ScopeTree) (i : Nat) (info : FunctionInfo) :
    t.Extends (t.setFunction i info) := modify t i fun _ => rfl

/-- An opened frame extends the tree. -/
theorem openFrame (t : ScopeTree) (node : Nat) (kind : ScopeKind) (owner : Fqn) (parent : Nat)
    (span : Span) : t.Extends (t.openFrame node kind owner parent span).2 := by
  cases h : t.byNode.get? node with
  | some i =>
    rw [openFrame_eq_of_some h]
    exact refl t
  | none =>
    -- The node is new, so it is none of those that have frames, and the frame comes behind them.
    refine ⟨fun n i hi => ?_, fun i s hs => ?_⟩
    · have hn : n ≠ node := fun e => by rw [e, h] at hi; cases hi
      simp only [ScopeTree.openFrame, h, Table.get?_insert, if_neg hn]
      exact hi
    · have hi : i < t.size := (isSome_scope?_iff t i).1 (by rw [hs]; rfl)
      rw [scope?_openFrame_of_none h, if_neg (Nat.ne_of_lt hi)]
      exact hs

end Extends

/-- A node has the frame that opening it gives. -/
theorem byNode_openFrame (t : ScopeTree) (node : Nat) (kind : ScopeKind) (owner : Fqn)
    (parent : Nat) (span : Span) :
    (t.openFrame node kind owner parent span).2.byNode.get? node =
      some (t.openFrame node kind owner parent span).1 := by
  cases h : t.byNode.get? node with
  | some i => rw [openFrame_eq_of_some h, h]
  | none => simp [openFrame, h, Table.get?_insert]

end NameAtlas.Python.ScopeTree
