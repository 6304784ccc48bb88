import NameAtlas.Proofs.ScopeTree.Erase
import NameAtlas.Proofs.Walk.Layout

/-!
# The names of a walk

Where names are bound, and which symbols own the scopes, is decided by the scopes, by the names that
are bound and by those declared `global` or `nonlocal`, never by what the names stand for. So two
walks that agree on all that (`Machine.SameNames`) still agree after the same operation
(`sameNames_perform`), and two analyses of one module under one name give their scopes the same
owners (`scopes_walks`).
-/

namespace NameAtlas.Python

/-- The node of a definition with its place and its scope. -/
def Definition.frame (d : Definition) : Nat × (Nat × Fqn) × Nat := (d.node, d.place, d.inner)

namespace Machine

/-- The definitions under way in two machines have the same nodes, places and scopes. -/
def SameFrames (M N : Machine) : Prop :=
  M.definitions.map Definition.frame = N.definitions.map Definition.frame

namespace SameFrames

variable {M N : Machine}

/-- Machines with the same frames have the same one on top. -/
theorem definition (h : M.SameFrames N) : M.definition.frame = N.definition.frame := by
  have hhead : ∀ M : Machine,
      M.definition.frame = (M.definitions.map Definition.frame).headD (default : Definition).frame :=
    fun M => by cases hM : M.definitions <;> simp [Machine.definition, hM]
  rw [hhead, hhead, h]

/-- Machines with the same frames have the same place for the definition under way. -/
theorem place (h : M.SameFrames N) : M.definition.place = N.definition.place :=
  congrArg (fun d => d.2.1) h.definition

/-- Machines with the same frames have the same scope for the definition under way. -/
theorem inner (h : M.SameFrames N) : M.definition.inner = N.definition.inner :=
  congrArg (fun d => d.2.2) h.definition

/-- Machines with the same frames have the same ones below the top. -/
theorem tail (h : M.SameFrames N) :
    M.definitions.tail.map Definition.frame = N.definitions.tail.map Definition.frame := by
  rw [List.map_tail, List.map_tail, h]

/-- Changing the innermost definitions without changing their frames. -/
theorem modifyHead (h : M.SameFrames N) {g g' : Definition → Definition}
    (hg : ∀ d d', d.frame = d'.frame → (g d).frame = (g' d').frame) :
    (M.definitions.modifyHead g).map Definition.frame =
      (N.definitions.modifyHead g').map Definition.frame := by
  rw [SameFrames] at h
  cases hM : M.definitions <;> cases hN : N.definitions <;>
    simp only [hM, hN, List.map_nil, List.map_cons, List.cons.injEq, reduceCtorEq] at h
  · rfl
  · simp only [List.modifyHead_cons, List.map_cons, hg _ _ h.1, h.2]

/-- A definition has the same place in both if a binding of its name would have. -/
theorem placeOf (h : M.SameFrames N) {scope : Nat} {word : Word}
    (hplace : M.walk.bindingPlace scope word.text = N.walk.bindingPlace scope word.text)
    (node : Nat) : M.placeOf scope node word = N.placeOf scope node word := by
  rw [SameFrames] at h
  rw [Machine.placeOf, Machine.placeOf]
  cases hM : M.definitions <;> cases hN : N.definitions <;>
    simp only [hM, hN, List.map_nil, List.map_cons, Definition.frame, List.cons.injEq,
      Prod.mk.injEq, reduceCtorEq] at h
  · exact hplace
  · obtain ⟨⟨hnode, hframe, -⟩, -⟩ := h
    simp only [hnode, hframe, hplace]

end SameFrames

/-- Two machines whose walks have the same scopes and the same names in them, and whose definitions
under way have the same places. -/
structure SameNames (M N : Machine) : Prop where
  /-- The scopes and names are the same. -/
  scopes : M.walk.scopes.erase = N.walk.scopes.erase
  /-- The definitions under way are the same. -/
  definitions : M.SameFrames N

namespace SameNames

variable {M N : Machine}

/-- Machines with the same names have the same owners. -/
theorem ownerOf (h : M.SameNames N) (i : Nat) :
    M.walk.scopes.ownerOf i = N.walk.scopes.ownerOf i := by
  rw [← ScopeTree.ownerOf_erase, h.scopes, ScopeTree.ownerOf_erase]

/-- Machines with the same names bind a name in the same scope. -/
theorem bindingScope (h : M.SameNames N) (i : Nat) (name : String) :
    M.walk.scopes.bindingScope i name = N.walk.scopes.bindingScope i name := by
  rw [← ScopeTree.bindingScope_erase, h.scopes, ScopeTree.bindingScope_erase]

/-- Machines with the same names bind a name in the same place. -/
theorem bindingPlace (h : M.SameNames N) (i : Nat) (name : String) :
    M.walk.bindingPlace i name = N.walk.bindingPlace i name := by
  simp only [Walk.bindingPlace, h.bindingScope, h.ownerOf]

/-- Machines with the same names find the same place for a definition. -/
theorem placeOf (h : M.SameNames N) (scope node : Nat) (word : Word) :
    M.placeOf scope node word = N.placeOf scope node word :=
  h.definitions.placeOf (h.bindingPlace scope word.text) node

/-- Machines with the same names resolve sites to the same scopes. -/
theorem resolve (h : M.SameNames N) (s : Site) :
    M.walk.scopes.resolve s = N.walk.scopes.resolve s := by
  cases s with
  | module => rfl
  | body node =>
    simp only [ScopeTree.resolve]
    rw [← ScopeTree.byNode_erase, h.scopes, ScopeTree.byNode_erase]

/-- Binding a name in the same frame, whatever it stands for. -/
theorem bind (h : M.SameNames N) {i j : Nat} (hij : i = j) (name : String)
    (target target' : NameTarget) :
    (M.walk.scopes.bind i name target).erase = (N.walk.scopes.bind j name target').erase := by
  rw [ScopeTree.erase_bind, ScopeTree.erase_bind, h.scopes, hij]

end SameNames

/-- Opening the same node in the same frame gives the same scope. -/
theorem SameNames.openFrame {t u : ScopeTree} (h : t.erase = u.erase) (node : Nat)
    (kind : ScopeKind) (owner : Fqn) (parent : Nat) (span : Span) :
    (t.openFrame node kind owner parent span).1 = (u.openFrame node kind owner parent span).1 ∧
      (t.openFrame node kind owner parent span).2.erase =
        (u.openFrame node kind owner parent span).2.erase := by
  have ht := ScopeTree.erase_openFrame t node kind owner parent span
  have hu := ScopeTree.erase_openFrame u node kind owner parent span
  rw [h, hu, Prod.mk.injEq] at ht
  exact ⟨ht.1.symm, ht.2.symm⟩

variable (context context' : ImportContext)

/-- The same operation keeps two walks in agreement about their names. -/
theorem sameNames_perform (scope : Nat) (op : Op) {M N : Machine} (h : M.SameNames N) :
    (perform context scope op M).SameNames (perform context' scope op N) := by
  -- Only places and scopes are compared, so types and what a name means may differ.
  cases op with
  | place node word =>
    refine ⟨h.scopes, ?_⟩
    simp only [SameFrames, perform, begin, List.map_cons, Definition.frame, h.bindingPlace,
      List.cons.injEq, true_and]
    exact h.definitions
  | bindName word =>
    exact ⟨h.bind (h.bindingScope _ _) _ _ _, h.definitions⟩
  | enterFunction f =>
    let place := N.placeOf scope f.header.node f.header.word
    have hbind := h.bind (rfl : place.1 = place.1) f.header.word.text (.declared place.2)
      (.declared place.2)
    obtain ⟨hinner, hopen⟩ := SameNames.openFrame hbind f.header.node .function place.2 scope
      f.header.span
    refine ⟨?_, ?_⟩
    · simp only [perform, setWalk, Walk.scopes_enterFunction, ScopeTree.erase_setFunction,
        h.placeOf]
      exact hopen
    · refine h.definitions.modifyHead fun d d' hd => ?_
      obtain ⟨hnode, hplace, -⟩ := (by simpa [Definition.frame] using hd)
      simp only [Definition.frame, hnode, hplace, h.placeOf]
      exact congrArg (fun i => (d'.node, d'.place, i)) hinner
  | parameter word => exact ⟨h.bind h.definitions.inner _ _ _, h.definitions.modifyHead fun _ _ hd => hd⟩
  | leaveFunction => exact ⟨h.scopes, h.definitions.tail⟩
  | enterClass c =>
    refine ⟨?_, h.definitions⟩
    simp only [perform, setWalk, Walk.enterClass, h.placeOf]
    exact (SameNames.openFrame h.scopes c.node .class (N.placeOf scope c.node c.word).2 scope
      c.span).2
  | base => exact ⟨h.scopes, h.definitions.modifyHead fun _ _ hd => hd⟩
  | leaveClass word => exact ⟨h.bind (congrArg Prod.fst h.definitions.place) _ _ _, h.definitions.tail⟩
  | bindImport b => exact ⟨h.bind (h.bindingScope _ _) _ _ _, h.definitions⟩
  | declareGlobal name =>
    refine ⟨?_, h.definitions⟩
    simp only [perform, setWalk, ScopeTree.erase_declareGlobal, h.scopes]
  | declareNonlocal name =>
    refine ⟨?_, h.definitions⟩
    simp only [perform, setWalk, ScopeTree.erase_declareNonlocal, h.scopes]
  | assignMember | keepMember =>
    refine ⟨?_, h.definitions⟩
    simp only [perform, setWalk, Walk.scopes_assignMember]
    exact h.scopes
  | noteReturn =>
    refine ⟨?_, h.definitions⟩
    simp only [perform, setWalk, Walk.scopes_noteReturn]
    exact h.scopes
  | endBody =>
    refine ⟨?_, h.definitions⟩
    simp only [perform, setWalk, Walk.scopes_endBody]
    exact h.scopes
  | _ => exact ⟨h.scopes, h.definitions⟩

/-- A run keeps the same names in both machines. -/
theorem sameNames_run (P : List Action) {M N : Machine} (h : M.SameNames N) :
    (run context P M).SameNames (run context' P N) := by
  induction P generalizing M N with
  | nil => exact h
  | cons a rest ih =>
    rw [run_cons, run_cons, step, step, h.resolve]
    exact ih (sameNames_perform context context' _ a.op h)

end Machine

/-- Two analyses of one module under one name have the same scopes with the same owners. -/
theorem Walk.scopes_walks (m : Module) {context context' : ImportContext}
    (h : context.module = context'.module) {k l : Nat} (hk : 1 ≤ k) (hl : 1 ≤ l) :
    (walks context m k).scopes.scopes = (walks context' m l).scopes.scopes := by
  have hstart : (Machine.ofWalk (walks context m 0)).SameNames
      (Machine.ofWalk (walks context' m 0)) :=
    ⟨by simp only [Machine.ofWalk, walks, h], rfl⟩
  have hrun := (Machine.sameNames_run context context' m.program hstart).scopes
  rw [run_program, run_program] at hrun
  have hfirst := congrArg ScopeTree.scopes hrun
  rw [ScopeTree.scopes_erase, ScopeTree.scopes_erase] at hfirst
  rw [(sameLayout_walks context m (Nat.le_refl 1) hk).scopes,
    (sameLayout_walks context' m (Nat.le_refl 1) hl).scopes]
  exact hfirst

end NameAtlas.Python
