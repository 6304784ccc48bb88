import NameAtlas.Proofs.Walk.Passes

/-!
# The layout of a scope tree

The layout of a scope tree are its scopes and the frames of its nodes. Only a definition changes it,
and only where its node has no frame yet (`sameLayout_perform`). A run opens the nodes of all its
definitions (`isSome_byNode_run`), so a second run of the same actions finds them open and keeps the
layout: after the first walk over a module nothing is opened any more (`sameLayout_walks`).
-/

namespace NameAtlas.Python

/-- The tree `u` has the scopes of `t`, and gives every node the same frame. -/
structure ScopeTree.SameLayout (t u : ScopeTree) : Prop where
  /-- The scopes are the same. -/
  scopes : u.scopes = t.scopes
  /-- The frames of the nodes are the same. -/
  byNode : u.byNode = t.byNode

namespace ScopeTree.SameLayout

/-- A tree has its own layout. -/
theorem refl (t : ScopeTree) : t.SameLayout t := ⟨rfl, rfl⟩

/-- Trees of one layout with a third have one layout. -/
theorem trans {t u v : ScopeTree} (h : t.SameLayout u) (h' : u.SameLayout v) : t.SameLayout v :=
  ⟨h'.scopes.trans h.scopes, h'.byNode.trans h.byNode⟩

/-- Two trees have one layout in either order. -/
theorem symm {t u : ScopeTree} (h : t.SameLayout u) : u.SameLayout t :=
  ⟨h.scopes.symm, h.byNode.symm⟩

/-- Trees of one layout have the same scopes. -/
theorem scope? {t u : ScopeTree} (h : t.SameLayout u) (i : Nat) : u.scope? i = t.scope? i := by
  rw [← getElem?_scopes, ← getElem?_scopes, h.scopes]

/-- Trees of one layout have the same owners. -/
theorem ownerOf {t u : ScopeTree} (h : t.SameLayout u) (i : Nat) : u.ownerOf i = t.ownerOf i := by
  rw [ownerOf_eq, ownerOf_eq, h.scope?]

/-- Trees of one layout have scopes of the same kinds. -/
theorem kindOf {t u : ScopeTree} (h : t.SameLayout u) (i : Nat) : u.kindOf i = t.kindOf i := by
  rw [kindOf_eq, kindOf_eq, h.scope?]

/-- Trees of one layout have the same chains of scopes. -/
theorem chain {t u : ScopeTree} (h : t.SameLayout u) (i : Nat) : u.chain i = t.chain i :=
  chain_congr (fun j => by rw [parentOf?_eq, parentOf?_eq, h.scope?]) i

/-- Trees of one layout have equally many scopes. -/
theorem size {t u : ScopeTree} (h : t.SameLayout u) : u.size = t.size := by
  rw [← length_scopes, ← length_scopes, h.scopes]

/-- Trees of one layout resolve sites to the same scopes. -/
theorem resolve {t u : ScopeTree} (h : t.SameLayout u) (s : Site) : u.resolve s = t.resolve s := by
  cases s with
  | module => rfl
  | body node => simp only [ScopeTree.resolve, h.byNode]

/-- Binding a name leaves the layout. -/
theorem bind (t : ScopeTree) (i : Nat) (name : String) (target : NameTarget) :
    t.SameLayout (t.bind i name target) := ⟨scopes_bind t i name target, rfl⟩

/-- Declaring a name `global` leaves the layout. -/
theorem declareGlobal (t : ScopeTree) (i : Nat) (name : String) :
    t.SameLayout (t.declareGlobal i name) := ⟨scopes_declareGlobal t i name, rfl⟩

/-- Declaring a name `nonlocal` leaves the layout. -/
theorem declareNonlocal (t : ScopeTree) (i : Nat) (name : String) :
    t.SameLayout (t.declareNonlocal i name) := ⟨scopes_declareNonlocal t i name, rfl⟩

/-- Writing down a function leaves the layout. -/
theorem setFunction (t : ScopeTree) (i : Nat) (info : FunctionInfo) :
    t.SameLayout (t.setFunction i info) := ⟨scopes_setFunction t i info, rfl⟩

/-- Opening a node that has a frame changes nothing. -/
theorem openFrame {t : ScopeTree} {node : Nat} (h : (t.byNode.get? node).isSome)
    (kind : ScopeKind) (owner : Fqn) (parent : Nat) (span : Span) :
    t.SameLayout (t.openFrame node kind owner parent span).2 := by
  obtain ⟨i, hi⟩ := Option.isSome_iff_exists.1 h
  rw [openFrame_eq_of_some hi]
  exact refl t

end ScopeTree.SameLayout

/-- The node whose scope an operation opens. -/
def Op.opens : Op → Option Nat
  | .enterFunction f => some f.header.node
  | .enterClass h => some h.node
  | _ => none

namespace Machine

variable (context : ImportContext)

/-- An operation keeps the layout, unless it opens a node that has no frame. -/
theorem sameLayout_perform (scope : Nat) {op : Op} {M : Machine}
    (h : ∀ node, op.opens = some node → (M.walk.scopes.byNode.get? node).isSome) :
    M.walk.scopes.SameLayout (perform context scope op M).walk.scopes := by
  -- Functions and classes open the scope of a node that is open, and other operations open none.
  cases op with
  | enterFunction f =>
    let place := M.placeOf scope f.header.node f.header.word
    have hbind := ScopeTree.SameLayout.bind M.walk.scopes place.1 f.header.word.text
      (.declared place.2)
    have hopen := hbind.trans (.openFrame (by rw [hbind.byNode]; exact h f.header.node rfl)
      .function place.2 scope f.header.span)
    rw [show (perform context scope (.enterFunction f) M).walk.scopes = _ from
      Walk.scopes_enterFunction _ _ _ _ _]
    exact hopen.trans (.setFunction _ _ _)
  | enterClass c => exact .openFrame (h c.node rfl) _ _ _ _
  | bindName | parameter | leaveClass | bindImport => exact .bind _ _ _ _
  | declareGlobal name => exact .declareGlobal _ _ _
  | declareNonlocal name => exact .declareNonlocal _ _ _
  | assignMember | keepMember =>
    rw [perform, setWalk, Walk.scopes_assignMember]
    exact .refl _
  | noteReturn =>
    rw [perform, setWalk, Walk.scopes_noteReturn]
    exact .refl _
  | endBody =>
    rw [perform, setWalk, Walk.scopes_endBody]
    exact .refl _
  | _ => exact .refl _

/-- What an operation opens is open behind it. -/
theorem isSome_byNode_perform (scope : Nat) {op : Op} (M : Machine) {node : Nat}
    (h : op.opens = some node) :
    ((perform context scope op M).walk.scopes.byNode.get? node).isSome := by
  -- Only functions and classes open the scope of a node.
  cases op with
  | enterFunction f =>
    have hnode : f.header.node = node := by simpa [Op.opens] using h
    subst hnode
    rw [show (perform context scope (.enterFunction f) M).walk.scopes = _ from
      Walk.scopes_enterFunction _ _ _ _ _]
    exact Option.isSome_of_mem (ScopeTree.byNode_openFrame _ _ _ _ _ _)
  | enterClass c =>
    have hnode : c.node = node := by simpa [Op.opens] using h
    subst hnode
    exact Option.isSome_of_mem (ScopeTree.byNode_openFrame _ _ _ _ _ _)
  | _ => exact absurd h (by simp [Op.opens])

/-- A node that is opened in a run has a scope behind it. -/
theorem isSome_byNode_run (P : List Action) (M : Machine) {node : Nat}
    (h : ∃ a ∈ P, a.op.opens = some node) :
    ((run context P M).walk.scopes.byNode.get? node).isSome := by
  induction P generalizing M with
  | nil => simp at h
  | cons a rest ih =>
    obtain ⟨a', hmem, ha'⟩ := h
    rcases List.mem_cons.1 hmem with rfl | hrest
    · obtain ⟨i, hi⟩ := Option.isSome_iff_exists.1 (isSome_byNode_perform context
        (M.walk.scopes.resolve a'.site) M ha')
      exact Option.isSome_of_mem ((grows_run context rest _).scopes.byNode node i hi)
    · exact ih _ ⟨a', hrest, ha'⟩

/-- A run keeps the layout if all nodes that it opens have frames. -/
theorem sameLayout_run {P : List Action} {M : Machine}
    (h : ∀ a ∈ P, ∀ node, a.op.opens = some node → (M.walk.scopes.byNode.get? node).isSome) :
    M.walk.scopes.SameLayout (run context P M).walk.scopes := by
  induction P generalizing M with
  | nil => exact .refl _
  | cons a rest ih =>
    have hstep := sameLayout_perform context (M.walk.scopes.resolve a.site)
      (h a List.mem_cons_self)
    refine hstep.trans (ih fun a' ha' node hnode => ?_)
    rw [hstep.byNode]
    exact h a' (List.mem_cons_of_mem a ha') node hnode

end Machine

namespace Walk

variable (context : ImportContext) (m : Module)

/-- Behind the first walk the nodes of all definitions are open. -/
theorem isSome_byNode_walks {k : Nat} (hk : 1 ≤ k) {a : Action} (ha : a ∈ m.program) {node : Nat}
    (h : a.op.opens = some node) : ((walks context m k).scopes.byNode.get? node).isSome := by
  obtain ⟨k, rfl⟩ : ∃ n, k = n + 1 := ⟨k - 1, by omega⟩
  have hrun := Machine.isSome_byNode_run context m.program (.ofWalk (walks context m k))
    ⟨a, ha, h⟩
  rw [run_program] at hrun
  exact hrun

/-- Behind the first walk the layout does not change. -/
theorem sameLayout_walks_succ {k : Nat} (hk : 1 ≤ k) :
    (walks context m k).scopes.SameLayout (walks context m (k + 1)).scopes := by
  have h := Machine.sameLayout_run context (P := m.program) (M := .ofWalk (walks context m k))
    fun a ha node hnode => isSome_byNode_walks context m hk ha hnode
  rw [run_program] at h
  exact h

/-- After the first walk no scope is opened any more. -/
theorem sameLayout_walks {k l : Nat} (hk : 1 ≤ k) (hl : k ≤ l) :
    (walks context m k).scopes.SameLayout (walks context m l).scopes := by
  induction hl with
  | refl => exact .refl _
  | step hl ih => exact ih.trans (sameLayout_walks_succ context m (Nat.le_trans hk hl))

end Walk

end NameAtlas.Python
