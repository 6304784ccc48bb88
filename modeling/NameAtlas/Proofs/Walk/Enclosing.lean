import NameAtlas.Proofs.Walk.Openings
import NameAtlas.Proofs.Walk.Sites

/-!
# Scopes lie within one another as the code does

A walk opens the scope of a definition in the scope of the site where the definition stands, and
behind it (`Machine.mirrors_step`). Names that are declared `global` or `nonlocal` are bound
elsewhere, but that moves no scope. So in every walk the scopes lie within one another as the
definitions do (`Walk.mirrors_walks`): the function around the body of a function is that function,
and around the body of a class it is the one around the class.
-/

namespace NameAtlas.Python

namespace ScopeTree

variable {t u : ScopeTree}

/-! ### The function around a frame -/

/-- In a function the nearest function is that function. -/
theorem enclosingFunction?_of_isFunction {i : Nat} (h : t.isFunction i) :
    t.enclosingFunction? i = some i := by
  rw [enclosingFunction?, chain]
  split
  · split <;> simp [h]
  · simp [h]

/-- In anything else it is the one around it. -/
theorem enclosingFunction?_of_parent {i p : Nat} (h : ¬t.isFunction i)
    (hparent : t.parentOf? i = some p) (hlt : p < i) :
    t.enclosingFunction? i = t.enclosingFunction? p := by
  rw [enclosingFunction?, chain, hparent]
  simp [hlt, h, enclosingFunction?]

/-- Opening frames moves no frame into another function. -/
theorem Extends.enclosingFunction?_eq (h : t.Extends u) {i : Nat} (hi : i < t.size) :
    u.enclosingFunction? i = t.enclosingFunction? i := by
  -- Parents come earlier than what they hold, so the induction is on the position.
  induction i using Nat.strongRecOn with
  | ind i ih =>
    obtain ⟨s, hs⟩ := Option.isSome_iff_exists.1 ((isSome_scope?_iff t i).2 hi)
    have hparent : u.parentOf? i = t.parentOf? i := by
      rw [parentOf?_eq, parentOf?_eq, hs, h.scope? i s hs]
    have hfunction : u.isFunction i = t.isFunction i := by
      rw [isFunction, isFunction, kindOf_eq, kindOf_eq, hs, h.scope? i s hs]
    rw [enclosingFunction?, enclosingFunction?, chain, chain, hparent]
    cases t.parentOf? i with
    | none => simp [hfunction]
    | some p =>
      by_cases hp : p < i
      · simp only [hp, if_true, List.find?_cons, hfunction]
        rw [← enclosingFunction?, ← enclosingFunction?, ih p hp (by omega)]
      · simp [hp, hfunction]

/-! ### Trees that mirror the code -/

/-- A scope tree whose scopes lie within one another as some definitions do. -/
structure Mirrors (S : List Opening) (t : ScopeTree) : Prop where
  /-- The scope of a node is that of a definition. It lies in the scope of the site of the definition,
  which stands before it. -/
  byNode : ∀ node i, t.byNode.get? node = some i → ∃ d ∈ S, d.node = node ∧
    ∃ p < i, t.Resolves d.site p ∧ ∃ s, t.scope? i = some s ∧ s.kind = d.kind ∧ s.parent = some p
  /-- No two nodes have one scope. -/
  injective : ∀ node node' i, t.byNode.get? node = some i → t.byNode.get? node' = some i →
    node = node'
  /-- The module has a scope. -/
  size_pos : 0 < t.size

namespace Mirrors

variable {S : List Opening}

/-- The tree of a module without definitions mirrors whatever there is. -/
theorem ofModule (S : List Opening) (module : Fqn) (span : Span) :
    (ScopeTree.ofModule module span).Mirrors S := ⟨nofun, nofun, Nat.one_pos⟩

/-- The scope of a site is in the tree. -/
theorem lt_of_resolves (h : t.Mirrors S) {s : Site} {i : Nat} (hi : t.Resolves s i) :
    i < t.size := by
  cases s with
  | module =>
    obtain rfl : i = 0 := hi
    exact h.size_pos
  | body node =>
    obtain ⟨-, -, -, -, -, -, s, hs, -⟩ := h.byNode node i hi
    exact (t.isSome_scope?_iff i).1 (by rw [hs]; rfl)

/-- Trees of the same layout mirror the same definitions. -/
theorem congr (h : t.Mirrors S) (hu : t.SameLayout u) : u.Mirrors S := by
  have hresolves {s : Site} {p : Nat} (hp : t.Resolves s p) : u.Resolves s p :=
    hp.mono ⟨fun node i hi => by rwa [hu.byNode], fun i s hs => by rwa [hu.scope?]⟩
  refine ⟨fun node i hi => ?_, fun node node' i hi hi' => ?_, by rw [hu.size]; exact h.size_pos⟩
  · obtain ⟨d, hd, hnode, p, hp, hsite, hscope⟩ := h.byNode node i (by rwa [hu.byNode] at hi)
    exact ⟨d, hd, hnode, p, hp, hresolves hsite, by rwa [hu.scope?]⟩
  · rw [hu.byNode] at hi hi'
    exact h.injective node node' i hi hi'

/-- Opening the scope of a definition in the scope of its site. -/
theorem openFrame (h : t.Mirrors S) {d : Opening} (hd : d ∈ S) {parent : Nat}
    (hparent : t.Resolves d.site parent) (owner : Fqn) (span : Span) :
    (t.openFrame d.node d.kind owner parent span).2.Mirrors S := by
  cases hnew : t.byNode.get? d.node with
  | some j =>
    rw [openFrame_eq_of_some hnew]
    exact h
  | none =>
    have hgrow := Extends.openFrame t d.node d.kind owner parent span
    have hscope := scope?_openFrame_of_none hnew d.kind owner parent span
    have hsize := size_openFrame_of_none hnew d.kind owner parent span
    have hget (node : Nat) : (t.openFrame d.node d.kind owner parent span).2.byNode.get? node =
        if node = d.node then some t.size else t.byNode.get? node := by
      simp only [ScopeTree.openFrame, hnew, Table.get?_insert]
    -- The new scope stands behind all others, which belong to other nodes.
    have hold {node i : Nat} (hi : t.byNode.get? node = some i) : i < t.size :=
      h.lt_of_resolves (s := .body node) hi
    refine ⟨fun node i hi => ?_, fun node node' i hi hi' => ?_, by omega⟩
    · rw [hget] at hi
      split at hi
      · rename_i hnode
        obtain rfl := Option.some.inj hi
        exact ⟨d, hd, hnode.symm, parent, h.lt_of_resolves hparent, hparent.mono hgrow, _,
          by rw [hscope, if_pos rfl], rfl, rfl⟩
      · obtain ⟨d', hd', hnode, p, hp, hsite, s, hs, hshape⟩ := h.byNode node i hi
        exact ⟨d', hd', hnode, p, hp, hsite.mono hgrow, s, hgrow.scope? i s hs, hshape⟩
    · rw [hget] at hi hi'
      split at hi <;> split at hi'
      · simp_all
      · obtain rfl := Option.some.inj hi
        exact absurd (hold hi') (Nat.lt_irrefl _)
      · obtain rfl := Option.some.inj hi'
        exact absurd (hold hi) (Nat.lt_irrefl _)
      · exact h.injective node node' i hi hi'

variable (hS : ∀ d ∈ S, ∀ d' ∈ S, d.node = d'.node → d = d') {d : Opening} {i : Nat}

include hS

/-- The scope of a definition has its kind and lies in the scope of its site. -/
theorem exists_parent (h : t.Mirrors S) (hd : d ∈ S) (hi : t.Resolves (.body d.node) i) :
    ∃ p < i, t.Resolves d.site p ∧ t.kindOf i = d.kind ∧ t.parentOf? i = some p := by
  obtain ⟨d', hd', hnode, p, hlt, hsite, s, hs, hkind, hparent⟩ := h.byNode d.node i hi
  obtain rfl := hS d' hd' d hd hnode
  exact ⟨p, hlt, hsite, by rw [kindOf_eq, hs]; exact hkind, by rw [parentOf?_eq, hs]; exact hparent⟩

/-- The body of a function lies in that function. -/
theorem enclosingFunction?_function (h : t.Mirrors S) (hd : d ∈ S) (hkind : d.kind = .function)
    (hi : t.Resolves (.body d.node) i) : t.enclosingFunction? i = some i := by
  obtain ⟨p, -, -, hi', -⟩ := h.exists_parent hS hd hi
  exact enclosingFunction?_of_isFunction (by rw [isFunction, hi', hkind]; rfl)

/-- The body of a class lies in the function around the class. -/
theorem enclosingFunction?_class (h : t.Mirrors S) (hd : d ∈ S) (hkind : d.kind = .class)
    (hi : t.Resolves (.body d.node) i) {p : Nat} (hp : t.Resolves d.site p) :
    t.enclosingFunction? i = t.enclosingFunction? p := by
  obtain ⟨p', hlt, hsite, hi', hparent⟩ := h.exists_parent hS hd hi
  obtain rfl := hsite.unique hp
  refine enclosingFunction?_of_parent ?_ hparent hlt
  rw [isFunction, hi', hkind]
  exact of_decide_eq_false rfl

end Mirrors

end ScopeTree

/-! ### Runs -/

namespace Machine

variable (context : ImportContext) {S : List Opening} {declares bodies : Bool} {M : Machine}

/-- An action that fits some definitions keeps the scopes as the definitions are. -/
theorem mirrors_step {a : Action} (hfits : a.Fits S declares bodies)
    (hsite : ∃ i, M.walk.scopes.Resolves a.site i) (h : M.walk.scopes.Mirrors S) :
    (step context M a).walk.scopes.Mirrors S := by
  obtain ⟨i, hi⟩ := hsite
  obtain ⟨site, op⟩ := a
  rw [step, hi.resolve_eq]
  -- Only functions and classes open a scope; every other operation leaves the layout.
  cases hopens : op.opens with
  | none => exact h.congr (sameLayout_perform context i fun node hnode => by simp [hopens] at hnode)
  | some node =>
    cases op with
    | enterFunction f =>
      have hbind := ScopeTree.SameLayout.bind M.walk.scopes
        (M.placeOf i f.header.node f.header.word).1 f.header.word.text
        (.declared (M.placeOf i f.header.node f.header.word).2)
      rw [show (perform context i (.enterFunction f) M).walk.scopes = _ from
        Walk.scopes_enterFunction _ _ _ _ _]
      exact ((h.congr hbind).openFrame hfits (hi.mono (.bind _ _ _ _)) _ _).congr (.setFunction _ _ _)
    | enterClass c => exact h.openFrame hfits hi _ _
    | _ => cases hopens

/-- A run of fitting actions keeps a tree that mirrors the definitions. -/
theorem mirrors_run {P : List Action} (hfits : ∀ a ∈ P, a.Fits S declares bodies)
    (hsited : Sited context P M) (h : M.walk.scopes.Mirrors S) :
    (run context P M).walk.scopes.Mirrors S := by
  induction P generalizing M with
  | nil => exact h
  | cons a rest ih =>
    exact ih (fun a' ha' => hfits a' (List.mem_cons_of_mem a ha')) hsited.2
      (mirrors_step context (hfits a List.mem_cons_self) hsited.1 h)

end Machine

/-- In every walk the scopes lie within one another as the definitions of the module do. -/
theorem Walk.mirrors_walks (context : ImportContext) (m : Module) (k : Nat) :
    (walks context m k).scopes.Mirrors m.openings := by
  induction k with
  | zero => exact .ofModule _ _ _
  | succ k ih =>
    have hrun := Machine.mirrors_run context (M := .ofWalk (walks context m k)) m.fits_program
      (Machine.sited_program context m k) ih
    rw [run_program] at hrun
    exact hrun

end NameAtlas.Python
