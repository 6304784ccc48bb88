import NameAtlas.Proofs.ScopeTree.Lookup
import NameAtlas.Proofs.Walk.Passes

/-!
# Walks are well formed

What holds of the scopes and symbols of a walk however its names are bound: the module is the first
scope and the first symbol, every other scope stands behind the one around it and belongs to a
declared class or function, every other symbol lies below the module, and everything that names a
scope names one of the walk. The invariant is stated for the scope tree, for the symbol table, for
both together with what refers to them (`Walk.WellFormed`), and for the machine with its
definitions under way (`Machine.WellFormed`). Each operation keeps it (`wellFormed_perform`), at
whatever scope of the walk it is performed, and so it holds of every walk over a module
(`wellFormed_walks`).
-/

namespace NameAtlas.Python

/-! ### Scope trees -/

/-- A well-formed scope tree of a module. -/
structure ScopeTree.WellFormed (module : Fqn) (t : ScopeTree) : Prop where
  /-- The first scope is that of the module. -/
  first : ∃ span, t.scope? moduleScope = some ⟨.module, module, none, span⟩
  /-- Every other scope is that of a class or function and stands behind its parent. -/
  inner : ∀ i s, 0 < i → t.scope? i = some s →
    s.kind ≠ .module ∧ s.owner.liesBelow module ∧ ∃ p, s.parent = some p ∧ p < i
  /-- The functions lie below the module. -/
  functions : ∀ i info, t.function? i = some info → info.symbol.liesBelow module
  /-- The frames of the nodes are frames of the tree. -/
  byNode : ∀ node i, t.byNode.get? node = some i → i < t.size

namespace ScopeTree.WellFormed

variable {module : Fqn} {t u : ScopeTree}

/-- A well-formed tree has a scope. -/
theorem size_pos (h : t.WellFormed module) : 0 < t.size := by
  obtain ⟨span, hfirst⟩ := h.first
  exact (t.isSome_scope?_iff 0).1 (by rw [show t.scope? 0 = _ from hfirst]; rfl)

/-- A well-formed tree is rooted: every scope but the first has a parent that comes earlier. -/
theorem rooted (h : t.WellFormed module) : t.Rooted := by
  obtain ⟨span, hfirst⟩ := h.first
  refine ⟨h.size_pos, by rw [kindOf_eq, hfirst]; rfl, fun i h0 hi => ?_⟩
  obtain ⟨s, hs⟩ := Option.isSome_iff_exists.1 ((t.isSome_scope?_iff i).2 hi)
  obtain ⟨-, -, p, hp, hlt⟩ := h.inner i s h0 hs
  exact ⟨p, by rw [parentOf?_eq, hs]; exact hp, hlt⟩

/-- The owners are the module and names below it. -/
theorem liesAtOrBelow_ownerOf (h : t.WellFormed module) {i : Nat} (hi : i < t.size) :
    (t.ownerOf i).liesAtOrBelow module := by
  obtain ⟨s, hs⟩ := Option.isSome_iff_exists.1 ((t.isSome_scope?_iff i).2 hi)
  rw [ownerOf_eq, hs]
  rcases Nat.eq_zero_or_pos i with rfl | h0
  · obtain ⟨span, hfirst⟩ := h.first
    obtain rfl := Option.some.inj (hs.symm.trans hfirst)
    exact module.liesAtOrBelow_self
  · exact Fqn.liesAtOrBelow_of_liesBelow (h.inner i s h0 hs).2.1

/-- A site is resolved to a scope of the tree. -/
theorem resolve_lt (h : t.WellFormed module) (s : Site) : t.resolve s < t.size := by
  cases s with
  | module => exact h.size_pos
  | body node =>
    rw [resolve]
    cases hnode : t.byNode.get? node with
    | some i => exact h.byNode node i hnode
    | none => exact h.size_pos

/-- The scope of a site is one of the tree. -/
theorem lt_of_resolves (h : t.WellFormed module) {s : Site} {i : Nat} (hi : t.Resolves s i) :
    i < t.size := hi.resolve_eq ▸ h.resolve_lt s

/-- The tree of a module without definitions is well formed. -/
theorem ofModule (module : Fqn) (span : Span) : (ofModule module span).WellFormed module := by
  refine ⟨⟨span, rfl⟩, fun i s h0 hs => ?_, fun i info hinfo => ?_, fun node i h => nomatch h⟩
  · have hi : i < 1 := (isSome_scope?_iff (.ofModule module span) i).1 (by rw [hs]; rfl)
    omega
  · rw [function?_ofModule] at hinfo
    cases hinfo

/-- A change of one frame that keeps its scope and its function. -/
theorem modify (h : t.WellFormed module) (i : Nat) {g : Frame → Frame}
    (hscope : ∀ f, (g f).scope = f.scope) (hfunction : ∀ f, (g f).function = f.function) :
    (t.modify i g).WellFormed module where
  first := by
    rw [scope?_modify t i _ hscope]
    exact h.first
  inner j s h0 hs := h.inner j s h0 (by rwa [scope?_modify t i j hscope] at hs)
  functions j info hinfo := h.functions j info (by rwa [function?_modify t i j hfunction] at hinfo)
  byNode node j hj := by
    rw [size_modify]
    exact h.byNode node j hj

/-- A tree stays well formed if a name is bound. -/
theorem bind (h : t.WellFormed module) (i : Nat) (name : String) (target : NameTarget) :
    (t.bind i name target).WellFormed module := h.modify i (fun _ => rfl) fun _ => rfl

/-- A tree stays well formed if a name is declared `global`. -/
theorem declareGlobal (h : t.WellFormed module) (i : Nat) (name : String) :
    (t.declareGlobal i name).WellFormed module := h.modify i (fun _ => rfl) fun _ => rfl

/-- A tree stays well formed if a name is declared `nonlocal`. -/
theorem declareNonlocal (h : t.WellFormed module) (i : Nat) (name : String) :
    (t.declareNonlocal i name).WellFormed module := h.modify i (fun _ => rfl) fun _ => rfl

/-- A tree stays well formed if a function below the module is written down. -/
theorem setFunction (h : t.WellFormed module) (i : Nat) {info : FunctionInfo}
    (hinfo : info.symbol.liesBelow module) : (t.setFunction i info).WellFormed module where
  first := by
    rw [scope?_setFunction]
    exact h.first
  inner j s h0 hs := h.inner j s h0 (by rwa [scope?_setFunction] at hs)
  -- The function that is written down lies below the module, and the others did before.
  functions j info' hinfo' := by
    rw [function?_setFunction] at hinfo'
    split at hinfo'
    · obtain rfl := Option.some.inj hinfo'
      exact hinfo
    · exact h.functions j info' hinfo'
  byNode node j hj := by
    rw [ScopeTree.setFunction, size_modify]
    exact h.byNode node j hj

/-- Opening a class or function inside a frame of the tree. -/
theorem openFrame (h : t.WellFormed module) (node : Nat) {kind : ScopeKind} {owner : Fqn}
    {parent : Nat} (span : Span) (hkind : kind ≠ .module) (howner : owner.liesBelow module)
    (hparent : parent < t.size) : (t.openFrame node kind owner parent span).2.WellFormed module := by
  cases hnode : t.byNode.get? node with
  | some i =>
    rw [openFrame_eq_of_some hnode]
    exact h
  | none =>
    have hscope := scope?_openFrame_of_none hnode kind owner parent span
    have hsize := size_openFrame_of_none hnode kind owner parent span
    -- The new scope is the last one, and its parent comes earlier.
    refine ⟨?_, fun i s h0 hs => ?_, fun i info hinfo => ?_, fun node' i hi => ?_⟩
    · have h0 : moduleScope ≠ t.size := Nat.ne_of_lt h.size_pos
      rw [hscope, if_neg h0]
      exact h.first
    · rw [hscope] at hs
      split at hs
      · rename_i hlast
        obtain rfl := Option.some.inj hs
        exact ⟨hkind, howner, parent, rfl, by omega⟩
      · exact h.inner i s h0 hs
    · rw [function?_openFrame] at hinfo
      exact h.functions i info hinfo
    · simp only [ScopeTree.openFrame, hnode, Table.get?_insert] at hi
      split at hi
      · obtain rfl := Option.some.inj hi
        omega
      · have := h.byNode node' i hi
        omega

/-- What opening gives is a frame of the tree. -/
theorem fst_openFrame_lt (h : t.WellFormed module) (node : Nat) {kind : ScopeKind} {owner : Fqn}
    {parent : Nat} (span : Span) (hkind : kind ≠ .module) (howner : owner.liesBelow module)
    (hparent : parent < t.size) :
    (t.openFrame node kind owner parent span).1 <
      (t.openFrame node kind owner parent span).2.size :=
  (h.openFrame node span hkind howner hparent).byNode node _ (byNode_openFrame t _ _ _ _ _)

end ScopeTree.WellFormed

/-! ### Symbol tables -/

/-- A well-formed symbol table of a module whose tree has `n` scopes. -/
structure SymbolTable.WellFormed (module : Fqn) (n : Nat) (t : SymbolTable) : Prop where
  /-- The first symbol is the module. -/
  first : t.declarations.keys.head? = some module
  /-- It is its own type. -/
  self : ∃ location, t.get? module = some ⟨module, .module, .resolved module, 0, location⟩
  /-- Every other symbol lies below it. -/
  below : ∀ fqn d, fqn ≠ module → t.get? fqn = some d →
    d.fqn = fqn ∧ d.kind ≠ .module ∧ fqn.liesBelow module ∧ d.scope < n

namespace SymbolTable.WellFormed

variable {module : Fqn} {n : Nat} {t : SymbolTable}

/-- A table that is well formed for some scopes is so for more. -/
theorem mono (h : t.WellFormed module n) {n' : Nat} (hn : n ≤ n') : t.WellFormed module n' :=
  ⟨h.first, h.self, fun fqn d hne hd =>
    let ⟨hfqn, hkind, hbelow, hscope⟩ := h.below fqn d hne hd
    ⟨hfqn, hkind, hbelow, Nat.lt_of_lt_of_le hscope hn⟩⟩

/-- A table stays well formed behind a declaration below the module. -/
theorem declare (h : t.WellFormed module n) {d : Declaration} (hbelow : d.fqn.liesBelow module)
    (hkind : d.kind ≠ .module) (hscope : d.scope < n) : (t.declare d).WellFormed module n where
  first := by
    rw [keys_declare]
    split
    · exact h.first
    · rw [List.head?_append, h.first]
      rfl
  self := by
    rw [get?_declare, if_neg (Ne.symm (Fqn.ne_of_liesBelow hbelow))]
    exact h.self
  below fqn d' hne hd' := by
    rw [get?_declare] at hd'
    split at hd'
    · rename_i hfqn
      subst hfqn
      -- A symbol that is declared anew keeps its scope, and its kind may change.
      cases hold : t.get? d.fqn with
      | none =>
        rw [hold] at hd'
        obtain rfl := Option.some.inj hd'
        exact ⟨rfl, hkind, hbelow, hscope⟩
      | some old =>
        rw [hold] at hd'
        obtain rfl := Option.some.inj hd'
        obtain ⟨hfqn, hkind', -, hscope'⟩ := h.below d.fqn old hne hold
        refine ⟨hfqn, ?_, hbelow, hscope'⟩
        simp only [redeclare]
        split
        · exact hkind
        · exact hkind'
    · exact h.below fqn d' hne hd'

/-- A table stays well formed if a type below the module is set. -/
theorem setType (h : t.WellFormed module n) {fqn : Fqn} (hbelow : fqn.liesBelow module)
    (type : BindingType) : (t.setType fqn type).WellFormed module n where
  first := by
    rw [keys_setType]
    exact h.first
  self := by
    rw [get?_setType, if_neg (Ne.symm (Fqn.ne_of_liesBelow hbelow))]
    exact h.self
  below fqn' d' hne hd' := by
    rw [get?_setType] at hd'
    split at hd'
    · rename_i hfqn
      -- A symbol keeps its place and kind if its type is set.
      subst hfqn
      obtain ⟨d, hd, rfl⟩ := Option.map_eq_some_iff.1 hd'
      exact h.below fqn' d hne hd
    · exact h.below fqn' d' hne hd'

/-- A table stays well formed if bases are set. -/
theorem setBases (h : t.WellFormed module n) (c : Fqn) (bases : List Fqn) :
    (t.setBases c bases).WellFormed module n := ⟨h.first, h.self, h.below⟩

/-- The table that holds the module alone. -/
theorem ofModule (module : Fqn) (location : Location) :
    (SymbolTable.empty.declare ⟨module, .module, .resolved module, 0, location⟩).WellFormed
      module 1 where
  first := rfl
  self := ⟨location, by rw [get?_declare, if_pos rfl]; rfl⟩
  below fqn d hne hd := by
    rw [get?_declare, if_neg hne] at hd
    cases hd

end SymbolTable.WellFormed

/-! ### Walks -/

/-- A well-formed walk over a module. -/
structure Walk.WellFormed (module : Fqn) (w : Walk) : Prop where
  /-- The scopes are well formed. -/
  scopes : w.scopes.WellFormed module
  /-- The symbols are well formed, and declared in scopes of the walk. -/
  symbols : w.symbols.WellFormed module w.scopes.size
  /-- The scopes of classes are scopes of the walk, and the classes lie below the module. -/
  classScopes : ∀ c i, w.classScopes.get? c = some i → i < w.scopes.size ∧ c.liesBelow module
  /-- The owners of scopes are defined as classes or functions. -/
  owners : ∀ i s, 0 < i → w.scopes.scope? i = some s →
    ∃ kind, w.symbols.kindOf? s.owner = some kind ∧ kind.isDefinition
  /-- References stand in scopes of the walk. -/
  references : ∀ r ∈ w.references, r.scope < w.scopes.size

/-- True for a frame of a walk and a symbol that may be declared there. -/
def Walk.IsPlace (module : Fqn) (w : Walk) (place : Nat × Fqn) : Prop :=
  place.1 < w.scopes.size ∧ place.2.liesBelow module

namespace Walk.WellFormed

variable {module : Fqn} {w : Walk}

/-- A name is bound in a scope of the walk. -/
theorem bindingScope_lt (h : w.WellFormed module) {scope : Nat} (hscope : scope < w.scopes.size)
    (name : String) : w.scopes.bindingScope scope name < w.scopes.size :=
  h.scopes.rooted.bindingScope_lt hscope name

/-- A name has a place in the walk. -/
theorem isPlace_bindingPlace (h : w.WellFormed module) {scope : Nat}
    (hscope : scope < w.scopes.size) (name : String) :
    w.IsPlace module (w.bindingPlace scope name) :=
  have hlt := h.bindingScope_lt hscope name
  ⟨hlt, Fqn.liesBelow_child (h.scopes.liesAtOrBelow_ownerOf hlt) name⟩

/-- A walk stays well formed if it refers to something in one of its scopes. -/
theorem refer (h : w.WellFormed module) {scope : Nat} (hscope : scope < w.scopes.size)
    (kind : ReferenceKind) (target : UsageTarget) (location : Location) :
    (w.refer scope kind target location).WellFormed module :=
  { h with
    references := fun r hr => by
      rcases Array.mem_push.1 hr with hr | rfl
      · exact h.references r hr
      · exact hscope }

/-- A walk stays well formed if it declares a symbol at a place. -/
theorem declare (h : w.WellFormed module) {d : Declaration} (hplace : w.IsPlace module (d.scope, d.fqn))
    (hkind : d.kind ≠ .module) : (w.declare d).WellFormed module :=
  { h with
    symbols := h.symbols.declare hplace.2 hkind hplace.1
    owners := fun i s h0 hs => by
      obtain ⟨kind, hk, hdef⟩ := h.owners i s h0 hs
      simp only [Walk.declare, SymbolTable.kindOf?_declare, hk, Option.getD_some]
      -- If the owner is declared anew, it is still a class or function.
      by_cases howner : s.owner = d.fqn
      · rw [if_pos howner]
        split
        · rename_i hd
          exact ⟨_, rfl, hd⟩
        · exact ⟨kind, rfl, hdef⟩
      · rw [if_neg howner]
        exact ⟨kind, rfl, hdef⟩ }

/-- A walk with other scopes, if those of the classes and of the references are still there. -/
theorem of_scopes (h : w.WellFormed module) {t : ScopeTree} (ht : t.WellFormed module)
    (hscope : ∀ i, t.scope? i = w.scopes.scope? i) :
    ({ w with scopes := t } : Walk).WellFormed module := by
  -- A tree with the same scopes has equally many of them.
  have hsize : ∀ i, i < t.size ↔ i < w.scopes.size := fun i => by
    rw [← ScopeTree.isSome_scope?_iff, ← ScopeTree.isSome_scope?_iff, hscope]
  have heq : t.size = w.scopes.size := by
    have h₁ := hsize t.size
    have h₂ := hsize w.scopes.size
    omega
  refine ⟨ht, ?_, fun c i hi => ?_, fun i s h0 hs => ?_, fun r hr => ?_⟩
  · rw [heq]
    exact h.symbols
  · rw [heq]
    exact h.classScopes c i hi
  · rw [hscope] at hs
    exact h.owners i s h0 hs
  · rw [heq]
    exact h.references r hr

/-- A walk stays well formed if it binds a name. -/
theorem bind (h : w.WellFormed module) (i : Nat) (name : String) (target : NameTarget) :
    (w.bind i name target).WellFormed module :=
  h.of_scopes (h.scopes.bind i name target) fun j => by rw [ScopeTree.scope?_bind]

/-- A walk in which a node is opened, if the owner is defined as a class or function. -/
theorem openScope (h : w.WellFormed module) (node : Nat) {kind : ScopeKind} {owner : Fqn}
    {parent : Nat} (span : Span) (hkind : kind ≠ .module) (howner : owner.liesBelow module)
    (hparent : parent < w.scopes.size)
    (hdefined : ∃ kind, w.symbols.kindOf? owner = some kind ∧ kind.isDefinition) :
    (w.openScope node kind owner parent span).2.WellFormed module := by
  have ht := h.scopes.openFrame node span hkind howner hparent
  cases hnode : w.scopes.byNode.get? node with
  | some i =>
    rw [Walk.openScope, ScopeTree.openFrame_eq_of_some hnode]
    exact h
  | none =>
    have hsize : (w.openScope node kind owner parent span).2.scopes.size = w.scopes.size + 1 :=
      ScopeTree.size_openFrame_of_none hnode kind owner parent span
    -- Nothing refers to the new scope yet, so only its owner is to be known.
    refine ⟨ht, ?_, fun c i hi => ?_, fun i s h0 hs => ?_, fun r hr => ?_⟩
    · exact h.symbols.mono (by omega)
    · obtain ⟨hlt, hbelow⟩ := h.classScopes c i hi
      exact ⟨by omega, hbelow⟩
    · rw [show (w.openScope node kind owner parent span).2.scopes.scope? i = _ from
        ScopeTree.scope?_openFrame_of_none hnode kind owner parent span i] at hs
      split at hs
      · obtain rfl := Option.some.inj hs
        exact hdefined
      · exact h.owners i s h0 hs
    · have := h.references r hr
      omega

/-- A walk stays well formed if it queues a function. -/
theorem enqueue (h : w.WellFormed module) (f : FunctionBody) (scope : Nat) :
    (w.enqueue f scope).WellFormed module := by
  rw [enqueue_eq]
  exact ⟨h.scopes, h.symbols, h.classScopes, h.owners, h.references⟩

/-- A walk stays well formed if it binds a name in one of its scopes. -/
theorem bindName (h : w.WellFormed module) {scope : Nat} (hscope : scope < w.scopes.size)
    (word : Word) (type : BindingType) : (w.bindName scope word type).WellFormed module := by
  refine (h.declare (h.isPlace_bindingPlace hscope word.text) ?_).bind _ _ _
  dsimp only
  split <;> exact SymbolKind.noConfusion

/-- A walk stays well formed if it assigns to a member in one of its scopes. -/
theorem assignMember (h : w.WellFormed module) {scope : Nat} (hscope : scope < w.scopes.size)
    (object : Evaluated) (word : Word) (type : Option BindingType) :
    (w.assignMember scope object word type).WellFormed module := by
  rw [Walk.assignMember]
  cases howner : w.ownerOf? object with
  | none => exact h.refer hscope _ _ _
  | some owner =>
    obtain ⟨c, i⟩ := owner
    obtain ⟨hlt, hbelow⟩ := h.classScopes c i (classScopes_of_ownerOf? howner)
    have hplace : w.IsPlace module (i, c.child word.text) :=
      ⟨hlt, Fqn.liesBelow_child (Fqn.liesAtOrBelow_of_liesBelow hbelow) word.text⟩
    exact WellFormed.refer (h.declare hplace SymbolKind.noConfusion) hscope _ _ _

/-- A walk stays well formed behind a parameter in one of its scopes. -/
theorem declareParameter (h : w.WellFormed module) {scope : Nat} (hscope : scope < w.scopes.size)
    (word : Word) (type : BindingType) : (w.declareParameter scope word type).WellFormed module :=
  (h.declare ⟨hscope, Fqn.liesBelow_child (h.scopes.liesAtOrBelow_ownerOf hscope) word.text⟩
    SymbolKind.noConfusion).bind _ _ _

/-- A walk stays well formed if it opens a function, and the scope is one of the walk. -/
theorem openFunction (h : w.WellFormed module) {scope : Nat} (hscope : scope < w.scopes.size)
    (header : FunctionHeader) {place : Nat × Fqn} (hplace : w.IsPlace module place)
    (annotated : Option BindingType) :
    (w.openFunction scope header place annotated).2.WellFormed module ∧
      (w.openFunction scope header place annotated).1 <
        (w.openFunction scope header place annotated).2.scopes.size := by
  let d : Declaration := ⟨place.2, .function, annotated.getD (w.symbols.typeOf place.2), place.1,
    header.word.location⟩
  -- The function is declared before its scope is opened, so the owner is defined.
  have hdeclare : ((w.declare d).bind place.1 header.word.text (.declared place.2)).WellFormed
      module := (h.declare (d := d) hplace SymbolKind.noConfusion).bind _ _ _
  have hsize : scope < ((w.declare d).bind place.1 header.word.text
      (.declared place.2)).scopes.size := by
    rw [Walk.bind, ScopeTree.size_bind]
    exact hscope
  refine ⟨hdeclare.openScope header.node header.span ScopeKind.noConfusion hplace.2 hsize
    ⟨.function, ?_, rfl⟩, ?_⟩
  · simp [Walk.bind, Walk.declare, SymbolTable.kindOf?_declare, d, SymbolKind.isDefinition]
  · exact hdeclare.scopes.fst_openFrame_lt header.node header.span ScopeKind.noConfusion hplace.2
      hsize

/-- A walk stays well formed if it enters a function, and the scope is one of the walk. -/
theorem enterFunction (h : w.WellFormed module) {scope : Nat} (hscope : scope < w.scopes.size)
    (f : FunctionBody) {place : Nat × Fqn} (hplace : w.IsPlace module place)
    (annotated : Option BindingType) :
    (w.enterFunction scope f place annotated).2.WellFormed module ∧
      (w.enterFunction scope f place annotated).1 <
        (w.enterFunction scope f place annotated).2.scopes.size := by
  obtain ⟨hopen, hlt⟩ := h.openFunction hscope f.header hplace annotated
  refine ⟨(hopen.of_scopes (hopen.scopes.setFunction _ hplace.2) fun j => ?_).enqueue f _, ?_⟩
  · rw [ScopeTree.scope?_setFunction]
  · rw [scopes_enterFunction, ScopeTree.setFunction, ScopeTree.size_modify]
    exact hlt

/-- A walk stays well formed if it enters a class. -/
theorem enterClass (h : w.WellFormed module) {scope : Nat} (hscope : scope < w.scopes.size)
    (c : ClassHeader) {place : Nat × Fqn} (hplace : w.IsPlace module place) :
    (w.enterClass scope c place).2.WellFormed module := by
  let d : Declaration := ⟨place.2, .class, .resolved place.2, place.1, c.word.location⟩
  have hdeclare : (w.declare d).WellFormed module := h.declare hplace SymbolKind.noConfusion
  have hdefined : (w.declare d).symbols.kindOf? place.2 = some .class := by
    simp [Walk.declare, SymbolTable.kindOf?_declare, d, SymbolKind.isDefinition]
  have hopen : ((w.declare d).openScope c.node .class place.2 scope c.span).2.WellFormed module :=
    hdeclare.openScope c.node c.span ScopeKind.noConfusion hplace.2 hscope ⟨_, hdefined, rfl⟩
  have hlt : (w.enterClass scope c place).1 < (w.enterClass scope c place).2.scopes.size :=
    hdeclare.scopes.fst_openFrame_lt c.node c.span ScopeKind.noConfusion hplace.2 hscope
  -- The scope of the class is written down behind its opening.
  refine { hopen with classScopes := fun c' i hi => ?_ }
  simp only [Walk.enterClass, Table.get?_insert] at hi
  split at hi
  · rename_i hc
    obtain rfl := Option.some.inj hi
    exact ⟨hlt, hc ▸ hplace.2⟩
  · exact hopen.classScopes c' i hi

/-- A walk stays well formed if it notes a return. -/
theorem noteReturn (h : w.WellFormed module) (scope : Nat) (type : BindingType) :
    (w.noteReturn scope type).WellFormed module := by
  rw [Walk.noteReturn]
  split <;> exact ⟨h.scopes, h.symbols, h.classScopes, h.owners, h.references⟩

/-- A walk stays well formed if it ends a body. -/
theorem endBody (h : w.WellFormed module) (scope : Nat) : (w.endBody scope).WellFormed module := by
  rw [Walk.endBody]
  split
  · rename_i info hinfo
    split
    · exact h
    · refine ⟨h.scopes, h.symbols.setType (h.scopes.functions scope info hinfo) _, h.classScopes,
        fun i s h0 hs => ?_, h.references⟩
      rw [SymbolTable.kindOf?_setType]
      exact h.owners i s h0 hs
  · exact h

/-- The walk that a module starts with is well formed. -/
theorem start (m : Module) (module : Fqn) : (Walk.start m module).WellFormed module where
  scopes := .ofModule module _
  symbols := .ofModule module _
  classScopes c i hi := nomatch hi
  owners i s h0 hs := by
    have hi : i < 1 := (ScopeTree.isSome_scope?_iff (.ofModule module m.location.span) i).1 (by
      rw [show (ScopeTree.ofModule module m.location.span).scope? i = some s from hs]
      rfl)
    omega
  references r hr := absurd hr (Array.not_mem_empty r)

end Walk.WellFormed

/-- A place stays one if the walk grows. -/
theorem Walk.IsPlace.mono {module : Fqn} {w w' : Walk} {place : Nat × Fqn}
    (h : w.IsPlace module place) (hgrow : w.Grows w') : w'.IsPlace module place :=
  ⟨Nat.lt_of_lt_of_le h.1 hgrow.scopes.size_le, h.2⟩

/-! ### Machines -/

namespace Machine

/-- A well-formed machine that walks over a module. -/
structure WellFormed (module : Fqn) (M : Machine) : Prop where
  /-- The walk is well formed. -/
  walk : M.walk.WellFormed module
  /-- The definitions under way have places and scopes in the walk. -/
  definitions : ∀ d ∈ M.definitions, M.walk.IsPlace module d.place ∧ d.inner < M.walk.scopes.size

namespace WellFormed

variable {module : Fqn} {M : Machine}

/-- The place for a definition is one of the walk. -/
theorem placeOf (h : M.WellFormed module) {scope : Nat} (hscope : scope < M.walk.scopes.size)
    (node : Nat) (word : Word) : M.walk.IsPlace module (M.placeOf scope node word) := by
  rw [Machine.placeOf]
  split
  · rename_i d rest hd
    split
    · exact (h.definitions d (by rw [hd]; exact List.mem_cons_self)).1
    · exact h.walk.isPlace_bindingPlace hscope word.text
  · exact h.walk.isPlace_bindingPlace hscope word.text

/-- The scope of the definition under way is one of the walk. -/
theorem inner_lt (h : M.WellFormed module) : M.definition.inner < M.walk.scopes.size := by
  rw [Machine.definition]
  cases hd : M.definitions with
  | nil => exact h.walk.scopes.size_pos
  | cons d rest => exact (h.definitions d (by rw [hd]; exact List.mem_cons_self)).2

/-- The place of the definition under way is in a scope of the walk. -/
theorem place_lt (h : M.WellFormed module) : M.definition.place.1 < M.walk.scopes.size := by
  rw [Machine.definition]
  cases hd : M.definitions with
  | nil => exact h.walk.scopes.size_pos
  | cons d rest => exact (h.definitions d (by rw [hd]; exact List.mem_cons_self)).1.1

/-- A machine with a longer walk, whose definitions under way are of the old ones. -/
theorem of_walk (h : M.WellFormed module) {N : Machine} (hN : N.walk.WellFormed module)
    (hgrow : M.walk.Grows N.walk) (hdefinitions : N.definitions ⊆ M.definitions) :
    N.WellFormed module :=
  ⟨hN, fun d hd =>
    let ⟨hplace, hinner⟩ := h.definitions d (hdefinitions hd)
    ⟨hplace.mono hgrow, Nat.lt_of_lt_of_le hinner hgrow.scopes.size_le⟩⟩

/-- A machine that changes its innermost definition without moving it. -/
theorem redefine (h : M.WellFormed module) {g : Definition → Definition}
    (hg : ∀ d ∈ M.definitions, (g d).place = d.place ∧ (g d).inner < M.walk.scopes.size) :
    (M.redefine g).WellFormed module := by
  refine ⟨h.walk, fun d hd => ?_⟩
  rcases exists_of_mem_redefine hd with hd | ⟨d', hd', rfl⟩
  · exact h.definitions d hd
  · obtain ⟨hplace, hinner⟩ := hg d' hd'
    exact ⟨hplace ▸ (h.definitions d' hd').1, hinner⟩

end WellFormed

variable {module : Fqn} {M : Machine} (context : ImportContext)

/-- Every operation at a scope of the walk keeps a machine well formed. -/
theorem wellFormed_perform {scope : Nat} (op : Op) (h : M.WellFormed module)
    (hscope : scope < M.walk.scopes.size) : (perform context scope op M).WellFormed module := by
  have hgrow := grows_perform context scope op M
  -- The walk is well formed again by the lemma on what the operation does to it, and the definitions
  -- that are under way stay so because a walk only grows.
  cases op with
  | report | beginBody =>
    exact h.of_walk ⟨h.walk.scopes, h.walk.symbols, h.walk.classScopes, h.walk.owners,
      h.walk.references⟩ hgrow (List.Subset.refl _)
  | setBases =>
    exact h.of_walk ⟨h.walk.scopes, h.walk.symbols.setBases _ _, h.walk.classScopes, h.walk.owners,
      h.walk.references⟩ hgrow (List.Subset.refl _)
  | readName | readMember =>
    exact h.of_walk (h.walk.refer hscope _ _ _) hgrow (List.Subset.refl _)
  | constant | call | combine | instantiate | discard | hint | noHint | discardHint | annotate =>
    exact h.of_walk h.walk hgrow (List.Subset.refl _)
  | bindName word => exact h.of_walk (h.walk.bindName hscope _ _) hgrow (List.Subset.refl _)
  | assignMember | keepMember =>
    exact h.of_walk (h.walk.assignMember hscope _ _ _) hgrow (List.Subset.refl _)
  | place node word =>
    refine ⟨h.walk, fun d hd => ?_⟩
    rcases List.mem_cons.1 hd with rfl | hd
    · exact ⟨h.walk.isPlace_bindingPlace hscope word.text, h.walk.scopes.size_pos⟩
    · exact h.definitions d hd
  | enterFunction f =>
    obtain ⟨hwalk, hlt⟩ := h.walk.enterFunction hscope f (h.placeOf hscope f.header.node
      f.header.word) M.annotation
    exact (h.of_walk (N := M.popHint.setWalk _) hwalk hgrow (List.Subset.refl _)).redefine
      fun d _ => ⟨rfl, hlt⟩
  | parameter word =>
    have hwalk := h.of_walk (N := M.popHint.setWalk _)
      (h.walk.declareParameter h.inner_lt word _) hgrow (List.Subset.refl _)
    exact hwalk.redefine fun d hd => ⟨rfl, (hwalk.definitions d hd).2⟩
  | leaveFunction => exact h.of_walk h.walk hgrow (fun _ => List.mem_of_mem_tail)
  | enterClass c =>
    exact h.of_walk (h.walk.enterClass hscope c (h.placeOf hscope c.node c.word)) hgrow
      (List.Subset.refl _)
  | base =>
    exact (h.of_walk (N := M.pop) h.walk hgrow (List.Subset.refl _)).redefine
      fun d hd => ⟨rfl, (h.definitions d hd).2⟩
  | leaveClass word => exact h.of_walk (h.walk.bind _ _ _) hgrow (fun _ => List.mem_of_mem_tail)
  | bindImport b => exact h.of_walk (h.walk.bind _ _ _) hgrow (List.Subset.refl _)
  | declareGlobal name =>
    exact h.of_walk (h.walk.of_scopes (h.walk.scopes.declareGlobal _ _) fun j => by
      rw [ScopeTree.scope?_declareGlobal]) hgrow (List.Subset.refl _)
  | declareNonlocal name =>
    exact h.of_walk (h.walk.of_scopes (h.walk.scopes.declareNonlocal _ _) fun j => by
      rw [ScopeTree.scope?_declareNonlocal]) hgrow (List.Subset.refl _)
  | noteReturn => exact h.of_walk (h.walk.noteReturn _ _) hgrow (List.Subset.refl _)
  | endBody => exact h.of_walk (h.walk.endBody _) hgrow (List.Subset.refl _)

/-- A run keeps a machine well formed. -/
theorem wellFormed_run (P : List Action) (h : M.WellFormed module) :
    (run context P M).WellFormed module := by
  induction P generalizing M with
  | nil => exact h
  | cons a rest ih =>
    exact ih (wellFormed_perform context a.op h (h.walk.scopes.resolve_lt a.site))

end Machine

/-- A machine that begins a well-formed walk is well formed. -/
theorem Machine.WellFormed.ofWalk {module : Fqn} {w : Walk} (h : w.WellFormed module) :
    (Machine.ofWalk w).WellFormed module :=
  ⟨{ h with references := fun r hr => absurd hr (Array.not_mem_empty r) }, nofun⟩

/-- Every walk over a module is well formed. -/
theorem Walk.wellFormed_walks (context : ImportContext) (m : Module) (k : Nat) :
    (walks context m k).WellFormed context.module := by
  induction k with
  | zero => exact .start m context.module
  | succ k ih =>
    have hrun := Machine.wellFormed_run context m.program (.ofWalk ih)
    rw [run_program] at hrun
    exact hrun.walk

end NameAtlas.Python
