import NameAtlas.Proofs.Walk.Agreement
import NameAtlas.Proofs.Walk.Replay

/-!
# Walks that have settled

A walk that leaves the types as they were need not be the last one to change any: it can have
changed the bases of a class, and a walk reads bases. But if it has left the bases as they were too,
then no further walk changes a type (`types_walks_of_settled`): without `global` and `nonlocal`
statements all that a walk reads is the same again (`sameMeanings_walks`), and so are the next
walks. That needs a walk behind the first one. If the first walk itself leaves the types as they
were, then it has declared nothing, and no walk does.
-/

namespace NameAtlas.Python

/-! ### Modules that declare nothing -/

/-- True for operations that declare a symbol wherever they are performed. -/
def Op.declares : Op → Bool
  | .bindName _ | .enterFunction _ | .parameter _ | .enterClass _ => true
  | _ => false

/-- A walk that has met no class and no function. -/
structure Walk.Blank (w : Walk) : Prop where
  /-- No class has a scope. -/
  classScopes : ∀ c, w.classScopes.get? c = none
  /-- No scope is that of a function. -/
  functions : ∀ i, w.scopes.function? i = none

/-- Where there is no class, nothing has members that could be assigned. -/
theorem Walk.Blank.ownerOf? {w : Walk} (h : w.Blank) (object : Evaluated) :
    w.ownerOf? object = none := by
  cases howner : w.ownerOf? object with
  | none => rfl
  | some owner =>
    have hclass := Walk.classScopes_of_ownerOf? howner
    rw [h.classScopes] at hclass
    cases hclass

namespace Machine

variable (context : ImportContext) {module : Fqn} {M : Machine}

/-- What is declared lies below the module. -/
theorem exists_declared_of_declares (hM : M.WellFormed module) {scope : Nat}
    (hscope : scope < M.walk.scopes.size) {op : Op} (hop : op.declares) :
    ∃ fqn, fqn.liesBelow module ∧
      fqn ∈ (perform context scope op M).walk.symbols.declarations.keys := by
  -- The symbol is the name at the place where the operation binds it.
  simp only [← SymbolTable.isSome_kindOf?_iff]
  cases op with
  | bindName word =>
    exact ⟨_, (hM.walk.isPlace_bindingPlace hscope word.text).2,
      SymbolTable.isSome_kindOf?_declare _ _⟩
  | enterFunction f =>
    refine ⟨_, (hM.placeOf hscope f.header.node f.header.word).2, ?_⟩
    simp only [perform, setWalk, Walk.symbols_enterFunction]
    exact SymbolTable.isSome_kindOf?_declare _ _
  | parameter word =>
    exact ⟨_, Fqn.liesBelow_child (hM.walk.scopes.liesAtOrBelow_ownerOf hM.inner_lt) word.text,
      SymbolTable.isSome_kindOf?_declare _ _⟩
  | enterClass c =>
    exact ⟨_, (hM.placeOf hscope c.node c.word).2, SymbolTable.isSome_kindOf?_declare _ _⟩
  | _ => cases hop

/-- Where there is no class and no function, an operation that declares nothing changes no type. -/
theorem blank_perform (scope : Nat) {op : Op} (hop : op.declares = false) (h : M.walk.Blank) :
    (perform context scope op M).walk.Blank ∧
      (perform context scope op M).walk.symbols.types = M.walk.symbols.types := by
  cases op with
  | bindName | enterFunction | parameter | enterClass => cases hop
  | assignMember | keepMember =>
    simp only [perform, setWalk, Walk.assignMember, h.ownerOf?]
    exact ⟨⟨h.classScopes, h.functions⟩, rfl⟩
  | leaveClass | bindImport =>
    exact ⟨⟨h.classScopes, fun i => (ScopeTree.function?_bind _ _ _ _ _).trans (h.functions i)⟩, rfl⟩
  | declareGlobal name =>
    exact ⟨⟨h.classScopes, fun i =>
      (ScopeTree.function?_declareGlobal _ _ _ _).trans (h.functions i)⟩, rfl⟩
  | declareNonlocal name =>
    exact ⟨⟨h.classScopes, fun i =>
      (ScopeTree.function?_declareNonlocal _ _ _ _).trans (h.functions i)⟩, rfl⟩
  | noteReturn =>
    -- What a return notes is kept for the end of a body, and without functions no body ends.
    refine ⟨⟨fun c => ?_, fun i => ?_⟩, ?_⟩ <;>
      simp only [perform, setWalk, Walk.classScopes_noteReturn, Walk.scopes_noteReturn,
        Walk.symbols_noteReturn]
    · exact h.classScopes c
    · exact h.functions i
  | endBody =>
    have hfunction : (M.walk.scopes.frame? scope).bind Frame.function = none := h.functions scope
    simp only [perform, setWalk, Walk.endBody, hfunction]
    exact ⟨h, trivial⟩
  | _ => exact ⟨⟨h.classScopes, h.functions⟩, rfl⟩

/-- A run that declares nothing leaves the types, and meets no class and no function. -/
theorem blank_run {P : List Action} (hP : ∀ a ∈ P, a.op.declares = false) (h : M.walk.Blank) :
    (run context P M).walk.Blank ∧
      (run context P M).walk.symbols.types = M.walk.symbols.types := by
  induction P generalizing M with
  | nil => exact ⟨h, rfl⟩
  | cons a rest ih =>
    obtain ⟨hblank, htypes⟩ := blank_perform context (M.walk.scopes.resolve a.site)
      (hP a List.mem_cons_self) h
    obtain ⟨hrun, heq⟩ := ih (M := step context M a) (fun a' ha' => hP a' (List.mem_cons_of_mem a ha'))
      hblank
    exact ⟨hrun, heq.trans htypes⟩

/-- A run that declares a symbol declares one below the module. -/
theorem exists_declared_run (hM : M.WellFormed module) {P : List Action} {a : Action}
    (ha : a ∈ P) (hop : a.op.declares) :
    ∃ fqn, fqn.liesBelow module ∧ fqn ∈ (run context P M).walk.symbols.declarations.keys := by
  obtain ⟨before, after, rfl⟩ := List.append_of_mem ha
  have hbefore := wellFormed_run context before hM
  obtain ⟨fqn, hbelow, hmem⟩ := exists_declared_of_declares context hbefore
    (hbefore.walk.scopes.resolve_lt a.site) hop
  rw [run_append]
  exact ⟨fqn, hbelow, (grows_run context after _).symbols.subset hmem⟩

end Machine

namespace Walk

variable (context : ImportContext) (m : Module)

/-- If the first walk leaves the types as they were, then it declares nothing. -/
theorem declares_eq_false_of_types (h : (walks context m 1).symbols.types =
    (walks context m 0).symbols.types) : ∀ a ∈ m.program, a.op.declares = false := by
  intro a ha
  by_contra hop
  obtain ⟨fqn, hbelow, hmem⟩ := Machine.exists_declared_run context
    (.ofWalk (wellFormed_walks context m 0)) ha (by simpa using hop)
  rw [run_program, SymbolTable.keys_eq, h] at hmem
  exact Fqn.ne_of_liesBelow hbelow (List.mem_singleton.1 hmem)

/-- If the first walk leaves the types as they were, then all walks do. -/
theorem types_walks_of_first (h : (walks context m 1).symbols.types =
    (walks context m 0).symbols.types) (k : Nat) :
    (walks context m k).symbols.types = (walks context m 0).symbols.types := by
  -- No action declares anything, as the first walk would have shown.
  have hprogram := declares_eq_false_of_types context m h
  have hall : (walks context m k).Blank ∧
      (walks context m k).symbols.types = (walks context m 0).symbols.types := by
    induction k with
    | zero =>
      exact ⟨⟨fun _ => rfl, ScopeTree.function?_ofModule _ _⟩, rfl⟩
    | succ k ih =>
      have hrun := Machine.blank_run context (M := .ofWalk (walks context m k)) hprogram
        ⟨ih.1.classScopes, ih.1.functions⟩
      rw [run_program] at hrun
      exact ⟨hrun.1, hrun.2.trans ih.2⟩
  exact hall.2

/-! ### Modules that declare something -/

/-- If a walk leaves the types and the bases as they were, and also what names mean if some are
declared `global` or `nonlocal`, then no further walk changes a type. -/
theorem types_walks_of_settled {k : Nat}
    (htypes : (walks context m (k + 1)).symbols.types = (walks context m k).symbols.types)
    (hbases : ∀ c, (walks context m (k + 1)).symbols.basesOf c =
      (walks context m k).symbols.basesOf c)
    (hnames : declaresScopeIn m.body = false ∨
      (walks context m k).SameMeanings (walks context m (k + 1))) {l : Nat} (hl : k ≤ l) :
    (walks context m l).symbols.types = (walks context m k).symbols.types := by
  -- The first walk opens the scopes, so the argument by agreement begins behind it.
  rcases Nat.eq_zero_or_pos k with rfl | hk
  · exact types_walks_of_first context m htypes l
  · have hkeys : (walks context m (k + 1)).symbols.declarations.keys =
        (walks context m k).symbols.declarations.keys := by
      rw [SymbolTable.keys_eq, SymbolTable.keys_eq, htypes]
    have hmeanings := hnames.elim (fun hscope => sameMeanings_walks context hscope hk hkeys) id
    have hagrees := hmeanings.agrees (sameLayout_walks_succ context m hk) htypes hbases
    induction hl with
    | refl => rfl
    | step hl ih => exact (agrees_walks context m hk hl hagrees).symbols.types.trans ih

end Walk

end NameAtlas.Python
