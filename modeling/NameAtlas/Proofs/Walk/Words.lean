import NameAtlas.Proofs.Walk.Faithful
import NameAtlas.Proofs.Walk.Logged

/-!
# The words that name symbols

What an operation says of a place, it says of a place where one of its words stands, unless it
reports something (`Op.Takes.exists_word`). And the operations that declare a symbol let its name end
in one of their words: if all words of a module are of one sort, the name of every symbol besides the
module ends in a word of this sort (`Walk.named_walks`).
-/

namespace NameAtlas.Python

variable {W : Word → Prop} {I : ImportBinding → Prop}

/-- Where an operation makes a mark that is no report, one of its words stands. -/
theorem Op.Takes.exists_word {op : Op} (h : op.Takes W I) {mark : Mark} (hmark : mark ∈ op.marks)
    (hkind : mark.kind ≠ .report) : ∃ word, W word ∧ mark.location = word.location := by
  -- A mark that is no report stands at the word that the operation is about.
  cases op with
  | report code message location =>
    rw [Multiset.mem_singleton.1 hmark] at hkind
    exact absurd rfl hkind
  | readName word | readMember word | bindName word | parameter word =>
    exact ⟨word, h, by rw [Multiset.mem_singleton.1 hmark]⟩
  | assignMember word | keepMember word =>
    have hmark : mark ∈ ({⟨.reference, word.location⟩, ⟨.symbol, word.location⟩} : Multiset Mark) :=
      hmark
    refine ⟨word, h, ?_⟩
    rcases Multiset.mem_cons.1 hmark with rfl | hmark
    · rfl
    · rw [Multiset.mem_singleton.1 hmark]
  | enterFunction f => exact ⟨f.header.word, h, by rw [Multiset.mem_singleton.1 hmark]⟩
  | enterClass c => exact ⟨c.word, h, by rw [Multiset.mem_singleton.1 hmark]⟩
  | _ => exact absurd hmark (Multiset.notMem_zero mark)

/-- Where some operations make a mark that is no report, one of their words stands. -/
theorem Takes.exists_word {ops : List Op} (h : Takes W I ops) {mark : Mark}
    (hmark : mark ∈ marksOf ops) (hkind : mark.kind ≠ .report) :
    ∃ word, W word ∧ mark.location = word.location := by
  induction ops with
  | nil => exact absurd hmark (Multiset.notMem_zero mark)
  | cons op rest ih =>
    rw [marksOf_cons] at hmark
    rcases Multiset.mem_add.1 hmark with hmark | hmark
    · exact (h op List.mem_cons_self).exists_word hmark hkind
    · exact ih (fun op' h' => h op' (List.mem_cons_of_mem op h')) hmark

/-- True for a name that ends in a word of `W`. -/
def EndsIn (W : Word → Prop) (f : Fqn) : Prop := ∃ word, W word ∧ f.name? = some word.text

/-- A child by a word ends in the word. -/
theorem endsIn_child {word : Word} (h : W word) (f : Fqn) : EndsIn W (f.child word.text) :=
  ⟨word, h, Fqn.name?_child f word.text⟩

/-- True if the name of every symbol but the module ends in a word of `W`. -/
def SymbolTable.Named (W : Word → Prop) (module : Fqn) (t : SymbolTable) : Prop :=
  ∀ fqn d, fqn ≠ module → t.get? fqn = some d → EndsIn W fqn

namespace SymbolTable.Named

variable {module : Fqn} {t : SymbolTable}

/-- A table stays named behind a declaration of a name that ends in a word. -/
theorem declare (h : t.Named W module) {d : Declaration} (hd : EndsIn W d.fqn) :
    (t.declare d).Named W module := by
  intro fqn e hne he
  rw [get?_declare] at he
  split at he
  · next hfqn => exact hfqn ▸ hd
  · exact h fqn e hne he

/-- A table stays named if a type is set. -/
theorem setType (h : t.Named W module) (fqn : Fqn) (type : BindingType) :
    (t.setType fqn type).Named W module := by
  intro fqn' e hne he
  rw [get?_setType] at he
  split at he
  · rename_i hfqn
    obtain ⟨d, hd, -⟩ := Option.map_eq_some_iff.1 he
    exact h fqn' d hne (hfqn ▸ hd)
  · exact h fqn' e hne he

end SymbolTable.Named

namespace Machine

/-- A machine in which the names of the symbols end in words of `W`, as do those of the definitions
under way. -/
structure Named (W : Word → Prop) (module : Fqn) (M : Machine) : Prop where
  /-- The symbols. -/
  symbols : M.walk.symbols.Named W module
  /-- The definitions under way. -/
  definitions : ∀ d ∈ M.definitions, EndsIn W d.place.2

namespace Named

variable {module : Fqn} {M : Machine}

/-- A definition is entered under a name that ends in a word of `W`. -/
theorem endsIn_placeOf (h : M.Named W module) {word : Word} (hword : W word) (scope node : Nat) :
    EndsIn W (M.placeOf scope node word).2 := by
  have hplace : EndsIn W (M.walk.bindingPlace scope word.text).2 := endsIn_child hword _
  rw [placeOf]
  split
  · next d rest hd =>
    split
    · exact h.definitions d (by rw [hd]; exact List.mem_cons_self)
    · exact hplace
  · exact hplace

/-- A machine stays named if the definition under way keeps its place. -/
theorem redefine (h : M.Named W module) {g : Definition → Definition}
    (hg : ∀ d, (g d).place = d.place) : (M.redefine g).Named W module := by
  refine ⟨h.symbols, fun d hd => ?_⟩
  rcases exists_of_mem_redefine hd with hd | ⟨d', hd', rfl⟩
  · exact h.definitions d hd
  · rw [hg]
    exact h.definitions d' hd'

/-- A machine with a longer walk, whose definitions under way are of the old ones. -/
theorem of_walk (h : M.Named W module) {N : Machine} (hN : N.walk.symbols.Named W module)
    (hdefinitions : N.definitions ⊆ M.definitions) : N.Named W module :=
  ⟨hN, fun d hd => h.definitions d (hdefinitions hd)⟩

end Named

variable {module : Fqn} {M : Machine}

/-- An operation declares symbols under names that end in its words. -/
theorem named_perform (context : ImportContext) (scope : Nat) {op : Op} (hop : op.Takes W I)
    (h : M.Named W module) : (perform context scope op M).Named W module := by
  have hassign (object : Evaluated) (word : Word) (type : Option BindingType) (hword : W word) :
      (M.walk.assignMember scope object word type).symbols.Named W module := by
    rw [Walk.assignMember]
    split
    · exact h.symbols.declare (endsIn_child hword _)
    · exact h.symbols
  have hsame : M.definitions ⊆ M.definitions := List.Subset.refl _
  have htail : M.definitions.tail ⊆ M.definitions := fun _ => List.mem_of_mem_tail
  -- A name is made where a symbol is declared or where a place is found.
  cases op with
  | bindName word => exact h.of_walk (h.symbols.declare (endsIn_child hop _)) hsame
  | assignMember word => exact h.of_walk (hassign M.value word (some M.pop.value.type) hop) hsame
  | keepMember word => exact h.of_walk (hassign M.value word none hop) hsame
  | place node word =>
    exact ⟨h.symbols, List.forall_mem_cons.2 ⟨endsIn_child hop _, h.definitions⟩⟩
  | parameter word =>
    have hwalk (type : BindingType) : (M.walk.declareParameter M.definition.inner word
        type).symbols.Named W module := h.symbols.declare (endsIn_child hop _)
    exact (h.of_walk (N := M.popHint.setWalk _) (hwalk _) hsame).redefine fun _ => rfl
  | enterFunction f =>
    have hplace := h.endsIn_placeOf hop scope f.header.node
    have hwalk : (M.walk.enterFunction scope f (M.placeOf scope f.header.node f.header.word)
        M.annotation).2.symbols.Named W module := by
      rw [Walk.symbols_enterFunction]
      exact h.symbols.declare hplace
    exact (h.of_walk (N := M.popHint.setWalk _) hwalk hsame).redefine fun _ => rfl
  | enterClass c => exact h.of_walk (h.symbols.declare (h.endsIn_placeOf hop _ _)) hsame
  | leaveFunction => exact h.of_walk h.symbols htail
  | leaveClass word => exact h.of_walk h.symbols htail
  | base => exact (h.of_walk (N := M.pop) h.symbols hsame).redefine fun _ => rfl
  | noteReturn =>
    refine h.of_walk ?_ hsame
    simp only [perform, setWalk, Walk.symbols_noteReturn]
    exact h.symbols
  | endBody =>
    refine h.of_walk ?_ hsame
    simp only [perform, setWalk, Walk.endBody]
    split
    · split
      · exact h.symbols
      · exact h.symbols.setType _ _
    · exact h.symbols
  | _ => exact h.of_walk h.symbols hsame

/-- A run keeps a machine named. -/
theorem named_run (context : ImportContext) {P : List Action} (hP : ∀ a ∈ P, a.op.Takes W I)
    (h : M.Named W module) : (run context P M).Named W module := by
  induction P generalizing M with
  | nil => exact h
  | cons a rest ih =>
    exact ih (fun a' ha' => hP a' (List.mem_cons_of_mem a ha'))
      (named_perform context _ (hP a List.mem_cons_self) h)

end Machine

/-- In every walk the names of the symbols besides the module end in words of the module. -/
theorem Walk.named_walks {context : ImportContext} {m : Module}
    (hm : ∀ a ∈ m.program, a.op.Takes W I) (k : Nat) :
    (walks context m k).symbols.Named W context.module := by
  induction k with
  | zero =>
    intro fqn d hne hd
    simp only [walks, start, SymbolTable.get?_declare, if_neg hne] at hd
    cases hd
  | succ k ih =>
    have hrun := Machine.named_run context hm (M := .ofWalk (walks context m k)) ⟨ih, List.forall_mem_nil _⟩
    rw [run_program] at hrun
    exact hrun.symbols

end NameAtlas.Python
