import NameAtlas.Proofs.Walk.Names
import NameAtlas.Proofs.Walk.Openings
import NameAtlas.Proofs.Walk.Reads
import NameAtlas.Proofs.Walk.Sites
import NameAtlas.Proofs.Walk.WellFormed

/-!
# Walks that write the same again

Without `global` and `nonlocal` statements a name is bound in the scope where it is written, and so
every binding, every definition and every method is written at the same place in each walk. What
types decide is only to which members something is assigned, and that changes no binding, and no
kind of a symbol that has one. Hence, if a walk declares no new symbol, then what it leaves behind
besides types and bases is what the walk before it has left: each value has been written again as
that walk wrote it, or has not been touched (`Replayed`).
-/

namespace NameAtlas.Python

/-- True if the second of two walks has written a value as the first one did, or if it still has the
value that the first one left in the end. -/
def Replayed {α : Type} (last first second : α) : Prop := second = first ∨ second = last

/-- The second of two walks has written what the first one has, or still has what it left. -/
structure Walk.Replays (last first second : Walk) : Prop where
  /-- What names are bound to. -/
  bindings : ∀ i name, Replayed (last.scopes.binding? i name) (first.scopes.binding? i name)
    (second.scopes.binding? i name)
  /-- The classes that functions are methods of. -/
  methods : ∀ i, Replayed (last.scopes.methodClass? i) (first.scopes.methodClass? i)
    (second.scopes.methodClass? i)
  /-- The kinds of the symbols. -/
  kinds : ∀ fqn, Replayed (last.symbols.kindOf? fqn) (first.symbols.kindOf? fqn)
    (second.symbols.kindOf? fqn)
  /-- The scopes of the bodies of classes. -/
  classScopes : ∀ c, Replayed (last.classScopes.get? c) (first.classScopes.get? c)
    (second.classScopes.get? c)

namespace Walk.Replays

variable {last first second : Walk}

/-- The second walk begins with what the first one has left. -/
theorem start (last first : Walk) : last.Replays first last :=
  ⟨fun _ _ => .inr rfl, fun _ => .inr rfl, fun _ => .inr rfl, fun _ => .inr rfl⟩

/-- Walks with the scopes, kinds and class scopes of others. -/
theorem congr (h : last.Replays first second) {first' second' : Walk}
    (hscopes : first'.scopes = first.scopes)
    (hkinds : first'.symbols.kindOf? = first.symbols.kindOf?)
    (hclasses : first'.classScopes = first.classScopes) (hscopes' : second'.scopes = second.scopes)
    (hkinds' : second'.symbols.kindOf? = second.symbols.kindOf?)
    (hclasses' : second'.classScopes = second.classScopes) : last.Replays first' second' where
  bindings := by rw [hscopes, hscopes']; exact h.bindings
  methods := by rw [hscopes, hscopes']; exact h.methods
  kinds := by rw [hkinds, hkinds']; exact h.kinds
  classScopes := by rw [hclasses, hclasses']; exact h.classScopes

/-- Binding a name to the same in the same scope of both. -/
theorem bind (h : last.Replays first second) {i : Nat} (hfirst : i < first.scopes.size)
    (hsecond : i < second.scopes.size) (name : String) (target : NameTarget) :
    last.Replays (first.bind i name target) (second.bind i name target) where
  bindings j name' := by
    simp only [Walk.bind, ScopeTree.binding?_bind, hfirst, hsecond, and_true]
    split
    · exact .inl rfl
    · exact h.bindings j name'
  methods j := by
    simp only [Walk.bind, ScopeTree.methodClass?, ScopeTree.function?_bind]
    exact h.methods j
  kinds := h.kinds
  classScopes := h.classScopes

/-- In the first walk a symbol gets a kind that it has in the second one already. -/
theorem declare_first (h : last.Replays first second) {d : Declaration}
    (hkind : d.kind.isDefinition = false) (hknown : (second.symbols.kindOf? d.fqn).isSome) :
    last.Replays (first.declare d) second :=
  { h with
    kinds := fun fqn => by
      simp only [Walk.declare, SymbolTable.kindOf?_declare, hkind, Bool.false_eq_true, if_false]
      split
      · rename_i hfqn
        subst hfqn
        -- The second walk knows the symbol, and keeps the kind that it has.
        rcases h.kinds d.fqn with heq | heq
        · obtain ⟨kind, hsecond⟩ := Option.isSome_iff_exists.1 hknown
          rw [hsecond] at heq
          rw [← heq]
          exact .inl hsecond
        · exact .inr heq
      · exact h.kinds fqn }

/-- In the second walk a symbol keeps the kind that it has. -/
theorem declare_second (h : last.Replays first second) {d : Declaration}
    (hkind : d.kind.isDefinition = false) (hknown : (second.symbols.kindOf? d.fqn).isSome) :
    last.Replays first (second.declare d) := by
  refine h.congr rfl rfl rfl rfl (funext fun fqn => ?_) rfl
  simp only [Walk.declare, SymbolTable.kindOf?_declare, hkind, Bool.false_eq_true, if_false]
  split
  · rename_i hfqn
    subst hfqn
    obtain ⟨kind, hsecond⟩ := Option.isSome_iff_exists.1 hknown
    rw [hsecond]
    rfl
  · rfl

/-- A definition gives a symbol the same kind in both. -/
theorem declare_definition (h : last.Replays first second) (d d' : Declaration)
    (hfqn : d'.fqn = d.fqn) (hkind : d'.kind = d.kind) (hdef : d.kind.isDefinition) :
    last.Replays (first.declare d) (second.declare d') :=
  { h with
    kinds := fun fqn => by
      simp only [Walk.declare, SymbolTable.kindOf?_declare, hfqn, hkind, hdef, if_true]
      split
      · exact .inl rfl
      · exact h.kinds fqn }

/-- Opening a scope binds nothing. -/
theorem openScope (h : last.Replays first second) (node : Nat) (kind : ScopeKind) (owner : Fqn)
    (parent : Nat) (span : Span) :
    last.Replays (first.openScope node kind owner parent span).2
      (second.openScope node kind owner parent span).2 :=
  { h with
    bindings := fun i name => by
      simp only [Walk.openScope, ScopeTree.binding?_openFrame]
      exact h.bindings i name
    methods := fun i => by
      simp only [Walk.openScope, ScopeTree.methodClass?, ScopeTree.function?_openFrame]
      exact h.methods i }

end Walk.Replays

/-! ### Two walks side by side -/

/-- A walk over a module on the way to `last`, and one from there on that declares nothing new. -/
structure Walk.Follows (module : Fqn) (last first second : Walk) : Prop where
  /-- The first walk is well formed. -/
  wellFormed : first.WellFormed module
  /-- It opens the scopes that are open in the end. -/
  scopes : first.scopes.Extends last.scopes
  /-- The second one finds them all. -/
  layout : last.scopes.SameLayout second.scopes
  /-- The first walk declares symbols that are declared in the end. -/
  declared : ∀ fqn, (first.symbols.kindOf? fqn).isSome → (last.symbols.kindOf? fqn).isSome
  /-- The second one declares none but these. -/
  known : ∀ fqn, (second.symbols.kindOf? fqn).isSome ↔ (last.symbols.kindOf? fqn).isSome
  /-- In the first walk no name is declared `global` or `nonlocal`. -/
  undeclared : first.scopes.Undeclared
  /-- In the second one none is either. -/
  undeclared' : second.scopes.Undeclared

namespace Walk.Follows

variable {module : Fqn} {last first second : Walk}

/-- A site of the first walk has its scope in the second. -/
theorem resolves (h : last.Follows module first second) {s : Site} {i : Nat}
    (hi : first.scopes.Resolves s i) : second.scopes.Resolves s i := by
  have hlast := hi.mono h.scopes
  cases s with
  | module => exact hi
  | body node =>
    rw [ScopeTree.Resolves, h.layout.byNode]
    exact hlast

/-- A scope of the first walk is one of the second. -/
theorem lt (h : last.Follows module first second) {i : Nat} (hi : i < first.scopes.size) :
    i < second.scopes.size := by
  rw [h.layout.size]
  exact Nat.lt_of_lt_of_le hi h.scopes.size_le

/-- The second walk has the scopes of the first. -/
theorem scope? (h : last.Follows module first second) {i : Nat} (hi : i < first.scopes.size) :
    second.scopes.scope? i = first.scopes.scope? i := by
  obtain ⟨s, hs⟩ := Option.isSome_iff_exists.1 ((ScopeTree.isSome_scope?_iff _ i).2 hi)
  rw [h.layout.scope?, hs, h.scopes.scope? i s hs]

/-- The scopes of the first walk have the same owners in the second. -/
theorem ownerOf (h : last.Follows module first second) {i : Nat} (hi : i < first.scopes.size) :
    second.scopes.ownerOf i = first.scopes.ownerOf i := by
  rw [ScopeTree.ownerOf_eq, ScopeTree.ownerOf_eq, h.scope? hi]

/-- The methods of the first walk are of the same classes in the second. -/
theorem methodOwner? (h : last.Follows module first second) {i : Nat}
    (hi : i < first.scopes.size) : second.methodOwner? i = first.methodOwner? i := by
  rw [Walk.methodOwner?, Walk.methodOwner?, h.ownerOf hi, ScopeTree.kindOf_eq, ScopeTree.kindOf_eq,
    h.scope? hi]

/-- A name is bound where it is written. -/
theorem bindingPlace (h : last.Follows module first second) {i : Nat}
    (hi : i < first.scopes.size) (name : String) :
    first.bindingPlace i name = (i, (first.scopes.ownerOf i).child name) ∧
      second.bindingPlace i name = (i, (first.scopes.ownerOf i).child name) := by
  simp only [Walk.bindingPlace, h.undeclared.bindingScope_eq, h.undeclared'.bindingScope_eq,
    h.ownerOf hi, and_self]

end Walk.Follows

namespace Walk.Replays

variable {module : Fqn} {last first second : Walk}

/-- Declaring a variable, attribute or parameter and binding its name, in the same scope of both. -/
theorem declareBind (h : last.Replays first second) (hF : last.Follows module first second)
    {fqn : Fqn} {d d' : Declaration} {i : Nat} {name : String}
    (hF' : last.Follows module ((first.declare d).bind i name (.declared fqn))
      ((second.declare d').bind i name (.declared fqn)))
    (hfqn : d.fqn = fqn) (hfqn' : d'.fqn = fqn) (hkind : d.kind.isDefinition = false)
    (hkind' : d'.kind.isDefinition = false) (hi : i < first.scopes.size) :
    last.Replays ((first.declare d).bind i name (.declared fqn))
      ((second.declare d').bind i name (.declared fqn)) := by
  subst hfqn
  have hknown : (second.symbols.kindOf? d.fqn).isSome :=
    (hF.known d.fqn).2 (hF'.declared d.fqn (SymbolTable.isSome_kindOf?_declare _ _))
  have hdeclare := (h.declare_first hkind hknown).declare_second hkind' (hfqn' ▸ hknown)
  exact hdeclare.bind hi (hF.lt hi) name (.declared d.fqn)

/-- The second walk replays a binding of a name. -/
theorem bindName (h : last.Replays first second) (hF : last.Follows module first second)
    {scope : Nat} (hscope : scope < first.scopes.size) (word : Word) (type type' : BindingType)
    (hF' : last.Follows module (first.bindName scope word type)
      (second.bindName scope word type')) :
    last.Replays (first.bindName scope word type) (second.bindName scope word type') := by
  have hkind (p : Prop) [Decidable p] :
      (if p then SymbolKind.attribute else .variable).isDefinition = false := by
    split <;> rfl
  obtain ⟨hfirst, hsecond⟩ := hF.bindingPlace hscope word.text
  simp only [Walk.bindName, hfirst, hsecond] at hF' ⊢
  exact h.declareBind hF hF' rfl rfl (hkind _) (hkind _) hscope

/-- The second walk replays a parameter. -/
theorem declareParameter (h : last.Replays first second) (hF : last.Follows module first second)
    {scope : Nat} (hscope : scope < first.scopes.size) (word : Word) (type type' : BindingType)
    (hF' : last.Follows module (first.declareParameter scope word type)
      (second.declareParameter scope word type')) :
    last.Replays (first.declareParameter scope word type)
      (second.declareParameter scope word type') := by
  simp only [Walk.declareParameter, hF.ownerOf hscope] at hF' ⊢
  exact h.declareBind hF hF' rfl rfl rfl rfl hscope

/-- What is assigned to may be another member in each, but never a symbol without a kind. -/
theorem assignMember (h : last.Replays first second) (hF : last.Follows module first second)
    (scope : Nat) (object object' : Evaluated) (word : Word) (type type' : Option BindingType)
    (hF' : last.Follows module (first.assignMember scope object word type)
      (second.assignMember scope object' word type')) :
    last.Replays (first.assignMember scope object word type)
      (second.assignMember scope object' word type') := by
  -- The declarations may be of different members, so they are made one after the other.
  have hfirst : last.Replays (first.assignMember scope object word type) second := by
    have hdeclared := hF'.declared
    rw [Walk.assignMember] at hdeclared ⊢
    split
    · rename_i c i howner
      rw [howner] at hdeclared
      have hknown := hdeclared _ (SymbolTable.isSome_kindOf?_declare _ _)
      exact (h.declare_first rfl ((hF.known _).2 hknown)).congr rfl rfl rfl rfl rfl rfl
    · exact h.congr rfl rfl rfl rfl rfl rfl
  have hknown := hF'.known
  generalize first.assignMember scope object word type = first' at hfirst ⊢
  rw [Walk.assignMember] at hknown ⊢
  split
  · rename_i c i howner
    rw [howner] at hknown
    have hsome := (hknown _).1 (SymbolTable.isSome_kindOf?_declare _ _)
    exact (hfirst.declare_second rfl ((hF.known _).2 hsome)).congr rfl rfl rfl rfl rfl rfl
  · exact hfirst.congr rfl rfl rfl rfl rfl rfl

/-- A function is defined in the scope of the same site, and has the same class around it. -/
theorem enterFunction (h : last.Replays first second) (hF : last.Follows module first second)
    {scope : Nat} (hscope : scope < first.scopes.size) (f : FunctionBody) {place : Nat × Fqn}
    (hplace : place.1 < first.scopes.size) (annotated annotated' : Option BindingType)
    (hF' : last.Follows module (first.enterFunction scope f place annotated).2
      (second.enterFunction scope f place annotated').2) :
    (second.enterFunction scope f place annotated').1 =
        (first.enterFunction scope f place annotated).1 ∧
      last.Replays (first.enterFunction scope f place annotated).2
        (second.enterFunction scope f place annotated').2 := by
  -- The scope of a function is found by its node, and so it is the same in both.
  have hnode := byNode_enterFunction first scope f place annotated
  have hinner : (second.enterFunction scope f place annotated').1 =
      (first.enterFunction scope f place annotated).1 :=
    ScopeTree.Resolves.unique (s := f.site) (byNode_enterFunction second scope f place annotated')
      (hF'.resolves hnode)
  let d (w : Walk) (annotated : Option BindingType) : Declaration :=
    ⟨place.2, .function, annotated.getD (w.symbols.typeOf place.2), place.1, f.header.word.location⟩
  have hlt := hF'.wellFormed.scopes.byNode _ _ hnode
  have hgrow := Grows.enterFunction first scope f place annotated
  have howner : (second.definedInfo scope f.header place annotated').owner =
      (first.definedInfo scope f.header place annotated).owner := by
    have hmethod := hF'.methodOwner? (Nat.lt_of_lt_of_le hscope hgrow.scopes.size_le)
    rw [methodOwner?_enterFunction, methodOwner?_enterFunction] at hmethod
    exact hmethod
  refine ⟨hinner, fun i name => ?_, fun i => ?_, fun fqn => ?_, fun c => ?_⟩
  · rw [binding?_enterFunction, binding?_enterFunction]
    exact (h.bind hplace (hF.lt hplace) f.header.word.text (.declared place.2)).bindings i name
  · simp only [ScopeTree.methodClass?, function?_enterFunction, hinner]
    by_cases hi : (first.enterFunction scope f place annotated).1 = i
    · rw [if_pos ⟨hi, hi ▸ hlt⟩, if_pos ⟨hi, hi ▸ hF'.lt hlt⟩]
      exact .inl howner
    · rw [if_neg fun h => hi h.1, if_neg fun h => hi h.1]
      exact h.methods i
  · rw [symbols_enterFunction, symbols_enterFunction]
    exact (h.declare_definition (d first annotated) (d second annotated') rfl rfl rfl).kinds fqn
  · rw [classScopes_enterFunction, classScopes_enterFunction]
    exact h.classScopes c

/-- A class is defined in the scope of the same site. -/
theorem enterClass (h : last.Replays first second) (scope : Nat) (c : ClassHeader)
    (place : Nat × Fqn)
    (hF' : last.Follows module (first.enterClass scope c place).2
      (second.enterClass scope c place).2) :
    last.Replays (first.enterClass scope c place).2 (second.enterClass scope c place).2 := by
  -- The node has the same scope in both walks.
  have hinner : (second.enterClass scope c place).1 = (first.enterClass scope c place).1 :=
    (Machine.resolves_enterClass second scope c place).unique
      (hF'.resolves (Machine.resolves_enterClass first scope c place))
  let d : Declaration := ⟨place.2, .class, .resolved place.2, place.1, c.word.location⟩
  have hopen := (h.declare_definition d d rfl rfl rfl).openScope c.node .class
    place.2 scope c.span
  refine { hopen with classScopes := fun c' => ?_ }
  simp only [Walk.enterClass, Table.get?_insert]
  split
  · exact .inl (congrArg some hinner)
  · exact hopen.classScopes c'

/-- The end of a body changes no kind. -/
theorem endBody (h : last.Replays first second) (scope : Nat) :
    last.Replays (first.endBody scope) (second.endBody scope) := by
  have hkinds (w : Walk) : (w.endBody scope).symbols.kindOf? = w.symbols.kindOf? := by
    rw [Walk.endBody]
    split
    · split
      · rfl
      · exact funext fun fqn => SymbolTable.kindOf?_setType _ _ _ _
    · rfl
  exact h.congr (scopes_endBody _ _) (hkinds _) (classScopes_endBody _ _) (scopes_endBody _ _)
    (hkinds _) (classScopes_endBody _ _)

end Walk.Replays

/-! ### Two machines side by side -/

/-- Where no scopes of names are declared, no action declares one. -/
theorem Action.Fits.declares_nothing {S : List Opening} {bodies : Bool} {a : Action}
    (h : a.Fits S false bodies) (name : String) :
    a.op ≠ .declareGlobal name ∧ a.op ≠ .declareNonlocal name := by
  constructor <;> intro hop <;> rw [Action.Fits, hop] at h <;> cases h

namespace Machine

/-- The second of two machines writes what the first one has, with the same definitions under
way. -/
structure Replays (last : Walk) (M N : Machine) : Prop where
  /-- The second walk replays the first one. -/
  walk : last.Replays M.walk N.walk
  /-- The definitions under way are the same. -/
  definitions : M.SameFrames N

variable (context : ImportContext) {module : Fqn} {last : Walk} {M N : Machine}

/-- An operation of a module without `global` and `nonlocal` statements, performed at a scope of the
first machine, keeps the second one replaying the first. -/
theorem replays_perform {scope : Nat} {op : Op}
    (hop : ∀ name, op ≠ .declareGlobal name ∧ op ≠ .declareNonlocal name)
    (hM : M.WellFormed module) (hscope : scope < M.walk.scopes.size)
    (hF : last.Follows module M.walk N.walk)
    (hF' : last.Follows module (perform context scope op M).walk (perform context scope op N).walk)
    (h : Replays last M N) :
    Replays last (perform context scope op M) (perform context scope op N) := by
  have hplace (name : String) :
      M.walk.bindingPlace scope name = N.walk.bindingPlace scope name :=
    (hF.bindingPlace hscope name).1.trans (hF.bindingPlace hscope name).2.symm
  -- The values and the hints of the machines may differ, so nothing is said of the types that are
  -- written. What has to be the same is where they are written, which `hF` gives.
  cases op with
  | report | readName | readMember | setBases | beginBody =>
    exact ⟨h.walk.congr rfl rfl rfl rfl rfl rfl, h.definitions⟩
  | constant | call | combine | instantiate | discard | hint | noHint | discardHint | annotate =>
    exact ⟨h.walk, h.definitions⟩
  | bindName word => exact ⟨h.walk.bindName hF hscope word _ _ hF', h.definitions⟩
  | assignMember | keepMember =>
    exact ⟨h.walk.assignMember hF scope _ _ _ _ _ hF', h.definitions⟩
  | place node word =>
    refine ⟨h.walk, ?_⟩
    simp only [SameFrames, perform, begin, List.map_cons, Definition.frame, hplace,
      List.cons.injEq, true_and]
    exact h.definitions
  | enterFunction f =>
    have hplaceOf := h.definitions.placeOf (hplace f.header.word.text) f.header.node
    have hlt : (M.placeOf scope f.header.node f.header.word).1 < M.walk.scopes.size :=
      (hM.placeOf hscope _ _).1
    simp only [perform, setWalk, ← hplaceOf] at hF' ⊢
    obtain ⟨hinner, hwalk⟩ := h.walk.enterFunction hF hscope f hlt _ _ hF'
    refine ⟨hwalk, h.definitions.modifyHead fun d d' hd => ?_⟩
    obtain ⟨hnode, hframe, -⟩ := (by simpa [Definition.frame] using hd)
    simp only [Definition.frame, hnode, hframe, hinner]
  | parameter word =>
    simp only [perform, setWalk, ← h.definitions.inner] at hF' ⊢
    exact ⟨h.walk.declareParameter hF hM.inner_lt word _ _ hF',
      h.definitions.modifyHead fun _ _ hd => hd⟩
  | leaveFunction => exact ⟨h.walk, h.definitions.tail⟩
  | enterClass c =>
    have hplaceOf := h.definitions.placeOf (hplace c.word.text) c.node
    simp only [perform, setWalk, ← hplaceOf] at hF' ⊢
    exact ⟨h.walk.enterClass scope c _ hF', h.definitions⟩
  | base => exact ⟨h.walk, h.definitions.modifyHead fun _ _ hd => hd⟩
  | leaveClass word =>
    simp only [perform, setWalk, ← h.definitions.place]
    exact ⟨h.walk.bind hM.place_lt (hF.lt hM.place_lt) _ _, h.definitions.tail⟩
  | bindImport b =>
    refine ⟨?_, h.definitions⟩
    simp only [perform, setWalk, Walk.bindImport, hF.undeclared.bindingScope_eq,
      hF.undeclared'.bindingScope_eq]
    exact h.walk.bind hscope (hF.lt hscope) _ _
  | declareGlobal name => exact absurd rfl (hop name).1
  | declareNonlocal name => exact absurd rfl (hop name).2
  | noteReturn =>
    exact ⟨h.walk.congr (Walk.scopes_noteReturn _ _ _)
      (congrArg SymbolTable.kindOf? (Walk.symbols_noteReturn _ _ _))
      (Walk.classScopes_noteReturn _ _ _) (Walk.scopes_noteReturn _ _ _)
      (congrArg SymbolTable.kindOf? (Walk.symbols_noteReturn _ _ _))
      (Walk.classScopes_noteReturn _ _ _), h.definitions⟩
  | endBody => exact ⟨h.walk.endBody scope, h.definitions⟩

/-- Without `global` and `nonlocal` statements no name is declared so. -/
theorem undeclared_perform (scope : Nat) {op : Op}
    (hop : ∀ name, op ≠ .declareGlobal name ∧ op ≠ .declareNonlocal name)
    (h : M.walk.scopes.Undeclared) : (perform context scope op M).walk.scopes.Undeclared := by
  -- Two operations declare a name `global` or `nonlocal`, and they are excluded.
  cases op with
  | bindName | parameter | leaveClass | bindImport => exact h.bind _ _ _
  | enterFunction f =>
    simp only [perform, setWalk, Walk.scopes_enterFunction]
    exact ((h.bind _ _ _).openFrame _ _ _ _ _).setFunction _ _
  | enterClass c => exact h.openFrame _ _ _ _ _
  | declareGlobal name => exact absurd rfl (hop name).1
  | declareNonlocal name => exact absurd rfl (hop name).2
  | assignMember | keepMember =>
    simp only [perform, setWalk, Walk.scopes_assignMember]
    exact h
  | noteReturn =>
    simp only [perform, setWalk, Walk.scopes_noteReturn]
    exact h
  | endBody =>
    simp only [perform, setWalk, Walk.scopes_endBody]
    exact h
  | _ => exact h

/-- Two machines that are about to run the same actions: one comes to `last`, and the other one
began there and declares nothing new. -/
structure Follows (module : Fqn) (last : Walk) (P : List Action) (M N : Machine) : Prop where
  /-- The actions define scopes, and declare no names `global` or `nonlocal`. -/
  fits : ∀ a ∈ P, ∃ S, a.Fits S false true
  /-- They happen at sites that have scopes. -/
  sited : Sited context P M
  /-- All nodes that they open are open in the end. -/
  opens : ∀ a ∈ P, ∀ node, a.op.opens = some node → (last.scopes.byNode.get? node).isSome
  /-- The first machine is well formed. -/
  wellFormed : M.WellFormed module
  /-- It comes to `last`. -/
  first : (run context P M).walk.Grows last
  /-- The second one has the layout of `last`. -/
  layout : last.scopes.SameLayout N.walk.scopes
  /-- It has the symbols of `last`. -/
  symbols : last.symbols.declarations.keys <+: N.walk.symbols.declarations.keys
  /-- It declares no others. -/
  second : (run context P N).walk.symbols.declarations.keys <+: last.symbols.declarations.keys
  /-- Nothing is declared `global` or `nonlocal` in the first one. -/
  undeclared : M.walk.scopes.Undeclared
  /-- Nothing is in the second one. -/
  undeclared' : N.walk.scopes.Undeclared

namespace Follows

variable {context} {P : List Action}

/-- The walks of two machines follow one another. -/
theorem walk (h : Follows context module last P M N) : last.Follows module M.walk N.walk where
  wellFormed := h.wellFormed.walk
  scopes := ((grows_run context P M).trans h.first).scopes
  layout := h.layout
  declared fqn := by
    simp only [SymbolTable.isSome_kindOf?_iff]
    exact fun hmem => ((grows_run context P M).trans h.first).symbols.subset hmem
  known fqn := by
    simp only [SymbolTable.isSome_kindOf?_iff]
    exact ⟨fun hmem => h.second.subset ((grows_run context P N).symbols.subset hmem),
      fun hmem => h.symbols.subset hmem⟩
  undeclared := h.undeclared
  undeclared' := h.undeclared'

/-- The first action to come declares no scope of a name. -/
theorem declares_nothing {a : Action} {rest : List Action}
    (h : Follows context module last (a :: rest) M N) (name : String) :
    a.op ≠ .declareGlobal name ∧ a.op ≠ .declareNonlocal name :=
  let ⟨_, hfits⟩ := h.fits a List.mem_cons_self
  hfits.declares_nothing name

/-- The machines still follow one another behind an action. -/
theorem step {a : Action} {rest : List Action} (h : Follows context module last (a :: rest) M N) :
    Follows context module last rest (step context M a) (step context N a) where
  fits a' ha' := h.fits a' (List.mem_cons_of_mem a ha')
  sited := h.sited.2
  opens a' ha' := h.opens a' (List.mem_cons_of_mem a ha')
  wellFormed := wellFormed_perform context a.op h.wellFormed
    (h.wellFormed.walk.scopes.resolve_lt a.site)
  first := h.first
  -- The node is open before the action, so its scope is not opened anew.
  layout := h.layout.trans (sameLayout_perform context _ fun node hnode => by
    rw [h.layout.byNode]
    exact h.opens a List.mem_cons_self node hnode)
  symbols := h.symbols.trans (grows_perform context _ a.op N).symbols
  second := h.second
  undeclared := undeclared_perform context _ h.declares_nothing h.undeclared
  undeclared' := undeclared_perform context _ h.declares_nothing h.undeclared'

end Follows

/-- A run that follows another one replays it. -/
theorem replays_run {P : List Action} (hF : Follows context module last P M N)
    (h : Replays last M N) : Replays last (run context P M) (run context P N) := by
  induction P generalizing M N with
  | nil => exact h
  | cons a rest ih =>
    obtain ⟨i, hi⟩ := hF.sited.1
    have hlt := hF.wellFormed.walk.scopes.lt_of_resolves hi
    have hF' := hF.step
    refine ih hF' ?_
    rw [step, step, hi.resolve_eq, (hF.walk.resolves hi).resolve_eq] at hF' ⊢
    exact replays_perform context hF.declares_nothing hF.wellFormed hlt hF.walk hF'.walk h

/-- Without `global` and `nonlocal` statements no run declares a name so. -/
theorem undeclared_run {P : List Action} (hP : ∀ a ∈ P, ∃ S, a.Fits S false true)
    (h : M.walk.scopes.Undeclared) : (run context P M).walk.scopes.Undeclared := by
  induction P generalizing M with
  | nil => exact h
  | cons a rest ih =>
    obtain ⟨S, hfits⟩ := hP a List.mem_cons_self
    exact ih (fun a' ha' => hP a' (List.mem_cons_of_mem a ha'))
      (undeclared_perform context _ hfits.declares_nothing h)

end Machine

namespace Walk

variable (context : ImportContext) {m : Module}

/-- The actions of a module fit if it declares no scopes of names. -/
theorem exists_fits_program (hscope : declaresScopeIn m.body = false) :
    ∀ a ∈ m.program, ∃ S, a.Fits S false true :=
  fun a ha => ⟨m.openings, hscope ▸ m.fits_program a ha⟩

/-- No walk declares a name `global` or `nonlocal` if the module does not. -/
theorem undeclared_walks (hscope : declaresScopeIn m.body = false) (k : Nat) :
    (walks context m k).scopes.Undeclared := by
  induction k with
  | zero => exact .ofModule _ _
  | succ k ih =>
    have hrun := Machine.undeclared_run context (exists_fits_program hscope)
      (M := .ofWalk (walks context m k)) ih
    rw [run_program] at hrun
    exact hrun

/-- A walk behind the first one that declares no new symbol leaves all meanings as they were, in a
module without `global` and `nonlocal` statements. -/
theorem sameMeanings_walks (hscope : declaresScopeIn m.body = false) {k : Nat} (hk : 1 ≤ k)
    (hkeys : (walks context m (k + 1)).symbols.declarations.keys =
      (walks context m k).symbols.declarations.keys) :
    (walks context m k).SameMeanings (walks context m (k + 1)) := by
  obtain ⟨k, rfl⟩ : ∃ n, k = n + 1 := ⟨k - 1, by omega⟩
  have hundeclared := undeclared_walks context (m := m) hscope
  -- The second walk begins where the first one ends, and declares no new symbol.
  have hF : Machine.Follows context context.module (walks context m (k + 1)) m.program
      (.ofWalk (walks context m k)) (.ofWalk (walks context m (k + 1))) := {
    fits := exists_fits_program hscope
    sited := Machine.sited_program context m k
    opens := fun a ha node hnode => isSome_byNode_walks context m hk ha hnode
    wellFormed := .ofWalk (wellFormed_walks context m k)
    first := by
      rw [run_program]
      exact .refl _
    layout := .refl _
    symbols := List.prefix_refl _
    second := by simp only [run_program, hkeys, List.prefix_refl]
    undeclared := hundeclared k
    undeclared' := hundeclared (k + 1) }
  have hrun := Machine.replays_run context hF
    ⟨(Replays.start _ _).congr rfl rfl rfl rfl rfl rfl, rfl⟩
  rw [run_program, run_program] at hrun
  exact {
    bindings := fun i name => (hrun.walk.bindings i name).elim id id
    globals := fun i name => by rw [(hundeclared _).global, (hundeclared _).global]
    nonlocals := fun i name => by rw [(hundeclared _).nonlocal, (hundeclared _).nonlocal]
    methods := fun i => (hrun.walk.methods i).elim id id
    kinds := fun fqn => (hrun.walk.kinds fqn).elim id id
    classScopes := fun c => (hrun.walk.classScopes c).elim id id }

end Walk

end NameAtlas.Python
