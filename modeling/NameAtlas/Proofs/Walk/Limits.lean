import NameAtlas.Proofs.Walk.Layout
import NameAtlas.Proofs.Walk.Reads

/-!
# Limits of names

What the names in a walk are made of, and how long they may be (`Limits`). The names are made of the
texts in the program, and a walk makes them longer in three ways: what is declared in a scope has a
segment more than the owner of the scope, an attribute of a class one more than the class, and a
member of something imported one more than the import. So there is one bound for owners, one for what
bindings stand for (`Limits.reach`), and one for types and bases (`Limits.height`). Everything that a
walk finds keeps to the limits if the walk does (`Walk.Within`), and so does the walk behind every
change.
-/

namespace NameAtlas.Python

/-- What the names in a walk are made of, and how long they may be. -/
structure Limits where
  /-- The texts of which names are made. -/
  words : List String
  /-- How long the owners of scopes are at most. -/
  depth : Nat
  /-- How many operations are done at most. -/
  steps : Nat
  /-- The module of the built-ins is one of the texts. -/
  builtins_mem : Fqn.builtinsModule ∈ words
  /-- The type of a function that returns nothing is one of the texts. -/
  none_mem : "None" ∈ words

namespace Limits

variable (ℓ : Limits)

/-- How long the names are at most that bindings stand for. -/
def reach : Nat := ℓ.depth + ℓ.words.length + 2

/-- How long the names are at most that are types or bases. -/
def height : Nat := ℓ.reach + ℓ.steps + ℓ.words.length

/-- True for names of at most `n` segments, all of them texts. -/
def Allows (n : Nat) (f : Fqn) : Prop := f.length ≤ n ∧ ∀ s ∈ f.segments, s ∈ ℓ.words

variable {ℓ} {n : Nat} {f : Fqn}

/-- A name that is allowed is allowed at more length. -/
theorem Allows.mono (h : ℓ.Allows n f) {n' : Nat} (hn : n ≤ n') : ℓ.Allows n' f :=
  ⟨Nat.le_trans h.1 hn, h.2⟩

/-- A name below an allowed one is as much longer as there are names on the way. -/
theorem Allows.descendant (h : ℓ.Allows n f) {names : List String}
    (hnames : ∀ s ∈ names, s ∈ ℓ.words) : ℓ.Allows (n + names.length) (f.descendant names) := by
  refine ⟨?_, fun s hs => ?_⟩
  · have hlength := h.1
    rw [Fqn.length] at hlength ⊢
    rw [Fqn.segments_descendant, List.length_append]
    omega
  · rcases List.mem_append.1 hs with hs | hs
    · exact h.2 s hs
    · exact hnames s hs

/-- A child of an allowed name is longer by one. -/
theorem Allows.child (h : ℓ.Allows n f) {name : String} (hname : name ∈ ℓ.words) :
    ℓ.Allows (n + 1) (f.child name) := by
  have hnames : ∀ s ∈ [name], s ∈ ℓ.words := fun _ hs => List.mem_singleton.1 hs ▸ hname
  exact h.descendant hnames

/-- The empty name is allowed. -/
theorem allows_empty : ℓ.Allows n .empty := ⟨Nat.zero_le n, nofun⟩

/-- The name of a built-in is allowed. -/
theorem allows_builtin {name : String} (hname : name ∈ ℓ.words) :
    ℓ.Allows ℓ.reach (.builtin name) := by
  refine ⟨Nat.le_add_left 2 _, fun s hs => ?_⟩
  rcases List.mem_cons.1 hs with rfl | hs
  · exact ℓ.builtins_mem
  · exact List.mem_singleton.1 hs ▸ hname

/-- A name that is spelled out in the program. -/
theorem allows_of_sublist {segments : List String} (h : segments.Sublist ℓ.words) :
    ℓ.Allows ℓ.words.length ⟨segments⟩ := ⟨h.length_le, fun _ hs => h.subset hs⟩

/-- True if no owner of a scope is longer than the limits say. -/
def Covers (ℓ : Limits) (w : Walk) : Prop :=
  ∀ i s, w.scopes.scope? i = some s → s.owner.length ≤ ℓ.depth

/-- The limits cover what a walk was before it has grown. -/
theorem Covers.of_grows {w w' : Walk} (h : ℓ.Covers w') (hgrow : w.Grows w') : ℓ.Covers w :=
  fun i s hs => h i s (hgrow.scopes.scope? i s hs)

end Limits

/-! ### The texts of the program -/

/-- The texts of a type. -/
def typeWords : BindingType → List String
  | .resolved f => f.segments
  | .primitive name => [name]
  | .error _ attempted => [attempted]
  | .unknown => []

/-- The texts of an annotation. -/
def TypeForm.words : TypeForm → List String
  | .name text => [text]
  | .path first rest => first :: rest
  | .optional inner => inner.words
  | .noneType | .unknown => []

/-- The texts of which an operation makes names. -/
def Op.words (context : ImportContext) : Op → List String
  | .constant type | .combine (.fixed type) => typeWords type
  | .readName word | .readMember word | .bindName word | .assignMember word | .keepMember word
  | .place _ word | .parameter word | .leaveClass word => [word.text]
  | .call written => [written]
  | .hint form => form.words
  | .enterFunction f => [f.header.word.text]
  | .enterClass h => [h.word.text]
  | .bindImport b => b.name :: (b.target context.module context.isPackage).segments
  | .declareGlobal name | .declareNonlocal name => [name]
  | _ => []

/-! ### What lies within the limits -/

section

variable (ℓ : Limits)

/-- A type whose name is allowed. -/
def TypeWithin : BindingType → Prop
  | .resolved f => ℓ.Allows ℓ.height f
  | .primitive name => name ∈ ℓ.words
  | .error _ attempted => attempted ∈ ℓ.words
  | .unknown => True

/-- A value behind `n` operations. -/
structure Evaluated.Within (n : Nat) (v : Evaluated) : Prop where
  /-- Its type. -/
  type : TypeWithin ℓ v.type
  /-- What it names. -/
  target : ∀ t, v.target = some t → ℓ.Allows (ℓ.reach + n) t.fqn

/-- A scope tree whose names are allowed. -/
structure ScopeTree.Within (t : ScopeTree) : Prop where
  /-- The owners of the scopes. -/
  owners : ∀ i s, t.scope? i = some s → ℓ.Allows ℓ.depth s.owner
  /-- What names are bound to. -/
  bindings : ∀ i name target, t.binding? i name = some target →
    name ∈ ℓ.words ∧ ℓ.Allows ℓ.reach target.fqn
  /-- The names declared `global`. -/
  globals : ∀ i name, t.declaresGlobal i name → name ∈ ℓ.words
  /-- The names declared `nonlocal`. -/
  nonlocals : ∀ i name, t.declaresNonlocal i name → name ∈ ℓ.words
  /-- The classes of methods. -/
  methods : ∀ i c, t.methodClass? i = some c → ℓ.Allows ℓ.depth c

/-- A symbol table whose names are allowed. -/
structure SymbolTable.Within (t : SymbolTable) : Prop where
  /-- The symbols and their types. -/
  symbols : ∀ f d, t.get? f = some d → ℓ.Allows (ℓ.depth + 2) f ∧ TypeWithin ℓ d.type
  /-- The classes that have bases. -/
  classes : ∀ c, t.basesOf c ≠ [] → ℓ.Allows (ℓ.depth + 1) c
  /-- The number of bases of a class. -/
  length_bases : ∀ c, (t.basesOf c).length ≤ ℓ.steps
  /-- The bases. -/
  bases : ∀ c, ∀ b ∈ t.basesOf c, ℓ.Allows ℓ.height b

/-- A walk whose names are allowed. -/
structure Walk.Within (w : Walk) : Prop where
  /-- The scopes. -/
  scopes : w.scopes.Within ℓ
  /-- The symbols. -/
  symbols : w.symbols.Within ℓ
  /-- The classes with scopes. -/
  classScopes : ∀ c i, w.classScopes.get? c = some i → ℓ.Allows (ℓ.depth + 1) c
  /-- The returned types. -/
  returned : ∀ i type, w.returned.get? i = some type → TypeWithin ℓ type

/-- A definition under way behind `n` operations. -/
structure Definition.Within (n : Nat) (d : Definition) : Prop where
  /-- The symbol. -/
  place : ℓ.Allows (ℓ.depth + 1) d.place.2
  /-- The number of bases read so far. -/
  length_bases : d.bases.length ≤ n
  /-- The bases read so far. -/
  bases : ∀ b ∈ d.bases, ℓ.Allows ℓ.height b
  /-- The class of a method. -/
  receiver : ∀ c, d.receiver = some c → ℓ.Allows ℓ.depth c

/-- A machine that has done `n` operations and whose names are allowed. -/
structure Machine.Within (n : Nat) (M : Machine) : Prop where
  /-- The walk. -/
  walk : M.walk.Within ℓ
  /-- The values. -/
  values : ∀ v ∈ M.values, v.Within ℓ n
  /-- The types of the annotations. -/
  hints : ∀ type, some type ∈ M.hints → TypeWithin ℓ type
  /-- The definitions under way. -/
  definitions : ∀ d ∈ M.definitions, d.Within ℓ n

end

variable {ℓ : Limits} {n : Nat}

/-! ### Types and values -/

/-- The type of `None` is allowed. -/
theorem typeWithin_none : TypeWithin ℓ .noneType := ℓ.none_mem

/-- A type is allowed if its texts stand in the program in their order. -/
theorem typeWithin_of_sublist {type : BindingType} (h : (typeWords type).Sublist ℓ.words) :
    TypeWithin ℓ type := by
  cases type with
  | resolved f => exact (Limits.allows_of_sublist h).mono (Nat.le_add_left _ _)
  | primitive name => exact h.subset List.mem_cons_self
  | error reason attempted => exact h.subset List.mem_cons_self
  | unknown => trivial

/-- What is known of an allowed type is allowed. -/
theorem typeWithin_known? {type type' : BindingType} (h : TypeWithin ℓ type)
    (hknown : type.known? = some type') : TypeWithin ℓ type' := by
  rw [BindingType.known?] at hknown
  split at hknown
  · exact Option.some.inj hknown ▸ h
  · cases hknown

/-- An annotation or a default is allowed if both are. -/
theorem typeWithin_getD {annotated : Option BindingType} {default : BindingType}
    (h : ∀ type, annotated = some type → TypeWithin ℓ type) (hdefault : TypeWithin ℓ default) :
    TypeWithin ℓ (annotated.getD default) := by
  cases annotated with
  | none => exact hdefault
  | some type => exact h type rfl

/-- What a value names may be its type. -/
theorem typeWithin_resolved {f : Fqn} (h : ℓ.Allows (ℓ.reach + n) f) (hn : n ≤ ℓ.steps) :
    TypeWithin ℓ (.resolved f) := by
  refine h.mono ?_
  rw [Limits.height]
  omega

/-- The value of an allowed type is allowed. -/
theorem Evaluated.within_ofType {type : BindingType} (h : TypeWithin ℓ type) :
    (Evaluated.ofType type).Within ℓ n := ⟨h, nofun⟩

/-- An allowed value is allowed behind more operations. -/
theorem Evaluated.Within.mono {v : Evaluated} (h : v.Within ℓ n) {n' : Nat} (hn : n ≤ n') :
    v.Within ℓ n' := ⟨h.type, fun t ht => (h.target t ht).mono (Nat.add_le_add_left hn _)⟩

/-- An allowed definition is allowed behind more operations. -/
theorem Definition.Within.mono {d : Definition} (h : d.Within ℓ n) {n' : Nat} (hn : n ≤ n') :
    d.Within ℓ n' := { h with length_bases := Nat.le_trans h.length_bases hn }

/-! ### What a walk finds -/

namespace ScopeTree.Within

variable {t : ScopeTree}

/-- The owners of scopes are allowed. -/
theorem ownerOf (h : t.Within ℓ) (i : Nat) : ℓ.Allows ℓ.depth (t.ownerOf i) := by
  rw [ownerOf_eq]
  cases hs : t.scope? i with
  | none => exact Limits.allows_empty
  | some s => exact h.owners i s hs

/-- What a name stands for is allowed. -/
theorem lookup (h : t.Within ℓ) {start : Nat} {name : String} (hname : name ∈ ℓ.words)
    {target : NameTarget} (ht : t.lookup start name = some target) :
    ℓ.Allows ℓ.reach target.fqn := by
  rw [ScopeTree.lookup] at ht
  split at ht
  -- A frame of the chain binds the name, or else it is a built-in.
  · rename_i target' hfind
    obtain rfl := Option.some.inj ht
    obtain ⟨i, -, hi⟩ := List.exists_of_findSome?_eq_some hfind
    split at hi
    · exact (h.bindings i name _ hi).2
    · cases hi
  · split at ht
    · obtain rfl := Option.some.inj ht
      exact Limits.allows_builtin hname
    · cases ht

/-- Names stay allowed behind a binding to an allowed one. -/
theorem bind (h : t.Within ℓ) (i : Nat) {name : String} {target : NameTarget}
    (hname : name ∈ ℓ.words) (htarget : ℓ.Allows ℓ.reach target.fqn) :
    (t.bind i name target).Within ℓ where
  owners j s hs := h.owners j s (by rwa [scope?_bind] at hs)
  bindings j name' target' ht := by
    rw [binding?_bind] at ht
    split at ht
    · rename_i heq
      exact ⟨heq.2.1 ▸ hname, Option.some.inj ht ▸ htarget⟩
    · exact h.bindings j name' target' ht
  globals j name' hj := h.globals j name' (by rwa [declaresGlobal_bind] at hj)
  nonlocals j name' hj := h.nonlocals j name' (by rwa [declaresNonlocal_bind] at hj)
  methods j c hc := h.methods j c (by rwa [methodClass?, function?_bind] at hc)

/-- Names stay allowed behind a `global` declaration. -/
theorem declareGlobal (h : t.Within ℓ) (i : Nat) {name : String} (hname : name ∈ ℓ.words) :
    (t.declareGlobal i name).Within ℓ where
  owners j s hs := h.owners j s (by rwa [scope?_declareGlobal] at hs)
  bindings j name' target ht := h.bindings j name' target (by rwa [binding?_declareGlobal] at ht)
  globals j name' hj := by
    rw [declaresGlobal_declareGlobal, Bool.or_eq_true, Bool.and_eq_true] at hj
    rcases hj with ⟨-, heq⟩ | hj
    · exact eq_of_beq heq ▸ hname
    · exact h.globals j name' hj
  nonlocals j name' hj := h.nonlocals j name' (by rwa [declaresNonlocal_declareGlobal] at hj)
  methods j c hc := h.methods j c (by rwa [methodClass?, function?_declareGlobal] at hc)

/-- Names stay allowed behind a `nonlocal` declaration. -/
theorem declareNonlocal (h : t.Within ℓ) (i : Nat) {name : String} (hname : name ∈ ℓ.words) :
    (t.declareNonlocal i name).Within ℓ where
  owners j s hs := h.owners j s (by rwa [scope?_declareNonlocal] at hs)
  bindings j name' target ht := h.bindings j name' target (by rwa [binding?_declareNonlocal] at ht)
  globals j name' hj := h.globals j name' (by rwa [declaresGlobal_declareNonlocal] at hj)
  nonlocals j name' hj := by
    rw [declaresNonlocal_declareNonlocal, Bool.or_eq_true, Bool.and_eq_true] at hj
    rcases hj with ⟨-, heq⟩ | hj
    · exact eq_of_beq heq ▸ hname
    · exact h.nonlocals j name' hj
  methods j c hc := h.methods j c (by rwa [methodClass?, function?_declareNonlocal] at hc)

/-- Names stay allowed behind a method of an allowed class. -/
theorem setFunction (h : t.Within ℓ) (i : Nat) (info : FunctionInfo)
    (hinfo : ∀ c, info.owner = some c → ℓ.Allows ℓ.depth c) : (t.setFunction i info).Within ℓ where
  owners j s hs := h.owners j s (by rwa [scope?_setFunction] at hs)
  bindings j name target ht := h.bindings j name target (by rwa [binding?_setFunction] at ht)
  globals j name hj := h.globals j name (by rwa [declaresGlobal_setFunction] at hj)
  nonlocals j name hj := h.nonlocals j name (by rwa [declaresNonlocal_setFunction] at hj)
  methods j c hc := by
    rw [methodClass?, function?_setFunction] at hc
    split at hc
    · exact hinfo c hc
    · exact h.methods j c hc

/-- A scope whose owner is not too long. -/
theorem openFrame (h : t.Within ℓ) (node : Nat) (kind : ScopeKind) {owner : Fqn} (parent : Nat)
    (span : Span) (howner : ∀ s ∈ owner.segments, s ∈ ℓ.words)
    (hcovered : ∀ i s, (t.openFrame node kind owner parent span).2.scope? i = some s →
      s.owner.length ≤ ℓ.depth) : (t.openFrame node kind owner parent span).2.Within ℓ where
  -- If the node has a scope, nothing is new; otherwise the new scope has the given owner.
  owners j s hs := by
    refine ⟨hcovered j s hs, ?_⟩
    cases hnode : t.byNode.get? node with
    | some i =>
      rw [openFrame_eq_of_some hnode] at hs
      exact (h.owners j s hs).2
    | none =>
      rw [scope?_openFrame_of_none hnode] at hs
      split at hs
      · obtain rfl := Option.some.inj hs
        exact howner
      · exact (h.owners j s hs).2
  bindings j name target ht := h.bindings j name target (by rwa [binding?_openFrame] at ht)
  globals j name hj := h.globals j name (by rwa [declaresGlobal_openFrame] at hj)
  nonlocals j name hj := h.nonlocals j name (by rwa [declaresNonlocal_openFrame] at hj)
  methods j c hc := h.methods j c (by rwa [methodClass?, function?_openFrame] at hc)

end ScopeTree.Within

namespace SymbolTable.Within

variable {t : SymbolTable}

/-- The types of symbols are allowed. -/
theorem typeOf (h : t.Within ℓ) (f : Fqn) : TypeWithin ℓ (t.typeOf f) := by
  rw [SymbolTable.typeOf]
  cases hd : t.get? f with
  | none => trivial
  | some d => exact (h.symbols f d hd).2

/-- Names stay allowed behind an allowed declaration. -/
theorem declare (h : t.Within ℓ) {d : Declaration} (hfqn : ℓ.Allows (ℓ.depth + 2) d.fqn)
    (htype : TypeWithin ℓ d.type) : (t.declare d).Within ℓ where
  symbols f d' hd' := by
    rw [get?_declare] at hd'
    split at hd'
    · rename_i heq
      obtain rfl := Option.some.inj hd'
      refine ⟨heq ▸ hfqn, ?_⟩
      split <;> exact htype
    · exact h.symbols f d' hd'
  classes c hc := h.classes c (by rwa [basesOf_declare] at hc)
  length_bases c := by rw [basesOf_declare]; exact h.length_bases c
  bases c b hb := h.bases c b (by rwa [basesOf_declare] at hb)

/-- Names stay allowed behind an allowed type. -/
theorem setType (h : t.Within ℓ) (fqn : Fqn) {type : BindingType} (htype : TypeWithin ℓ type) :
    (t.setType fqn type).Within ℓ where
  symbols f d hd := by
    rw [get?_setType] at hd
    split at hd
    · rename_i heq
      obtain ⟨d', hd', rfl⟩ := Option.map_eq_some_iff.1 hd
      exact ⟨heq ▸ (h.symbols fqn d' hd').1, htype⟩
    · exact h.symbols f d hd
  classes c hc := h.classes c (by rwa [basesOf_setType] at hc)
  length_bases c := by rw [basesOf_setType]; exact h.length_bases c
  bases c b hb := h.bases c b (by rwa [basesOf_setType] at hb)

/-- Names stay allowed behind allowed bases, as long as there are not too many. -/
theorem setBases (h : t.Within ℓ) {c : Fqn} {bases : List Fqn} (hc : ℓ.Allows (ℓ.depth + 1) c)
    (hlength : bases.length ≤ ℓ.steps) (hbases : ∀ b ∈ bases, ℓ.Allows ℓ.height b) :
    (t.setBases c bases).Within ℓ where
  symbols f d hd := h.symbols f d (by rwa [get?_setBases] at hd)
  -- The class has the new bases, and every other class has its old ones.
  classes c' hc' := by
    rw [basesOf_setBases] at hc'
    split at hc'
    · rename_i heq
      exact heq ▸ hc
    · exact h.classes c' hc'
  length_bases c' := by
    rw [basesOf_setBases]
    split
    · exact hlength
    · exact h.length_bases c'
  bases c' b hb := by
    rw [basesOf_setBases] at hb
    split at hb
    · exact hbases b hb
    · exact h.bases c' b hb

end SymbolTable.Within

namespace Walk.Within

variable {w : Walk}

/-- The member of a value is a symbol of the file, or one segment longer than what it is a member
of. -/
theorem memberOf? (h : w.Within ℓ) {object : Evaluated} (hobject : object.Within ℓ n)
    {name : String} (hname : name ∈ ℓ.words) {member : Member}
    (hmember : Python.memberOf? w.symbols object name = some member) :
    ℓ.Allows (ℓ.reach + (n + 1)) member.fqn := by
  rw [Python.memberOf?] at hmember
  -- A member of a class is declared, and one of an import is longer by a segment.
  split at hmember
  · rename_i c _
    obtain ⟨f, hf, rfl⟩ := Option.map_eq_some_iff.1 hmember
    have hdeclared : w.symbols.declarations.contains f := List.find?_some hf
    obtain ⟨d, hd⟩ := Option.isSome_iff_exists.1 hdeclared
    refine (h.symbols.symbols f d hd).1.mono ?_
    rw [Limits.reach]
    omega
  · split at hmember
    · rename_i f htarget
      obtain rfl := Option.some.inj hmember
      exact (hobject.target _ htarget).child hname
    · cases hmember

/-- The type of a call is allowed. -/
theorem callType (h : w.Within ℓ) (hn : n ≤ ℓ.steps) {callee : Evaluated}
    (hcallee : callee.Within ℓ n) {written : String} (hwritten : written ∈ ℓ.words) :
    TypeWithin ℓ (Python.callType w.symbols callee written) := by
  rw [Python.callType]
  split
  · rename_i f htarget
    split
    · exact typeWithin_resolved (hcallee.target _ htarget) hn
    · exact h.symbols.typeOf f
    · trivial
  all_goals exact hwritten

/-- The type of a call of any kind is allowed. -/
theorem typeOfCall (h : w.Within ℓ) (hn : n ≤ ℓ.steps) (scope : Nat) {callee : Evaluated}
    (hcallee : callee.Within ℓ n) {written : String} (hwritten : written ∈ ℓ.words) :
    TypeWithin ℓ (w.typeOfCall scope callee written) := by
  exact typeOfCall_induction w scope callee written h.symbols.bases
    (h.callType hn hcallee hwritten)

/-- The type of an instance is allowed. -/
theorem instanceType (w : Walk) (hn : n ≤ ℓ.steps) {value : Evaluated} (hvalue : value.Within ℓ n) :
    TypeWithin ℓ (Python.instanceType w.symbols value) := by
  rw [Python.instanceType]
  split
  · rename_i f htarget
    split
    · exact typeWithin_resolved (hvalue.target _ htarget) hn
    · trivial
  · rename_i f htarget
    exact typeWithin_resolved (hvalue.target _ htarget) hn
  · rename_i f htarget
    exact typeWithin_resolved (hvalue.target _ htarget) hn
  · trivial

/-- The type that a name stands for is allowed. -/
theorem nameType (h : w.Within ℓ) (scope : Nat) {name : String} (hname : name ∈ ℓ.words) :
    TypeWithin ℓ (Python.nameType w.scopes w.symbols scope name) := by
  -- Whatever the name stands for is allowed; the cases only decide whether it is a type.
  have hfound {target : NameTarget} (ht : w.scopes.lookup scope name = some target) :
      TypeWithin ℓ (.resolved target.fqn) :=
    typeWithin_resolved (n := 0) (h.scopes.lookup hname ht) (Nat.zero_le _)
  rw [Python.nameType]
  split
  · rename_i f hlookup
    split
    · exact hfound hlookup
    · trivial
  · rename_i f hlookup
    exact hfound hlookup
  · rename_i f hlookup
    split
    · exact hname
    · exact hfound hlookup
  · trivial

/-- The type that a dotted name stands for is allowed. -/
theorem pathType (h : w.Within ℓ) (scope : Nat) {first : String} {rest : List String}
    (hwords : (first :: rest).Sublist ℓ.words) :
    TypeWithin ℓ (Python.pathType w.scopes w.symbols scope first rest) := by
  -- Each name on the path adds a segment, and the path is in the texts of the program.
  have hfound {target : NameTarget} (ht : w.scopes.lookup scope first = some target) :
      TypeWithin ℓ (.resolved (target.fqn.descendant rest)) := by
    have htarget := h.scopes.lookup (hwords.subset List.mem_cons_self) ht
    refine (htarget.descendant fun s hs => hwords.subset (List.mem_cons_of_mem first hs)).mono ?_
    have hlength := hwords.length_le
    rw [List.length_cons] at hlength
    rw [Limits.height]
    omega
  rw [Python.pathType]
  split
  · rename_i f hlookup
    split
    · exact hfound hlookup
    · trivial
  · rename_i f hlookup
    exact hfound hlookup
  · trivial

/-- The type of an annotation is allowed. -/
theorem formType (h : w.Within ℓ) (scope : Nat) {form : TypeForm}
    (hwords : form.words.Sublist ℓ.words) :
    TypeWithin ℓ (form.type w.scopes w.symbols scope) := by
  induction form with
  | noneType => exact typeWithin_none
  | name text => exact h.nameType scope (hwords.subset List.mem_cons_self)
  | path first rest => exact h.pathType scope hwords
  | optional inner ih =>
    rw [TypeForm.type]
    cases hinner : (inner.type w.scopes w.symbols scope).known? with
    | none => trivial
    | some type => exact typeWithin_known? (ih hwords) hinner
  | unknown => trivial

/-- The class of a method is allowed. -/
theorem methodOwner? (h : w.Within ℓ) {scope : Nat} {c : Fqn}
    (hc : w.methodOwner? scope = some c) : ℓ.Allows ℓ.depth c := by
  rw [Walk.methodOwner?] at hc
  split at hc
  · exact Option.some.inj hc ▸ h.scopes.ownerOf scope
  · cases hc

/-- The symbol for a name is one segment longer than an owner. -/
theorem bindingPlace (h : w.Within ℓ) (scope : Nat) {name : String} (hname : name ∈ ℓ.words) :
    ℓ.Allows (ℓ.depth + 1) (w.bindingPlace scope name).2 := (h.scopes.ownerOf _).child hname

/-! What is done to a walk. -/

/-- A walk with the scopes, symbols, class scopes and returned types of one within the limits. -/
theorem congr (h : w.Within ℓ) {w' : Walk} (hscopes : w'.scopes = w.scopes)
    (hsymbols : w'.symbols = w.symbols) (hclasses : w'.classScopes = w.classScopes)
    (hreturned : w'.returned = w.returned) : w'.Within ℓ where
  scopes := hscopes ▸ h.scopes
  symbols := hsymbols ▸ h.symbols
  classScopes := hclasses ▸ h.classScopes
  returned := hreturned ▸ h.returned

/-- A walk stays within the limits behind an allowed declaration. -/
theorem declare (h : w.Within ℓ) {d : Declaration} (hfqn : ℓ.Allows (ℓ.depth + 2) d.fqn)
    (htype : TypeWithin ℓ d.type) : (w.declare d).Within ℓ :=
  { h with symbols := h.symbols.declare hfqn htype }

/-- A walk stays within the limits if it binds an allowed name. -/
theorem bind (h : w.Within ℓ) (i : Nat) {name : String} {target : NameTarget}
    (hname : name ∈ ℓ.words) (htarget : ℓ.Allows ℓ.reach target.fqn) :
    (w.bind i name target).Within ℓ :=
  { h with scopes := h.scopes.bind i hname htarget }

/-- Declares a symbol of a scope and binds its name. -/
theorem declareBind (h : w.Within ℓ) {d : Declaration} (hfqn : ℓ.Allows (ℓ.depth + 1) d.fqn)
    (htype : TypeWithin ℓ d.type) (i : Nat) {name : String} (hname : name ∈ ℓ.words) :
    ((w.declare d).bind i name (.declared d.fqn)).Within ℓ := by
  refine (h.declare (hfqn.mono (Nat.le_succ _)) htype).bind i hname (hfqn.mono ?_)
  rw [Limits.reach]
  omega

/-- A walk stays within the limits if it binds a name with an allowed type. -/
theorem bindName (h : w.Within ℓ) (scope : Nat) {word : Word} (hword : word.text ∈ ℓ.words)
    {type : BindingType} (htype : TypeWithin ℓ type) : (w.bindName scope word type).Within ℓ :=
  h.declareBind (d := ⟨_, _, type, _, word.location⟩) (h.bindingPlace scope hword) htype _ hword

/-- A walk stays within the limits behind a parameter with an allowed type. -/
theorem declareParameter (h : w.Within ℓ) (scope : Nat) {word : Word}
    (hword : word.text ∈ ℓ.words) {type : BindingType} (htype : TypeWithin ℓ type) :
    (w.declareParameter scope word type).Within ℓ :=
  h.declareBind (d := ⟨_, .parameter, type, scope, word.location⟩)
    ((h.scopes.ownerOf scope).child hword) htype _ hword

/-- A walk stays within the limits if it assigns an allowed type to a member. -/
theorem assignMember (h : w.Within ℓ) (scope : Nat) (object : Evaluated) {word : Word}
    (hword : word.text ∈ ℓ.words) {type : Option BindingType}
    (htype : ∀ t, type = some t → TypeWithin ℓ t) :
    (w.assignMember scope object word type).Within ℓ := by
  -- Without an owner only a reference is made.
  cases howner : w.ownerOf? object with
  | none =>
    simp only [Walk.assignMember, howner]
    exact h.congr rfl rfl rfl rfl
  | some owner =>
    obtain ⟨c, i⟩ := owner
    have hclass : ℓ.Allows (ℓ.depth + 1) c := h.classScopes c i (classScopes_of_ownerOf? howner)
    simp only [Walk.assignMember, howner]
    refine (h.declare (d := ⟨c.child word.text, .attribute, _, i, word.location⟩)
      (hclass.child hword) (typeWithin_getD htype ?_)).congr rfl rfl rfl rfl
    split
    · exact h.symbols.typeOf _
    · trivial

/-- A walk stays within the limits if it opens a scope, as long as no owner gets too long. -/
theorem openScope (h : w.Within ℓ) (node : Nat) (kind : ScopeKind) {owner : Fqn} (parent : Nat)
    (span : Span) (howner : ∀ s ∈ owner.segments, s ∈ ℓ.words)
    (hcovered : ℓ.Covers (w.openScope node kind owner parent span).2) :
    (w.openScope node kind owner parent span).2.Within ℓ :=
  { h with scopes := h.scopes.openFrame node kind parent span howner hcovered }

/-- A walk stays within the limits if it enters a function, as long as no owner gets too long. -/
theorem enterFunction (h : w.Within ℓ) (scope : Nat) (f : FunctionBody) {place : Nat × Fqn}
    (hword : f.header.word.text ∈ ℓ.words) (hplace : ℓ.Allows (ℓ.depth + 1) place.2)
    {annotated : Option BindingType} (htype : ∀ t, annotated = some t → TypeWithin ℓ t)
    (hcovered : ℓ.Covers (w.enterFunction scope f place annotated).2) :
    (w.enterFunction scope f place annotated).2.Within ℓ := by
  -- Without an annotation the function keeps the type that earlier walks have found.
  have hdeclared := h.declareBind (d := ⟨place.2, .function,
    annotated.getD (w.symbols.typeOf place.2), place.1, f.header.word.location⟩) hplace
    (typeWithin_getD htype (h.symbols.typeOf place.2)) place.1 hword
  have hopen : (w.openFunction scope f.header place annotated).2.Within ℓ :=
    hdeclared.openScope f.header.node .function scope f.header.span hplace.2
      fun i s hs => hcovered i s (by
        rw [scopes_enterFunction, ScopeTree.scope?_setFunction]
        exact hs)
  have hset := hopen.scopes.setFunction (w.openFunction scope f.header place annotated).1
    (w.definedInfo scope f.header place annotated) fun c hc => hopen.methodOwner? hc
  exact Within.congr (w := { (w.openFunction scope f.header place annotated).2 with
      scopes := _ }) { hopen with scopes := hset } (scopes_enqueue _ _ _) (symbols_enqueue _ _ _)
    (classScopes_enqueue _ _ _) (returned_enqueue _ _ _)

/-- A walk stays within the limits if it enters a class, as long as no owner gets too long. -/
theorem enterClass (h : w.Within ℓ) (scope : Nat) (c : ClassHeader) {place : Nat × Fqn}
    (hplace : ℓ.Allows (ℓ.depth + 1) place.2)
    (hcovered : ℓ.Covers (w.enterClass scope c place).2) :
    (w.enterClass scope c place).2.Within ℓ := by
  have htype : TypeWithin ℓ (.resolved place.2) := hplace.mono (by
    rw [Limits.height, Limits.reach]
    omega)
  have hdeclared := h.declare (d := ⟨place.2, .class, .resolved place.2, place.1, c.word.location⟩)
    (hplace.mono (Nat.le_succ _)) htype
  have hopen := hdeclared.openScope c.node .class scope c.span hplace.2 hcovered
  -- The class is declared and its scope opened, so only the table of classes is left.
  refine { hopen with classScopes := fun c' i hi => ?_ }
  rw [Walk.enterClass, Table.get?_insert] at hi
  split at hi
  · rename_i heq
    exact heq ▸ hplace
  · exact hopen.classScopes c' i hi

/-- A walk stays within the limits if it notes a return of an allowed type. -/
theorem noteReturn (h : w.Within ℓ) (scope : Nat) {type : BindingType} (htype : TypeWithin ℓ type) :
    (w.noteReturn scope type).Within ℓ := by
  rw [Walk.noteReturn]
  split
  · refine { h with returned := fun i t ht => ?_ }
    rw [Table.get?_insert] at ht
    split at ht
    · exact Option.some.inj ht ▸ htype
    · exact h.returned i t ht
  · exact h

/-- What bodies returned stays allowed if one is taken away. -/
theorem returned_erase (h : w.Within ℓ) {i j : Nat} {type : BindingType}
    (ht : (w.returned.erase i).get? j = some type) : TypeWithin ℓ type := by
  rw [Table.get?_erase] at ht
  split at ht
  · cases ht
  · exact h.returned j type ht

/-- A walk stays within the limits if it ends a body. -/
theorem endBody (h : w.Within ℓ) (scope : Nat) : (w.endBody scope).Within ℓ := by
  have hreturned : TypeWithin ℓ ((w.returned.get? scope).getD .noneType) :=
    typeWithin_getD (fun t ht => h.returned scope t ht) typeWithin_none
  rw [Walk.endBody]
  split
  · split
    · exact h
    · exact { h with
        symbols := h.symbols.setType _ hreturned
        returned := fun i t ht => h.returned_erase ht }
  · exact h

end Walk.Within

end NameAtlas.Python
