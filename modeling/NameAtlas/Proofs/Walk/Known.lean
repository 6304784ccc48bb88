import NameAtlas.Proofs.Walk.Entered
import NameAtlas.Proofs.Walk.Faithful
import NameAtlas.Proofs.Walk.Reads

/-!
# A walk refers to known names

Every name that a walk writes down, as the target of a name or a reference, as a type or as a base,
is declared in the file, lies at or below the target of an import, or is built in (`Vocabulary`).
The names are passed on from bindings to values, from values to types and bases, and from there to
further values, so the invariant is about all that a walk holds (`Walk.Known`) and all that lies on
the stacks of the machine (`Machine.Known`). What counts as declared is fixed for the whole run and
includes what the walk declares by its end (`Vocabulary.Includes`); then an operation never makes a
known name unknown, and it is enough to look at the names that it adds (`known_perform`).
-/

namespace NameAtlas

/-- True for the names of built-ins. -/
def Fqn.IsBuiltinName (f : Fqn) : Prop := ∃ name, Python.isBuiltin name ∧ f = .builtin name

namespace Python

open Source

/-- What the analysis of a file may refer to, and the text that it reads. -/
structure Vocabulary where
  /-- The text of the file. -/
  source : SourceText
  /-- How imports are resolved. -/
  context : ImportContext
  /-- The names that imports bind. -/
  imports : ImportBinding → Prop
  /-- The symbols of the file. -/
  declared : Fqn → Prop

namespace Vocabulary

variable (V : Vocabulary)

/-- True for names at or below the target of an import. -/
def Imported (f : Fqn) : Prop :=
  ∃ b, V.imports b ∧ f.liesAtOrBelow (b.target V.context.module V.context.isPackage)

/-- True for the names that the file may refer to. -/
def Known (f : Fqn) : Prop := V.declared f ∨ V.Imported f ∨ f.IsBuiltinName

/-- True if the symbols of a walk are symbols of the file. -/
def Includes (w : Walk) : Prop := ∀ f, w.Declares f → V.declared f

variable {V}

/-- What is below an imported name is imported. -/
theorem Imported.descendant {f : Fqn} (h : V.Imported f) (names : List String) :
    V.Imported (f.descendant names) := by
  obtain ⟨b, hb, hf⟩ := h
  refine ⟨b, hb, ?_⟩
  rw [Fqn.liesAtOrBelow, List.isPrefixOf_iff_prefix] at hf ⊢
  exact hf.trans (List.prefix_append _ _)

/-- A member of an imported name is imported. -/
theorem Imported.child {f : Fqn} (h : V.Imported f) (name : String) : V.Imported (f.child name) :=
  h.descendant [name]

/-- The file includes what a walk has declared before it has grown. -/
theorem Includes.of_grows {w w' : Walk} (h : V.Includes w') (hgrow : w.Grows w') : V.Includes w :=
  fun f hf => h f (hf.mono hgrow)

end Vocabulary

variable {V : Vocabulary}

/-! ### What is known about a value -/

/-- A target of a known name. -/
def NameTarget.Known (V : Vocabulary) : NameTarget → Prop
  | .declared f => V.declared f
  | .imported f => V.Imported f
  | .builtin f => f.IsBuiltinName

/-- A known target has a known name. -/
theorem NameTarget.Known.fqn {t : NameTarget} (h : t.Known V) : V.Known t.fqn := by
  cases t with
  | declared f => exact .inl h
  | imported f => exact .inr (.inl h)
  | builtin f => exact .inr (.inr h)

end Python

/-- A type that names no symbol besides known ones. -/
def BindingType.Known (V : Python.Vocabulary) (t : BindingType) : Prop :=
  ∀ f, t.fqn? = some f → V.Known f

namespace BindingType

variable {V : Python.Vocabulary}

/-- A resolved type is known if its symbol is. -/
@[simp] theorem known_resolved {f : Fqn} : (resolved f).Known V ↔ V.Known f := by
  simp [Known, fqn?]

/-- Primitive types name no symbol. -/
@[simp] theorem known_primitive {name : String} : (primitive name).Known V := nofun

/-- An error names no symbol. -/
@[simp] theorem known_error {reason : FailureReason} {attempted : String} :
    (error reason attempted).Known V := nofun

/-- The unknown type names no symbol. -/
@[simp] theorem known_unknown : unknown.Known V := nofun

/-- A type without a name is known. -/
theorem known_of_fqn? {t : BindingType} (h : t.fqn? = none) : t.Known V := by
  intro f hf
  rw [h] at hf
  cases hf

/-- A known type is the type it was asked for. -/
theorem Known.known? {t t' : BindingType} (h : t.Known V) (ht : t.known? = some t') :
    t'.Known V := by
  rw [BindingType.known?] at ht
  split at ht
  · exact Option.some.inj ht ▸ h
  · cases ht

/-- An annotation or a default is known if both are. -/
theorem known_getD {annotated : Option BindingType} {default : BindingType}
    (h : ∀ t, annotated = some t → t.Known V) (hdefault : default.Known V) :
    (annotated.getD default).Known V := by
  cases annotated with
  | none => exact hdefault
  | some t => exact h t rfl

end BindingType

namespace Python

variable {V : Vocabulary}

/-- A value whose type and target are known. -/
structure Evaluated.Known (V : Vocabulary) (v : Evaluated) : Prop where
  /-- Its type. -/
  type : v.type.Known V
  /-- What it names. -/
  target : ∀ t, v.target = some t → t.Known V

/-- The value of a known type is known. -/
theorem Evaluated.known_ofType {type : BindingType} (h : type.Known V) :
    (Evaluated.ofType type).Known V := ⟨h, nofun⟩

/-- A reference that leads to a known name, which for a member ends in the text that it stands for;
or one that leads nowhere and repeats that text. -/
def ReferenceKnown (V : Vocabulary) (r : Reference) : Prop :=
  match r.target with
  | .resolved f => V.Known f ∧ (r.kind = .attr →
      f.name? = some (V.source.slice r.location.span.start r.location.span.stop))
  | .unresolved name => name = V.source.slice r.location.span.start r.location.span.stop

/-! ### Walks -/

/-- A walk that holds known names only. -/
structure Walk.Known (V : Vocabulary) (w : Walk) : Prop where
  /-- Names are bound to known targets. -/
  bindings : ∀ i name t, w.scopes.binding? i name = some t → t.Known V
  /-- Scopes belong to symbols of the file. -/
  owners : ∀ i s, w.scopes.scope? i = some s → V.declared s.owner
  /-- Symbols have known types. -/
  types : ∀ f d, w.symbols.get? f = some d → d.type.Known V
  /-- Bases are known. -/
  bases : ∀ c, ∀ b ∈ w.symbols.basesOf c, V.Known b
  /-- Functions return known types. -/
  returned : ∀ i type, w.returned.get? i = some type → type.Known V
  /-- References lead to known names. -/
  references : ∀ r ∈ w.references, ReferenceKnown V r

namespace Walk

/-- What is a class has been declared. -/
theorem declares_of_isClass {w : Walk} {f : Fqn} (h : w.symbols.isClass f) : w.Declares f := by
  have hkind : w.symbols.kindOf? f = some .class := of_decide_eq_true h
  rw [Declares, ← SymbolTable.isSome_kindOf?_iff, hkind]
  rfl

/-- The type of a class is known. -/
theorem known_class {w : Walk} (hw : V.Includes w) {f : Fqn} (h : w.symbols.isClass f) :
    (BindingType.resolved f).Known V :=
  BindingType.known_resolved.2 (.inl (hw f (declares_of_isClass h)))

namespace Known

variable {w : Walk}

/-! #### What a walk finds -/

/-- A name stands for a known target. -/
theorem lookup (h : w.Known V) {scope : Nat} {name : String} {t : NameTarget}
    (ht : w.scopes.lookup scope name = some t) : t.Known V := by
  rw [ScopeTree.lookup] at ht
  split at ht
  -- A frame of the chain binds the name, or else it is a built-in.
  · rename_i t' hfind
    obtain rfl := Option.some.inj ht
    obtain ⟨i, -, hi⟩ := List.exists_of_findSome?_eq_some hfind
    split at hi
    · exact h.bindings i name _ hi
    · cases hi
  · split at ht
    · rename_i hbuiltin
      obtain rfl := Option.some.inj ht
      exact ⟨name, hbuiltin, rfl⟩
    · cases ht

/-- The type of a symbol is known. -/
theorem typeOf (h : w.Known V) (f : Fqn) : (w.symbols.typeOf f).Known V := by
  rw [SymbolTable.typeOf]
  cases hd : w.symbols.get? f with
  | none => exact BindingType.known_unknown
  | some d => exact h.types f d hd

/-- The member that a value has is declared or reached through an import, and bears the name that
was asked for. -/
theorem memberOf? (hw : V.Includes w) {object : Evaluated} (hobject : object.Known V)
    {name : String} {member : Member} (h : Python.memberOf? w.symbols object name = some member) :
    member.fqn.name? = some name ∧
      match member with
      | .declared f => V.declared f
      | .external f => V.Imported f := by
  rw [Python.memberOf?] at h
  split at h
  -- An ancestor of the class declares the member.
  · rename_i c _
    obtain ⟨f, hf, rfl⟩ := Option.map_eq_some_iff.1 h
    obtain ⟨a, -, rfl⟩ := List.mem_map.1 (List.mem_of_find?_eq_some hf)
    have hdeclared : w.symbols.declarations.contains (a.child name) := List.find?_some hf
    exact ⟨Fqn.name?_child a name, hw _ ((Table.mem_keys_iff _ _).2 hdeclared)⟩
  -- Behind a name that is imported, members are not looked up.
  · split at h
    · rename_i f htarget
      obtain rfl := Option.some.inj h
      exact ⟨Fqn.name?_child f name, (hobject.target _ htarget).child name⟩
    · cases h

/-- A member of a known value is known. -/
theorem known_member (hw : V.Includes w) {object : Evaluated} (hobject : object.Known V)
    {name : String} {member : Member} (h : Python.memberOf? w.symbols object name = some member) :
    V.Known member.fqn := by
  have hmember := (memberOf? hw hobject h).2
  cases member with
  | declared f => exact .inl hmember
  | external f => exact .inr (.inl hmember)

/-- The type of a call is known. -/
theorem callType (h : w.Known V) (hw : V.Includes w) (callee : Evaluated) (written : String) :
    (Python.callType w.symbols callee written).Known V := by
  rw [Python.callType]
  split
  · rename_i f _
    split
    · rename_i hkind
      exact known_class hw (decide_eq_true hkind)
    · exact h.typeOf f
    · exact BindingType.known_unknown
  all_goals exact BindingType.known_error

/-- The type of a call of any kind is known. -/
theorem typeOfCall (h : w.Known V) (hw : V.Includes w) {callee : Evaluated} (scope : Nat)
    (written : String) : (w.typeOfCall scope callee written).Known V :=
  typeOfCall_induction w scope callee written
    (fun c b hb => BindingType.known_resolved.2 (h.bases c b hb)) (h.callType hw callee written)

/-- The type of an instance is known. -/
theorem instanceType (hw : V.Includes w) {value : Evaluated} (hvalue : value.Known V) :
    (Python.instanceType w.symbols value).Known V := by
  rw [Python.instanceType]
  -- An instance is one of a class, or of what a target stands for.
  split
  · rename_i f _
    split
    · rename_i hclass
      exact known_class hw hclass
    · exact BindingType.known_unknown
  · rename_i htarget
    exact BindingType.known_resolved.2 (hvalue.target _ htarget).fqn
  · rename_i htarget
    exact BindingType.known_resolved.2 (hvalue.target _ htarget).fqn
  · exact BindingType.known_unknown

/-- The type that a name stands for is known. -/
theorem nameType (h : w.Known V) (hw : V.Includes w) (scope : Nat) (name : String) :
    (Python.nameType w.scopes w.symbols scope name).Known V := by
  rw [Python.nameType]
  -- A declared class, an imported name, a built-in, or nothing.
  split
  · rename_i f _
    split
    · rename_i hclass
      exact known_class hw hclass
    · exact BindingType.known_unknown
  · rename_i hlookup
    exact BindingType.known_resolved.2 (h.lookup hlookup).fqn
  · rename_i hlookup
    split
    · exact BindingType.known_primitive
    · exact BindingType.known_resolved.2 (h.lookup hlookup).fqn
  · exact BindingType.known_unknown

/-- The type that a dotted name stands for is known. -/
theorem pathType (h : w.Known V) (hw : V.Includes w) (scope : Nat) (first : String)
    (rest : List String) : (Python.pathType w.scopes w.symbols scope first rest).Known V := by
  rw [Python.pathType]
  split
  · split
    · rename_i hclass
      exact known_class hw hclass
    · exact BindingType.known_unknown
  · rename_i hlookup
    have hf : V.Imported _ := h.lookup hlookup
    exact BindingType.known_resolved.2 (.inr (.inl (hf.descendant rest)))
  · exact BindingType.known_unknown

/-- The type of an annotation is known. -/
theorem formType (h : w.Known V) (hw : V.Includes w) (scope : Nat) (form : TypeForm) :
    (form.type w.scopes w.symbols scope).Known V := by
  induction form with
  | noneType => exact BindingType.known_primitive
  | name text => exact h.nameType hw scope text
  | path first rest => exact h.pathType hw scope first rest
  | optional inner ih =>
    rw [TypeForm.type]
    cases hinner : (inner.type w.scopes w.symbols scope).known? with
    | none => exact BindingType.known_unknown
    | some type => exact ih.known? hinner
  | unknown => exact BindingType.known_unknown

/-- The class of a method is declared. -/
theorem methodOwner? (h : w.Known V) {scope : Nat} {c : Fqn} (hc : w.methodOwner? scope = some c) :
    V.declared c := by
  rw [Walk.methodOwner?] at hc
  split at hc
  · rename_i hkind
    obtain rfl := Option.some.inj hc
    rw [ScopeTree.kindOf_eq] at hkind
    rw [ScopeTree.ownerOf_eq]
    cases hs : w.scopes.scope? scope with
    | none => simp [hs] at hkind
    | some s => exact h.owners scope s hs
  · cases hc

/-! #### What a walk changes -/

/-- A walk still holds known names only behind a report. -/
theorem report (h : w.Known V) (code : DiagnosticCode) (message : String) (location : Location) :
    (w.report code message location).Known V :=
  ⟨h.bindings, h.owners, h.types, h.bases, h.returned, h.references⟩

/-- A walk still holds known names only behind a known reference. -/
theorem refer (h : w.Known V) {scope : Nat} {kind : ReferenceKind} {target : UsageTarget}
    {location : Location} (hr : ReferenceKnown V ⟨scope, kind, target, location⟩) :
    (w.refer scope kind target location).Known V :=
  { h with
    references := fun r hmem => by
      rcases Array.mem_push.1 hmem with hmem | rfl
      · exact h.references r hmem
      · exact hr }

/-- A walk still holds known names only behind a reference to a known name. -/
theorem referName (h : w.Known V) (scope : Nat) {target : Option NameTarget} {word : Word}
    (hword : word.Faithful V.source) (htarget : ∀ t, target = some t → t.Known V) :
    (w.referName scope target word).Known V := by
  refine h.refer ?_
  cases target with
  | none => exact hword
  | some t => exact ⟨(htarget t rfl).fqn, nofun⟩

/-- A walk still holds known names only behind a reference to a known member. -/
theorem referMember (h : w.Known V) (scope : Nat) {member : Option Fqn} {word : Word}
    (hword : word.Faithful V.source)
    (hmember : ∀ f, member = some f → V.Known f ∧ f.name? = some word.text) :
    (w.referMember scope member word).Known V := by
  refine h.refer ?_
  cases member with
  | none => exact hword
  | some f =>
    obtain ⟨hknown, hname⟩ := hmember f rfl
    exact ⟨hknown, fun _ => hname.trans (congrArg some hword)⟩

/-- A walk still holds known names only behind a declaration with a known type. -/
theorem declare (h : w.Known V) {d : Declaration} (hd : d.type.Known V) :
    (w.declare d).Known V :=
  { h with
    types := fun f d' hd' => by
      simp only [Walk.declare, SymbolTable.get?_declare] at hd'
      split at hd'
      · obtain rfl := Option.some.inj hd'
        split <;> exact hd
      · exact h.types f d' hd' }

/-- A walk still holds known names only with a tree that does. -/
theorem of_scopes (h : w.Known V) {t : ScopeTree}
    (hbindings : ∀ i name target, t.binding? i name = some target → target.Known V)
    (howners : ∀ i s, t.scope? i = some s → V.declared s.owner) :
    ({ w with scopes := t } : Walk).Known V :=
  ⟨hbindings, howners, h.types, h.bases, h.returned, h.references⟩

/-- A walk still holds known names only if it binds a known target. -/
theorem bind (h : w.Known V) (i : Nat) (name : String) {target : NameTarget}
    (htarget : target.Known V) : (w.bind i name target).Known V := by
  refine h.of_scopes (fun j name' t ht => ?_) fun j s hs => ?_
  · rw [ScopeTree.binding?_bind] at ht
    split at ht
    · exact Option.some.inj ht ▸ htarget
    · exact h.bindings j name' t ht
  · exact h.owners j s (by rwa [ScopeTree.scope?_bind] at hs)

/-- A walk still holds known names only if it opens a scope with a declared owner. -/
theorem openScope (h : w.Known V) (node : Nat) (kind : ScopeKind) {owner : Fqn} (parent : Nat)
    (span : Span) (howner : V.declared owner) :
    (w.openScope node kind owner parent span).2.Known V := by
  have hbinding := w.scopes.binding?_openFrame node kind owner parent span
  have hscope : ∀ j s, (w.scopes.openFrame node kind owner parent span).2.scope? j = some s →
      V.declared s.owner := by
    intro j s hs
    -- A node whose scope stands already gets no other one.
    cases hnode : w.scopes.byNode.get? node with
    | some i =>
      rw [ScopeTree.openFrame_eq_of_some hnode] at hs
      exact h.owners j s hs
    | none =>
      rw [ScopeTree.scope?_openFrame_of_none hnode] at hs
      split at hs
      · obtain rfl := Option.some.inj hs
        exact howner
      · exact h.owners j s hs
  exact h.of_scopes (fun j name t ht => h.bindings j name t (hbinding j name ▸ ht)) hscope

/-- A walk still holds known names only if it queues a function. -/
theorem enqueue (h : w.Known V) (f : FunctionBody) (scope : Nat) : (w.enqueue f scope).Known V := by
  rw [enqueue_eq]
  exact ⟨h.bindings, h.owners, h.types, h.bases, h.returned, h.references⟩

/-- A walk still holds known names only if it binds a name with a known type. -/
theorem bindName (h : w.Known V) (scope : Nat) {word : Word} {type : BindingType}
    (htype : type.Known V) (hw : V.Includes (w.bindName scope word type)) :
    (w.bindName scope word type).Known V := by
  refine (h.declare (d := ⟨_, _, type, _, word.location⟩) htype).bind _ _ ?_
  exact hw _ ((declares_declare w _).mono (Walk.Grows.bind _ _ _ _))

/-- A walk still holds known names only if it assigns a known type to a member. -/
theorem assignMember (h : w.Known V) (scope : Nat) {object : Evaluated} {word : Word}
    {type : Option BindingType} (hobject : object.Known V) (hword : word.Faithful V.source)
    (htype : ∀ t, type = some t → t.Known V)
    (hw : V.Includes (w.assignMember scope object word type)) :
    (w.assignMember scope object word type).Known V := by
  have hold : V.Includes w := hw.of_grows (.assignMember w scope object word type)
  -- On an instance of a class of the file the assignment declares the member; elsewhere it only
  -- refers to it.
  cases howner : w.ownerOf? object with
  | none =>
    simp only [Walk.assignMember, howner]
    refine h.referMember scope hword fun f hf => ?_
    obtain ⟨member, hmember, rfl⟩ := Option.map_eq_some_iff.1 hf
    exact ⟨known_member hold hobject hmember, (memberOf? hold hobject hmember).1⟩
  | some owner =>
    obtain ⟨c, i⟩ := owner
    simp only [Walk.assignMember, howner] at hw ⊢
    refine referMember (h.declare ?_) scope hword fun f hf => ?_
    · refine BindingType.known_getD htype ?_
      split
      · exact h.typeOf _
      · exact BindingType.known_unknown
    · obtain rfl := Option.some.inj hf
      exact ⟨.inl (hw _ (declares_declare w _)), Fqn.name?_child c word.text⟩

/-- A walk still holds known names only behind a parameter with a known type. -/
theorem declareParameter (h : w.Known V) (scope : Nat) {word : Word} {type : BindingType}
    (htype : type.Known V) (hw : V.Includes (w.declareParameter scope word type)) :
    (w.declareParameter scope word type).Known V := by
  refine (h.declare (d := ⟨_, .parameter, type, scope, word.location⟩) htype).bind _ _ ?_
  exact hw _ ((declares_declare w _).mono (Walk.Grows.bind _ _ _ _))

/-- A walk still holds known names only if it enters a function. -/
theorem enterFunction (h : w.Known V) (scope : Nat) (f : FunctionBody) (place : Nat × Fqn)
    {annotated : Option BindingType} (htype : ∀ t, annotated = some t → t.Known V)
    (hw : V.Includes (w.enterFunction scope f place annotated).2) :
    (w.enterFunction scope f place annotated).2.Known V := by
  have hplace : V.declared place.2 := hw _ (by
    rw [Declares, symbols_enterFunction]
    exact declares_declare w _)
  -- Without an annotation the function keeps the type that earlier walks have found.
  have htype' := BindingType.known_getD htype (h.typeOf place.2)
  have hbind : ((w.declare ⟨place.2, .function, annotated.getD (w.symbols.typeOf place.2), place.1,
      f.header.word.location⟩).bind place.1 f.header.word.text (.declared place.2)).Known V :=
    (h.declare htype').bind _ _ hplace
  have hopen := hbind.openScope f.header.node .function scope f.header.span hplace
  have hset := hopen.of_scopes (t := ScopeTree.setFunction _
      (w.openFunction scope f.header place annotated).1
      ⟨place.2, (w.openFunction scope f.header place annotated).2.methodOwner? scope,
        annotated.isSome⟩)
    (fun j name t ht => hopen.bindings j name t (by rwa [ScopeTree.binding?_setFunction] at ht))
    fun j s hs => hopen.owners j s (by rwa [ScopeTree.scope?_setFunction] at hs)
  exact hset.enqueue f _

/-- A walk still holds known names only if it enters a class. -/
theorem enterClass (h : w.Known V) (scope : Nat) (c : ClassHeader) (place : Nat × Fqn)
    (hw : V.Includes (w.enterClass scope c place).2) :
    (w.enterClass scope c place).2.Known V := by
  have hplace : V.declared place.2 := hw _ (declares_enterClass w scope c place)
  have hopen := openScope (h.declare (d := ⟨place.2, .class, .resolved place.2, place.1,
    c.word.location⟩) (BindingType.known_resolved.2 (.inl hplace))) c.node .class scope c.span hplace
  exact ⟨hopen.bindings, hopen.owners, hopen.types, hopen.bases, hopen.returned, hopen.references⟩

/-- A walk still holds known names only behind a name that is declared `global`. -/
theorem declareGlobal (h : w.Known V) (scope : Nat) (name : String) :
    ({ w with scopes := w.scopes.declareGlobal scope name } : Walk).Known V := by
  refine h.of_scopes (fun i n t ht => h.bindings i n t ?_) fun i s hs => h.owners i s ?_
  · rwa [ScopeTree.binding?_declareGlobal] at ht
  · rwa [ScopeTree.scope?_declareGlobal] at hs

/-- A walk still holds known names only behind a name that is declared `nonlocal`. -/
theorem declareNonlocal (h : w.Known V) (scope : Nat) (name : String) :
    ({ w with scopes := w.scopes.declareNonlocal scope name } : Walk).Known V := by
  refine h.of_scopes (fun i n t ht => h.bindings i n t ?_) fun i s hs => h.owners i s ?_
  · rwa [ScopeTree.binding?_declareNonlocal] at ht
  · rwa [ScopeTree.scope?_declareNonlocal] at hs

/-- A walk still holds known names only if it notes a return of a known type. -/
theorem noteReturn (h : w.Known V) (scope : Nat) {type : BindingType} (htype : type.Known V) :
    (w.noteReturn scope type).Known V := by
  rw [Walk.noteReturn]
  split
  · refine { h with returned := fun i t ht => ?_ }
    rw [Table.get?_insert] at ht
    split at ht
    · exact Option.some.inj ht ▸ htype
    · exact h.returned i t ht
  · exact h

/-- What bodies returned stays known if one is taken away. -/
theorem returned_erase (h : w.Known V) {i j : Nat} {type : BindingType}
    (ht : (w.returned.erase i).get? j = some type) : type.Known V := by
  rw [Table.get?_erase] at ht
  split at ht
  · cases ht
  · exact h.returned j type ht

/-- A walk still holds known names only if it ends a body. -/
theorem endBody (h : w.Known V) (scope : Nat) : (w.endBody scope).Known V := by
  rw [Walk.endBody]
  split
  · split
    · exact h
    -- What the body returned is known, and without a return it is `None`.
    · refine { h with types := fun f d hd => ?_, returned := fun i t ht => h.returned_erase ht }
      rw [SymbolTable.get?_setType] at hd
      split at hd
      · obtain ⟨d', hd', rfl⟩ := Option.map_eq_some_iff.1 hd
        cases hreturned : w.returned.get? scope with
        | none => exact BindingType.known_primitive
        | some t => exact h.returned scope t hreturned
      · exact h.types f d hd
  · exact h

end Known

end Walk

/-! ### Machines -/

namespace Machine

/-- A machine that holds known names only. -/
structure Known (V : Vocabulary) (M : Machine) : Prop where
  /-- The walk holds known names. -/
  walk : M.walk.Known V
  /-- The values are known. -/
  values : ∀ v ∈ M.values, v.Known V
  /-- The types of the annotations are known. -/
  hints : ∀ type, some type ∈ M.hints → type.Known V
  /-- The bases of the classes under way are known. -/
  bases : ∀ d ∈ M.definitions, ∀ b ∈ d.bases, V.Known b
  /-- Parameters get the types of classes of the file. -/
  receivers : ∀ d ∈ M.definitions, ∀ c, d.receiver = some c → V.declared c

namespace Known

variable {M : Machine}

/-- The value on top is known. -/
theorem value (h : M.Known V) : M.value.Known V := by
  rw [Machine.value]
  cases hvalues : M.values with
  | nil => exact Evaluated.known_ofType BindingType.known_unknown
  | cons v rest => exact h.values v (by rw [hvalues]; exact List.mem_cons_self)

/-- The annotation on top is known. -/
theorem annotation (h : M.Known V) {type : BindingType} (ht : M.annotation = some type) :
    type.Known V := by
  rw [Machine.annotation] at ht
  cases hhints : M.hints with
  | nil =>
    rw [hhints] at ht
    cases ht
  | cons hint rest =>
    rw [hhints] at ht
    exact h.hints type (by rw [hhints, ← ht]; exact List.mem_cons_self)

/-- The bases and the receiver of the definition under way are known. -/
theorem definition (h : M.Known V) :
    (∀ b ∈ M.definition.bases, V.Known b) ∧
      ∀ c, M.definition.receiver = some c → V.declared c := by
  rw [Machine.definition]
  cases hdefinitions : M.definitions with
  | nil => exact ⟨nofun, nofun⟩
  | cons d rest =>
    have hd : d ∈ M.definitions := by rw [hdefinitions]; exact List.mem_cons_self
    exact ⟨h.bases d hd, h.receivers d hd⟩

/-- A machine holds known names only behind a walk that does. -/
theorem setWalk (h : M.Known V) {w : Walk} (hw : w.Known V) : (M.setWalk w).Known V :=
  { h with walk := hw }

/-- A machine still holds known names only behind a known value. -/
theorem push (h : M.Known V) {v : Evaluated} (hv : v.Known V) : (M.push v).Known V :=
  { h with values := List.forall_mem_cons.2 ⟨hv, h.values⟩ }

/-- A machine still holds known names only if it drops a value. -/
theorem pop (h : M.Known V) : M.pop.Known V :=
  { h with values := fun v hv => h.values v (List.mem_of_mem_tail hv) }

/-- A machine still holds known names only with a known value on top. -/
theorem replace (h : M.Known V) {v : Evaluated} (hv : v.Known V) : (M.replace v).Known V :=
  h.pop.push hv

/-- A machine still holds known names only behind a known hint. -/
theorem pushHint (h : M.Known V) {hint : Option BindingType}
    (hhint : ∀ type, hint = some type → type.Known V) : (M.pushHint hint).Known V :=
  { h with
    hints := fun type ht => by
      rcases List.mem_cons.1 ht with ht | ht
      · exact hhint type ht.symm
      · exact h.hints type ht }

/-- A machine still holds known names only if it drops a hint. -/
theorem popHint (h : M.Known V) : M.popHint.Known V :=
  { h with hints := fun type ht => h.hints type (List.mem_of_mem_tail ht) }

/-- A machine still holds known names only if it begins a definition of which all is known. -/
theorem begin (h : M.Known V) {d : Definition} (hbases : ∀ b ∈ d.bases, V.Known b)
    (hreceiver : ∀ c, d.receiver = some c → V.declared c) : (M.begin d).Known V :=
  { h with
    bases := List.forall_mem_cons.2 ⟨hbases, h.bases⟩
    receivers := List.forall_mem_cons.2 ⟨hreceiver, h.receivers⟩ }

/-- A machine still holds known names only if it leaves a definition. -/
theorem leave (h : M.Known V) : M.leave.Known V :=
  { h with
    bases := fun d hd => h.bases d (List.mem_of_mem_tail hd)
    receivers := fun d hd => h.receivers d (List.mem_of_mem_tail hd) }

/-- A machine still holds known names only if it changes the definition to one of which all is
known. -/
theorem redefine (h : M.Known V) {g : Definition → Definition}
    (hbases : ∀ d ∈ M.definitions, ∀ b ∈ (g d).bases, V.Known b)
    (hreceiver : ∀ d ∈ M.definitions, ∀ c, (g d).receiver = some c → V.declared c) :
    (M.redefine g).Known V := by
  refine { h with bases := fun d hd => ?_, receivers := fun d hd => ?_ }
  · rcases exists_of_mem_redefine hd with hd | ⟨d', hd', rfl⟩
    · exact h.bases d hd
    · exact hbases d' hd'
  · rcases exists_of_mem_redefine hd with hd | ⟨d', hd', rfl⟩
    · exact h.receivers d hd
    · exact hreceiver d' hd'

end Known

variable {M : Machine}

/-- Reading a name gives a known value and leaves known names only. -/
theorem known_readName (h : M.Known V) (scope : Nat) {word : Word}
    (hword : word.Faithful V.source) :
    (M.walk.readName scope word).1.Known V ∧ (M.walk.readName scope word).2.Known V := by
  refine ⟨⟨?_, fun t ht => h.walk.lookup ht⟩, h.walk.referName scope hword fun t ht =>
    h.walk.lookup ht⟩
  rw [Walk.readName]
  split
  · exact h.walk.typeOf _
  · exact BindingType.known_unknown

/-- Reading a member gives a known value and leaves known names only. -/
theorem known_readMember (h : M.Known V) (hw : V.Includes M.walk) (scope : Nat) {word : Word}
    (hword : word.Faithful V.source) :
    (M.walk.readMember scope M.value word).1.Known V ∧
      (M.walk.readMember scope M.value word).2.Known V := by
  have hmember {member : Member} (hm : memberOf? M.walk.symbols M.value word.text = some member) :=
    Walk.Known.memberOf? hw h.value hm
  -- The value is that of the member, and the reference leads to it.
  constructor
  · rw [Walk.readMember]
    split
    · rename_i f hm
      refine ⟨h.walk.typeOf f, fun t ht => ?_⟩
      obtain rfl := Option.some.inj ht
      exact (hmember hm).2
    · rename_i f hm
      refine ⟨BindingType.known_unknown, fun t ht => ?_⟩
      obtain rfl := Option.some.inj ht
      exact (hmember hm).2
    · exact Evaluated.known_ofType BindingType.known_unknown
  · refine h.walk.referMember scope hword fun f hf => ?_
    obtain ⟨member, hm, rfl⟩ := Option.map_eq_some_iff.1 hf
    exact ⟨Walk.Known.known_member hw h.value hm, (hmember hm).1⟩

/-- Combining values keeps known names only. -/
theorem known_combine (h : M.Known V) {outcome : Outcome} (houtcome : outcome.Faithful) (scope : Nat) :
    (perform V.context scope (.combine outcome) M).Known V := by
  refine h.replace (Evaluated.known_ofType ?_)
  cases outcome with
  | unknown => exact BindingType.known_unknown
  | fixed type => exact BindingType.known_of_fqn? houtcome
  | ofFirst => exact h.value.type

/-- In the scope of a function the receiver is the class that owns the scope around it. -/
theorem known_enterFunction (h : M.Known V) {scope : Nat} {f : FunctionBody}
    (hw : V.Includes (perform V.context scope (.enterFunction f) M).walk) :
    (perform V.context scope (.enterFunction f) M).Known V := by
  let entered := M.walk.enterFunction scope f (M.placeOf scope f.header.node f.header.word)
    M.annotation
  have hwalk : entered.2.Known V :=
    h.walk.enterFunction scope f _ (fun t ht => h.annotation ht) hw
  -- The receiver is the class of a method, which owns a scope.
  let receiver := if f.header.isStatic then none else entered.2.methodOwner? scope
  have hreceiver (c : Fqn) (hc : receiver = some c) : V.declared c := by
    dsimp only [receiver] at hc
    split at hc
    · cases hc
    · exact hwalk.methodOwner? hc
  exact Known.setWalk (h.popHint.redefine (g := fun d => { d with inner := entered.1, receiver })
    (fun d hd => h.bases d hd) fun _ _ => hreceiver) hwalk

/-- The first parameter of a method has the type of the receiver, the others that of their
annotation. -/
theorem known_parameter (h : M.Known V) {scope : Nat} {word : Word}
    (hw : V.Includes (perform V.context scope (.parameter word) M).walk) :
    (perform V.context scope (.parameter word) M).Known V := by
  refine Known.setWalk (h.popHint.redefine (g := fun d => { d with receiver := none })
    (fun d hd => h.bases d hd) fun _ _ _ hc => nomatch hc) (h.walk.declareParameter _ ?_ hw)
  split
  · rename_i c hc
    exact BindingType.known_resolved.2 (.inl (h.definition.2 c hc))
  · exact BindingType.known_getD (fun t ht => h.annotation ht) BindingType.known_unknown

/-- A base of a class is what the value names. -/
theorem known_base (h : M.Known V) (scope : Nat) : (perform V.context scope .base M).Known V := by
  refine h.pop.redefine (fun d hd b hb => ?_) fun d hd => h.receivers d hd
  rcases List.mem_append.1 hb with hb | hb
  · exact h.bases d hd b hb
  · obtain ⟨t, ht, rfl⟩ := Option.map_eq_some_iff.1 (Option.mem_toList.1 hb)
    exact (h.value.target t ht).fqn

/-- Setting the bases of a class keeps known names only. -/
theorem known_setBases (h : M.Known V) (scope : Nat) :
    (perform V.context scope .setBases M).Known V := by
  refine h.setWalk { h.walk with bases := fun c b hb => ?_ }
  rw [SymbolTable.basesOf_setBases] at hb
  split at hb
  · exact h.definition.1 b hb
  · exact h.walk.bases c b hb

/-- Every operation that is taken from the file keeps a machine to known names. -/
theorem known_perform {scope : Nat} {op : Op} (hop : op.Faithful V.source V.imports)
    (henters : M.Enters op) (h : M.Known V)
    (hw : V.Includes (perform V.context scope op M).walk) :
    (perform V.context scope op M).Known V := by
  have hold : V.Includes M.walk := hw.of_grows (grows_perform V.context scope op M)
  -- A name is known if it is declared in the end or imported: what an operation reads is declared
  -- already (`hold`), and what it declares is declared behind it (`hw`).
  cases op with
  | report code message location => exact h.setWalk (h.walk.report _ _ _)
  | constant type => exact h.push (Evaluated.known_ofType (BindingType.known_of_fqn? hop))
  | readName word =>
    obtain ⟨hvalue, hwalk⟩ := known_readName h scope hop
    exact (h.push hvalue).setWalk hwalk
  | readMember word =>
    obtain ⟨hvalue, hwalk⟩ := known_readMember h hold scope hop
    exact (h.replace hvalue).setWalk hwalk
  | call written => exact h.replace (Evaluated.known_ofType (h.walk.typeOfCall hold scope written))
  | combine outcome => exact known_combine h hop scope
  | instantiate => exact h.replace (Evaluated.known_ofType (Walk.Known.instanceType hold h.value))
  | discard => exact h.pop
  | hint form => exact h.pushHint fun type ht => (h.walk.formType hold scope form).known? ht
  | noHint => exact h.pushHint nofun
  | discardHint => exact h.popHint
  | annotate =>
    refine (h.replace (Evaluated.known_ofType ?_)).popHint
    exact BindingType.known_getD (fun t ht => h.annotation ht) h.value.type
  | bindName word => exact h.setWalk (h.walk.bindName scope h.value.type hw)
  | assignMember word =>
    refine h.pop.setWalk (h.walk.assignMember scope h.value hop (fun t ht => ?_) hw)
    exact Option.some.inj ht ▸ h.pop.value.type
  | keepMember word => exact h.pop.setWalk (h.walk.assignMember scope h.value hop nofun hw)
  | place node word => exact h.begin nofun nofun
  | enterFunction f => exact known_enterFunction h hw
  | parameter word => exact known_parameter h hw
  | leaveFunction => exact h.leave
  | enterClass c => exact h.setWalk (h.walk.enterClass scope c _ hw)
  | base => exact known_base h scope
  | setBases => exact known_setBases h scope
  | leaveClass word => exact h.leave.setWalk (h.walk.bind _ _ (hold _ henters))
  | bindImport b =>
    exact h.setWalk (h.walk.bind _ _ ⟨b, hop, Fqn.liesAtOrBelow_self _⟩)
  | declareGlobal name => exact h.setWalk (h.walk.declareGlobal scope name)
  | declareNonlocal name => exact h.setWalk (h.walk.declareNonlocal scope name)
  | noteReturn => exact h.pop.setWalk (h.walk.noteReturn scope h.value.type)
  | beginBody =>
    exact h.setWalk { h.walk with returned := fun i t ht => h.walk.returned_erase ht }
  | endBody => exact h.setWalk (h.walk.endBody scope)

/-- A run of operations that are taken from the file keeps a machine to known names. -/
theorem known_run {P : List Action} (hP : ∀ a ∈ P, a.op.Faithful V.source V.imports)
    (hentered : Entered V.context P M) (h : M.Known V)
    (hw : V.Includes (run V.context P M).walk) : (run V.context P M).Known V := by
  induction P generalizing M with
  | nil => exact h
  | cons a rest ih =>
    have hstep : V.Includes (step V.context M a).walk := hw.of_grows (grows_run V.context rest _)
    exact ih (fun a' ha' => hP a' (List.mem_cons_of_mem a ha')) hentered.2
      (known_perform (hP a List.mem_cons_self) hentered.1 h hstep) hw

end Machine

/-- The walk that a module starts with holds known names only. -/
theorem Walk.Known.start {m : Module} (hw : V.Includes (start m V.context.module)) :
    (start m V.context.module).Known V := by
  have hmodule : V.declared V.context.module := hw _ (declares_declare ⟨_, .empty, _, _, _, _, _⟩
    ⟨V.context.module, .module, .resolved V.context.module, ScopeTree.moduleScope, m.location⟩)
  have hfirst : (⟨.ofModule V.context.module m.location.span, .empty, .empty, [], .empty, #[], #[]⟩ :
      Walk).Known V := by
    -- There is one scope and nothing is bound, so only the owner of the scope is left.
    refine ⟨fun i name t ht => ?_, fun i s hs => ?_, nofun, nofun, nofun, nofun⟩
    · rw [ScopeTree.binding?, ScopeTree.frame?_ofModule] at ht
      split at ht <;> cases ht
    · rw [ScopeTree.scope?, ScopeTree.frame?_ofModule] at hs
      split at hs
      · obtain rfl := Option.some.inj hs
        exact hmodule
      · cases hs
  exact hfirst.declare (BindingType.known_resolved.2 (.inl hmodule))

/-- Every walk over a module whose code is taken from the file holds known names only. -/
theorem Walk.known_walks {m : Module} (hm : ∀ a ∈ m.program, a.op.Faithful V.source V.imports)
    (k : Nat) (hw : V.Includes (walks V.context m k)) : (walks V.context m k).Known V := by
  induction k with
  | zero => exact .start hw
  | succ k ih =>
    -- The references of the walk before are dropped, the rest is kept.
    have hbegin := ih (hw.of_grows (grows_walks_succ V.context m k))
    have hrun := Machine.known_run (M := .ofWalk (walks V.context m k)) hm
      (Machine.entered_program V.context m k)
      ⟨{ hbegin with references := nofun }, nofun, nofun, nofun, nofun⟩
    rw [run_program] at hrun
    exact (hrun hw).walk

end Python

end NameAtlas
