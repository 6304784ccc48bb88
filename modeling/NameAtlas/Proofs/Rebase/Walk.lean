import NameAtlas.Proofs.Rebase.Inference

/-!
# Walks under other names

What a walk does to its scopes, its symbols and its log can be done before or after a change of
names. For most of it nothing has to be known about the walk. A name that is bound becomes a symbol
below the owner of its scope, and a member one below its class, so there the scope and the class
have to be those of the walk; and a callee is `super` by its last segment, which stays if it is
built in. Each lemma is about one function of a walk, and says that it commutes with
`Walk.mapNames`.
-/

namespace NameAtlas.Python

open Source

/-- The walk with other names. -/
def Walk.mapNames {old new : Fqn} (ρ : Rebasing old new) (w : Walk) : Walk :=
  { scopes := w.scopes.mapNames ρ
    symbols := w.symbols.mapNames ρ
    classScopes := w.classScopes.mapEntries ρ.injective id
    queue := w.queue
    returned := w.returned.mapValues (BindingType.mapNames ρ)
    references := w.references.map (Reference.mapNames ρ)
    findings := w.findings }

namespace Walk

/-! ### The log and the tables -/

section

variable {old new : Fqn} (ρ : Rebasing old new) (w : Walk)

/-- The scopes of a renamed walk are the renamed scopes. -/
@[simp] theorem scopes_mapNames : (w.mapNames ρ).scopes = w.scopes.mapNames ρ := rfl

/-- The symbols of a renamed walk are the renamed symbols. -/
@[simp] theorem symbols_mapNames : (w.mapNames ρ).symbols = w.symbols.mapNames ρ := rfl

/-- Noting a renamed reference commutes with renaming. -/
theorem refer_mapNames (scope : Nat) (kind : ReferenceKind) (target : UsageTarget)
    (location : Location) :
    (w.mapNames ρ).refer scope kind (target.mapNames ρ) location =
      (w.refer scope kind target location).mapNames ρ := by
  rw [refer, refer, mapNames, mapNames, Array.map_push]
  rfl

/-- Noting a reference to a renamed target commutes with renaming. -/
theorem referName_mapNames (scope : Nat) (target : Option NameTarget) (word : Word) :
    (w.mapNames ρ).referName scope (target.map (NameTarget.mapNames ρ)) word =
      (w.referName scope target word).mapNames ρ := by
  rw [referName, referName, NameTarget.map_fqn_mapNames, UsageTarget.ofOption_map, refer_mapNames]

/-- Noting a reference to a renamed member commutes with renaming. -/
theorem referMember_mapNames (scope : Nat) (member : Option Fqn) (word : Word) :
    (w.mapNames ρ).referMember scope (member.map ρ) word =
      (w.referMember scope member word).mapNames ρ := by
  rw [referMember, referMember, UsageTarget.ofOption_map, refer_mapNames]

/-- Declaring a renamed symbol commutes with renaming the walk. -/
theorem declare_mapNames (d : Declaration) :
    (w.mapNames ρ).declare (d.mapNames ρ) = (w.declare d).mapNames ρ :=
  congrArg (fun symbols => { w.mapNames ρ with symbols }) (w.symbols.declare_mapNames ρ d)

/-- Binding a renamed target commutes with renaming the walk. -/
theorem bind_mapNames (i : Nat) (name : String) (target : NameTarget) :
    (w.mapNames ρ).bind i name (target.mapNames ρ) = (w.bind i name target).mapNames ρ :=
  congrArg (fun scopes => { w.mapNames ρ with scopes }) (w.scopes.bind_mapNames ρ i name target)

/-- Opening a scope for a renamed owner commutes with renaming the walk. -/
theorem openScope_mapNames (node : Nat) (kind : ScopeKind) (owner : Fqn) (parent : Nat)
    (span : Span) :
    (w.mapNames ρ).openScope node kind (ρ owner) parent span =
      ((w.openScope node kind owner parent span).1,
        (w.openScope node kind owner parent span).2.mapNames ρ) := by
  have hopen := w.scopes.openFrame_mapNames ρ node kind owner parent span
  simp only [openScope, mapNames, hopen]

/-- The class of a method is renamed with it. -/
theorem methodOwner?_mapNames (scope : Nat) :
    (w.mapNames ρ).methodOwner? scope = (w.methodOwner? scope).map ρ := by
  simp only [methodOwner?, mapNames, ScopeTree.kindOf_mapNames, ScopeTree.ownerOf_mapNames]
  split <;> rfl

/-- Recording a renamed function commutes with renaming the walk. -/
theorem setFunction_mapNames (scope : Nat) (info : FunctionInfo) :
    (w.mapNames ρ).setFunction scope (info.mapNames ρ) = (w.setFunction scope info).mapNames ρ :=
  congrArg (fun scopes => { w.mapNames ρ with scopes }) (w.scopes.setFunction_mapNames ρ scope info)

/-- Queueing a function commutes with renaming. -/
theorem enqueue_mapNames (f : FunctionBody) (scope : Nat) :
    (w.mapNames ρ).enqueue f scope = (w.enqueue f scope).mapNames ρ := by
  rw [enqueue, enqueue, apply_ite (mapNames ρ)]
  rfl

/-- The base that `super` leads to is renamed. -/
theorem superBase?_mapNames (scope : Nat) :
    (w.mapNames ρ).superBase? scope = (w.superBase? scope).map ρ := by
  rw [superBase?, superBase?, scopes_mapNames, ScopeTree.enclosingFunction?_mapNames]
  cases w.scopes.enclosingFunction? scope with
  | none => rfl
  | some i =>
    -- Only a method has a class whose bases `super` asks for.
    rcases hframe : w.scopes.frame? i with
      _ | ⟨kind, owner, parent, span, _ | ⟨f, _ | c, annotated⟩, bindings, globals, nonlocals⟩
    case some.some.some =>
      have hbases := congrArg List.head? (w.symbols.basesOf_mapNames ρ c)
      rw [List.head?_map] at hbases
      simp [hframe, Frame.mapNames, FunctionInfo.mapNames, hbases]
    all_goals simp [hframe, Frame.mapNames, FunctionInfo.mapNames]

/-- Noting a renamed return commutes with renaming. -/
theorem noteReturn_mapNames (scope : Nat) (type : BindingType) :
    (w.mapNames ρ).noteReturn scope (type.mapNames ρ) = (w.noteReturn scope type).mapNames ρ := by
  rw [noteReturn, noteReturn, scopes_mapNames, ScopeTree.enclosingFunction?_mapNames]
  cases w.scopes.enclosingFunction? scope with
  | none => rfl
  | some i =>
    have hinsert := w.returned.mapValues_insert i type (BindingType.mapNames ρ)
    simp only [mapNames, hinsert]

/-- Beginning a body commutes with renaming. -/
theorem beginBody_mapNames (scope : Nat) :
    (w.mapNames ρ).beginBody scope = (w.beginBody scope).mapNames ρ :=
  congrArg (fun returned => { w.mapNames ρ with returned })
    (w.returned.mapValues_erase scope (BindingType.mapNames ρ)).symm

/-- Ending a body commutes with renaming. -/
theorem endBody_mapNames (scope : Nat) :
    (w.mapNames ρ).endBody scope = (w.endBody scope).mapNames ρ := by
  have hfunction : ((w.mapNames ρ).scopes.frame? scope).bind Frame.function =
      ((w.scopes.frame? scope).bind Frame.function).map (FunctionInfo.mapNames ρ) :=
    w.scopes.function?_mapNames ρ scope
  rw [endBody, endBody, hfunction]
  -- The body belongs to a function, whose type is set unless it is annotated.
  cases (w.scopes.frame? scope).bind Frame.function with
  | none => rfl
  | some info =>
    have hreturned : ((w.returned.mapValues (BindingType.mapNames ρ)).get? scope).getD .noneType =
        ((w.returned.get? scope).getD .noneType).mapNames ρ := by
      rw [Table.get?_mapValues]
      cases w.returned.get? scope <;> rfl
    have htype := w.symbols.setType_mapNames ρ info.symbol
      ((w.returned.get? scope).getD .noneType)
    have herase := w.returned.mapValues_erase scope (BindingType.mapNames ρ)
    rw [← hreturned] at htype
    dsimp only [Option.map_some, FunctionInfo.mapNames]
    split
    · rfl
    · simp only [mapNames, htype, herase]

/-- Opening a renamed function commutes with renaming. -/
theorem openFunction_mapNames (scope : Nat) (h : FunctionHeader) (place : Nat × Fqn)
    (annotated : Option BindingType) :
    (w.mapNames ρ).openFunction scope h (place.1, ρ place.2)
        (annotated.map (BindingType.mapNames ρ)) =
      ((w.openFunction scope h place annotated).1,
        (w.openFunction scope h place annotated).2.mapNames ρ) := by
  let d : Declaration := ⟨place.2, .function, annotated.getD (w.symbols.typeOf place.2), place.1,
    h.word.location⟩
  -- Without an annotation both keep the type that the symbol has.
  have htype : (annotated.map (BindingType.mapNames ρ)).getD
      ((w.symbols.mapNames ρ).typeOf (ρ place.2)) = d.type.mapNames ρ := by
    rw [SymbolTable.typeOf_mapNames]
    cases annotated <;> rfl
  have hdeclare := w.declare_mapNames ρ d
  have hbind := (w.declare d).bind_mapNames ρ place.1 h.word.text (.declared place.2)
  rw [← hdeclare, Declaration.mapNames, ← htype] at hbind
  have hopen := ((w.declare d).bind place.1 h.word.text (.declared place.2)).openScope_mapNames ρ
    h.node .function place.2 scope h.span
  rw [← hbind] at hopen
  exact hopen

/-- A function is entered at the place with the new name. -/
theorem enterFunction_mapNames (scope : Nat) (f : FunctionBody) (place : Nat × Fqn)
    (annotated : Option BindingType) :
    (w.mapNames ρ).enterFunction scope f (place.1, ρ place.2)
        (annotated.map (BindingType.mapNames ρ)) =
      ((w.enterFunction scope f place annotated).1,
        (w.enterFunction scope f place annotated).2.mapNames ρ) := by
  -- The three steps of entering a function are renamed one by one.
  have hopen := w.openFunction_mapNames ρ scope f.header place annotated
  let opened := w.openFunction scope f.header place annotated
  let info : FunctionInfo := ⟨place.2, opened.2.methodOwner? scope, annotated.isSome⟩
  have hset := opened.2.setFunction_mapNames ρ opened.1 info
  have hqueue := (opened.2.setFunction opened.1 info).enqueue_mapNames ρ f opened.1
  rw [← hset] at hqueue
  simp only [enterFunction, hopen, methodOwner?_mapNames, Option.isSome_map]
  exact congrArg (Prod.mk opened.1) hqueue

/-- A class is entered at the place with the new name. -/
theorem enterClass_mapNames (scope : Nat) (h : ClassHeader) (place : Nat × Fqn) :
    (w.mapNames ρ).enterClass scope h (place.1, ρ place.2) =
      ((w.enterClass scope h place).1, (w.enterClass scope h place).2.mapNames ρ) := by
  -- A class is declared, its scope is opened and then kept; each of the three commutes with
  -- renaming.
  let d : Declaration := ⟨place.2, .class, .resolved place.2, place.1, h.word.location⟩
  let opened := (w.declare d).openScope h.node .class place.2 scope h.span
  have hopen : ((w.mapNames ρ).declare ⟨ρ place.2, .class, .resolved (ρ place.2), place.1,
      h.word.location⟩).openScope h.node .class (ρ place.2) scope h.span =
        (opened.1, opened.2.mapNames ρ) := by
    have hdeclare := w.declare_mapNames ρ d
    rw [← (w.declare d).openScope_mapNames ρ, ← hdeclare]
    rfl
  have hclass := Table.insert_mapEntries opened.2.classScopes ρ.injective id place.2 opened.1
  simp only [enterClass, hopen]
  exact congrArg (fun classScopes => (opened.1, { opened.2.mapNames ρ with classScopes })) hclass

end

/-! ### Names that are taken from the walk -/

section

variable {source : SourceText} {context : ImportContext} {new : Fqn}
  (ρ : Rebasing context.module new) {w : Walk}

/-- A name that is written in a scope of the walk is bound where it was bound before, and becomes
the symbol with the new name. -/
theorem bindingPlace_mapNames (hw : w.WellFormed context.module) {scope : Nat}
    (hscope : scope < w.scopes.size) (name : String) :
    (w.mapNames ρ).bindingPlace scope name =
      ((w.bindingPlace scope name).1, ρ (w.bindingPlace scope name).2) := by
  have howner : (w.scopes.ownerOf (w.scopes.bindingScope scope name)).Covered context.module :=
    .inl (hw.scopes.liesAtOrBelow_ownerOf (hw.bindingScope_lt hscope name))
  simp only [bindingPlace, scopes_mapNames, ScopeTree.bindingScope_mapNames,
    ScopeTree.ownerOf_mapNames, ρ.map_child howner]

/-- Binding a name to a renamed value commutes with renaming. -/
theorem bindName_mapNames (hw : w.WellFormed context.module) {scope : Nat}
    (hscope : scope < w.scopes.size) (word : Word) (type : BindingType) :
    (w.mapNames ρ).bindName scope word (type.mapNames ρ) =
      (w.bindName scope word type).mapNames ρ := by
  have hplace := bindingPlace_mapNames ρ hw hscope word.text
  simp only [bindName, hplace, scopes_mapNames, ScopeTree.kindOf_mapNames, ← bind_mapNames,
    ← declare_mapNames]
  rfl

/-- Declaring a parameter of a renamed type commutes with renaming. -/
theorem declareParameter_mapNames (hw : w.WellFormed context.module) {scope : Nat}
    (hscope : scope < w.scopes.size) (word : Word) (type : BindingType) :
    (w.mapNames ρ).declareParameter scope word (type.mapNames ρ) =
      (w.declareParameter scope word type).mapNames ρ := by
  have howner : (w.scopes.ownerOf scope).Covered context.module :=
    .inl (hw.scopes.liesAtOrBelow_ownerOf hscope)
  rw [declareParameter, declareParameter, ← bind_mapNames, ← declare_mapNames, scopes_mapNames,
    ScopeTree.ownerOf_mapNames, ← ρ.map_child howner]
  rfl

/-! ### Expressions -/

/-- Reading a name gives the renamed value and notes the renamed reference. -/
theorem readName_mapNames (scope : Nat) (word : Word) :
    (w.mapNames ρ).readName scope word =
      ((w.readName scope word).1.mapNames ρ, (w.readName scope word).2.mapNames ρ) := by
  have hrefer := w.referName_mapNames ρ scope (w.scopes.lookup scope word.text) word
  simp only [readName, scopes_mapNames, symbols_mapNames, ScopeTree.lookup_mapNames, hrefer]
  refine congrArg (fun type => (Evaluated.mk type _, _)) ?_
  rcases w.scopes.lookup scope word.text with _ | f | f | f
  case some.declared => exact w.symbols.typeOf_mapNames ρ f
  all_goals rfl

/-- Reading a member of a renamed object gives the renamed value and notes the renamed reference. -/
theorem readMember_mapNames (hw : w.Closed source context) (scope : Nat) {object : Evaluated}
    (hobject : object.Known (.closed source context)) (word : Word) :
    (w.mapNames ρ).readMember scope (object.mapNames ρ) word =
      ((w.readMember scope object word).1.mapNames ρ,
        (w.readMember scope object word).2.mapNames ρ) := by
  have hmember := Python.memberOf?_mapNames ρ hw hobject word.text
  have hrefer := w.referMember_mapNames ρ scope
    ((memberOf? w.symbols object word.text).map Member.fqn) word
  simp only [readMember, symbols_mapNames, hmember, Member.map_fqn_mapNames, hrefer]
  refine congrArg (·, _) ?_
  -- Only a member that is declared in the file has a type to be renamed.
  rcases memberOf? w.symbols object word.text with _ | f | f
  case some.declared =>
    have htype := w.symbols.typeOf_mapNames ρ f
    simp only [Option.map_some, Member.mapNames, htype]
    rfl
  all_goals rfl

/-- A renamed callee is `super` exactly if the callee is. -/
theorem isSuper_mapNames {callee : Evaluated} (hcallee : callee.Known (.closed source context)) :
    isSuper (callee.mapNames ρ) = isSuper callee := by
  rcases callee with ⟨type, _ | f | f | f⟩
  case some.builtin =>
    obtain ⟨name, -, rfl⟩ : f.IsBuiltinName := hcallee.target _ rfl
    simp only [isSuper, Evaluated.mapNames, Option.map_some, NameTarget.mapNames, ρ.map_builtin]
  all_goals rfl

/-- A renamed call in a walk gives the renamed type. -/
theorem typeOfCall_mapNames (scope : Nat) {callee : Evaluated}
    (hcallee : callee.Known (.closed source context)) (written : String) :
    (w.mapNames ρ).typeOfCall scope (callee.mapNames ρ) written =
      (w.typeOfCall scope callee written).mapNames ρ := by
  have hbase : (if isSuper callee then (w.mapNames ρ).superBase? scope else none) =
      (if isSuper callee then w.superBase? scope else none).map ρ := by
    rw [superBase?_mapNames]
    split <;> rfl
  rw [typeOfCall, typeOfCall, isSuper_mapNames ρ hcallee, hbase, symbols_mapNames,
    callType_mapNames]
  cases if isSuper callee then w.superBase? scope else none <;> rfl

/-! ### Members -/

/-- The owner of the members of a renamed object is the renamed one. -/
theorem ownerOf?_mapNames (object : Evaluated) :
    (w.mapNames ρ).ownerOf? (object.mapNames ρ) =
      (w.ownerOf? object).map fun owner => (ρ owner.1, owner.2) := by
  have hclass : classOf? (w.symbols.mapNames ρ) (object.mapNames ρ).type =
      (classOf? w.symbols object.type).map ρ := classOf?_mapNames ρ w.symbols object.type
  rw [ownerOf?, ownerOf?, symbols_mapNames, hclass]
  cases classOf? w.symbols object.type with
  | none => rfl
  | some c =>
    have hscope : (w.mapNames ρ).classScopes.get? (ρ c) = (w.classScopes.get? c).map id :=
      Table.get?_mapEntries w.classScopes ρ.injective id c
    simp only [Option.map_some, Option.bind_eq_bind, Option.bind_some, hscope, Option.map_id, id_eq]
    cases w.classScopes.get? c <;> rfl

/-- Writing a member of a renamed object commutes with renaming. -/
theorem assignMember_mapNames (hw : w.Closed source context) (scope : Nat) {object : Evaluated}
    (hobject : object.Known (.closed source context)) (word : Word) (type : Option BindingType) :
    (w.mapNames ρ).assignMember scope (object.mapNames ρ) word
        (type.map (BindingType.mapNames ρ)) =
      (w.assignMember scope object word type).mapNames ρ := by
  have hmember := Python.memberOf?_mapNames ρ hw hobject word.text
  have howner := w.ownerOf?_mapNames ρ object
  cases hc : w.ownerOf? object with
  | none =>
    rw [hc] at howner
    simp only [assignMember, symbols_mapNames, hmember, howner, hc, Option.map_none,
      Member.map_fqn_mapNames, referMember_mapNames]
  | some owner =>
    obtain ⟨c, i⟩ := owner
    have hcovered : c.Covered context.module :=
      .inl (Fqn.liesAtOrBelow_of_liesBelow
        (hw.wellFormed.classScopes c i (classScopes_of_ownerOf? hc)).2)
    have hassign (kept : BindingType) : ((w.mapNames ρ).declare ⟨(ρ c).child word.text, .attribute,
          (type.map (BindingType.mapNames ρ)).getD (kept.mapNames ρ), i, word.location⟩).referMember
          scope (some ((ρ c).child word.text)) word =
        ((w.declare ⟨c.child word.text, .attribute, type.getD kept, i, word.location⟩).referMember
          scope (some (c.child word.text)) word).mapNames ρ := by
      rw [← referMember_mapNames, ← declare_mapNames, Declaration.mapNames, Option.map_some,
        ρ.map_child hcovered, Option.getD_map]
    rw [hc] at howner
    simp only [assignMember, symbols_mapNames, hmember, howner, hc, Option.map_some]
    -- Without a type, the member keeps the type that it has.
    rcases memberOf? w.symbols object word.text with _ | f | f
    case some.declared =>
      have htype := w.symbols.typeOf_mapNames ρ f
      rw [Option.map_some, Member.mapNames]
      dsimp only
      rw [htype]
      exact hassign (w.symbols.typeOf f)
    all_goals exact hassign .unknown

end

end Walk

end NameAtlas.Python
