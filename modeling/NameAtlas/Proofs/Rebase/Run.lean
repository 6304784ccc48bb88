import NameAtlas.Proofs.Rebase.Walk

/-!
# Runs under other names

An operation of the machine takes names from the walk and from the stacks, and the names that it
reads in the source are words, which are not qualified. So each operation that is no import commutes
with a change of names (`Machine.perform_mapNames`), and with it every run, since an action happens
at a site whatever the names (`Machine.run_mapNames`). A walk over a module is a run that begins
with the module as its only name, hence the walks under two module names are one walk under two
names (`Walk.walks_mapNames`), and they settle at the same time (`Walk.silentWalks_mapNames`).
-/

namespace NameAtlas.Python

open Source

/-- The definition with other names. -/
def Definition.mapNames (g : Fqn → Fqn) (d : Definition) : Definition :=
  { d with
    place := (d.place.1, g d.place.2)
    bases := d.bases.map g
    receiver := d.receiver.map g }

/-- The machine with other names. -/
def Machine.mapNames {old new : Fqn} (ρ : Rebasing old new) (M : Machine) : Machine :=
  { walk := M.walk.mapNames ρ
    values := M.values.map (Evaluated.mapNames ρ)
    hints := M.hints.map (Option.map (BindingType.mapNames ρ))
    definitions := M.definitions.map (Definition.mapNames ρ) }

/-- A value of a renamed type is the renamed value. -/
theorem Evaluated.mapNames_ofType (g : Fqn → Fqn) (type : BindingType) :
    (ofType type).mapNames g = ofType (type.mapNames g) := rfl

/-- A machine that walks over a module without imports. -/
structure Machine.Closed (source : SourceText) (context : ImportContext) (M : Machine) : Prop where
  /-- Its scopes, symbols and definitions are those of the module. -/
  wellFormed : M.WellFormed context.module
  /-- It refers to nothing outside the module, the built-ins apart. -/
  known : M.Known (.closed source context)

namespace Machine

/-! ### The stacks -/

section

variable {old new : Fqn} (ρ : Rebasing old new) (M : Machine)

/-- The walk of a renamed machine is the renamed walk. -/
@[simp] theorem walk_mapNames : (M.mapNames ρ).walk = M.walk.mapNames ρ := rfl

/-- The value of a renamed machine is the renamed value. -/
@[simp] theorem value_mapNames : (M.mapNames ρ).value = M.value.mapNames ρ := by
  unfold value mapNames
  cases M.values <;> rfl

/-- The annotation of a renamed machine is the renamed annotation. -/
@[simp] theorem annotation_mapNames :
    annotation (M.mapNames ρ) = M.annotation.map (BindingType.mapNames ρ) := by
  unfold annotation mapNames
  cases M.hints <;> rfl

/-- The definition of a renamed machine is the renamed definition. -/
theorem definition_mapNames : (M.mapNames ρ).definition = M.definition.mapNames ρ := by
  unfold definition mapNames
  cases M.definitions with
  | nil => exact congrArg (fun f => Definition.mk 0 (0, f) [] none 0) ρ.map_empty.symm
  | cons d rest => rfl

/-- Exchanging the walk commutes with renaming. -/
theorem setWalk_mapNames (w : Walk) :
    (M.mapNames ρ).setWalk (w.mapNames ρ) = (M.setWalk w).mapNames ρ := rfl

/-- Pushing a value commutes with renaming. -/
theorem push_mapNames (v : Evaluated) :
    (M.mapNames ρ).push (v.mapNames ρ) = (M.push v).mapNames ρ := rfl

/-- Taking off a value commutes with renaming. -/
theorem pop_mapNames : (M.mapNames ρ).pop = M.pop.mapNames ρ := by
  simp only [pop, mapNames, List.map_tail]

/-- Exchanging the value on top commutes with renaming. -/
theorem replace_mapNames (v : Evaluated) :
    (M.mapNames ρ).replace (v.mapNames ρ) = (M.replace v).mapNames ρ := by
  simp only [replace, mapNames, List.map_tail, List.map_cons]

/-- Taking off a hint commutes with renaming. -/
theorem popHint_mapNames : (M.mapNames ρ).popHint = M.popHint.mapNames ρ := by
  simp only [popHint, mapNames, List.map_tail]

/-- Leaving a definition commutes with renaming. -/
theorem leave_mapNames : (M.mapNames ρ).leave = M.leave.mapNames ρ := by
  simp only [leave, mapNames, List.map_tail]

/-- Changing a definition commutes with renaming if the change does. -/
theorem redefine_mapNames (h h' : Definition → Definition)
    (hdefinition : ∀ d, (h d).mapNames ρ = h' (d.mapNames ρ)) :
    (M.mapNames ρ).redefine h' = (M.redefine h).mapNames ρ := by
  unfold redefine mapNames
  cases M.definitions with
  | nil => rfl
  | cons d rest => simp only [List.map_cons, List.modifyHead_cons, hdefinition]

end

/-! ### One operation -/

variable {source : SourceText} {context : ImportContext} {new : Fqn}
  (ρ : Rebasing context.module new) {M : Machine}

/-- The walk of a closed machine is closed. -/
theorem Closed.walk (h : M.Closed source context) : M.walk.Closed source context :=
  ⟨h.wellFormed.walk, h.known.walk⟩

/-- The place of a name is the same, below the renamed owner. -/
theorem placeOf_mapNames (hM : M.WellFormed context.module) {scope : Nat}
    (hscope : scope < M.walk.scopes.size) (node : Nat) (word : Word) :
    (M.mapNames ρ).placeOf scope node word =
      ((M.placeOf scope node word).1, ρ (M.placeOf scope node word).2) := by
  have hplace := M.walk.bindingPlace_mapNames ρ hM.walk hscope word.text
  unfold placeOf
  rw [walk_mapNames, hplace]
  cases hdefinitions : M.definitions with
  | nil => simp [mapNames, hdefinitions]
  | cons d rest =>
    simp only [mapNames, hdefinitions, List.map_cons, Definition.mapNames]
    split <;> rfl

/-- Combining values commutes with renaming. -/
theorem combine_mapNames {outcome : Outcome} (houtcome : outcome.Faithful) (scope : Nat)
    (context' : ImportContext) :
    perform context' scope (.combine outcome) (M.mapNames ρ) =
      (perform context scope (.combine outcome) M).mapNames ρ := by
  have htype : outcome.type (M.value.type.mapNames ρ) = (outcome.type M.value.type).mapNames ρ := by
    cases outcome with
    | fixed type => exact (BindingType.mapNames_of_fqn? houtcome).symm
    | _ => rfl
  have hvalue : (M.mapNames ρ).value.type = M.value.type.mapNames ρ :=
    congrArg Evaluated.type (value_mapNames ρ M)
  rw [perform, perform, ← replace_mapNames, hvalue, htype]
  rfl

/-- Entering a function commutes with renaming. -/
theorem enterFunction_mapNames (hM : M.WellFormed context.module) {scope : Nat}
    (hscope : scope < M.walk.scopes.size) (f : FunctionBody) (context' : ImportContext) :
    perform context' scope (.enterFunction f) (M.mapNames ρ) =
      (perform context scope (.enterFunction f) M).mapNames ρ := by
  have henter := M.walk.enterFunction_mapNames ρ scope f
    (M.placeOf scope f.header.node f.header.word) M.annotation
  let entered := M.walk.enterFunction scope f (M.placeOf scope f.header.node f.header.word)
    M.annotation
  -- The receiver is the class around the function, which is renamed with it.
  let receiver := if f.header.isStatic then none else entered.2.methodOwner? scope
  have hreceiver : (if f.header.isStatic then none else (entered.2.mapNames ρ).methodOwner? scope) =
      receiver.map ρ := by
    rw [Walk.methodOwner?_mapNames]
    dsimp only [receiver]
    split <;> rfl
  have hredefine := M.popHint.redefine_mapNames ρ
    (fun d => { d with inner := entered.1, receiver })
    (fun d => { d with inner := entered.1, receiver := receiver.map ρ }) fun _ => rfl
  simp only [perform, walk_mapNames, annotation_mapNames, placeOf_mapNames ρ hM hscope, henter,
    popHint_mapNames]
  rw [hreceiver]
  exact congrArg (Machine.setWalk · (entered.2.mapNames ρ)) hredefine

/-- Declaring a parameter commutes with renaming. -/
theorem parameter_mapNames (hM : M.WellFormed context.module) (scope : Nat) (word : Word)
    (context' : ImportContext) :
    perform context' scope (.parameter word) (M.mapNames ρ) =
      (perform context scope (.parameter word) M).mapNames ρ := by
  have hredefine := M.popHint.redefine_mapNames ρ (fun d => { d with receiver := none })
    (fun d => { d with receiver := none }) fun _ => rfl
  have hdeclare (type : BindingType) :=
    congrArg ((M.popHint.redefine fun d => { d with receiver := none }).mapNames ρ).setWalk
      (Walk.declareParameter_mapNames ρ hM.walk hM.inner_lt word type)
  rw [perform, perform, definition_mapNames, annotation_mapNames, popHint_mapNames, walk_mapNames,
    hredefine]
  -- The first parameter of a method takes its class as its type, any other one its hint.
  cases hreceiver : M.definition.receiver with
  | some c =>
    dsimp only [Definition.mapNames]
    rw [hreceiver]
    exact hdeclare (.resolved c)
  | none =>
    have htype : (M.annotation.map (BindingType.mapNames ρ)).getD .unknown =
        (M.annotation.getD .unknown).mapNames ρ :=
      Option.getD_map (BindingType.mapNames ρ) .unknown M.annotation
    dsimp only [Definition.mapNames]
    rw [hreceiver, htype]
    exact hdeclare (M.annotation.getD .unknown)

/-- Noting a base commutes with renaming. -/
theorem base_mapNames (scope : Nat) (context' : ImportContext) :
    perform context' scope .base (M.mapNames ρ) = (perform context scope .base M).mapNames ρ := by
  have hnamed : ((M.value.target.map (NameTarget.mapNames ρ)).map NameTarget.fqn).toList =
      (M.value.target.map NameTarget.fqn).toList.map ρ := by
    rw [NameTarget.map_fqn_mapNames, Option.toList_map]
  have hredefine := M.pop.redefine_mapNames ρ
    (fun d => { d with bases := d.bases ++ (M.value.target.map NameTarget.fqn).toList })
    (fun d => { d with
      bases :=
        d.bases ++ ((M.value.target.map (NameTarget.mapNames ρ)).map NameTarget.fqn).toList })
    fun d => by simp only [Definition.mapNames, List.map_append, hnamed]
  rw [perform, pop_mapNames, value_mapNames]
  exact hredefine

/-- Without imports, an operation on the walk under other names is the operation under other
names. -/
theorem perform_mapNames (hM : M.Closed source context) {scope : Nat}
    (hscope : scope < M.walk.scopes.size) {op : Op} (hop : op.Faithful source fun _ => False)
    (context' : ImportContext) :
    perform context' scope op (M.mapNames ρ) = (perform context scope op M).mapNames ρ := by
  have hvalue := hM.known.value
  -- The stacks commute with `ρ` by computation. What reads the scopes or the symbols needs `hM`: all
  -- the names there are the module's own or built in, and `ρ` keeps these apart.
  cases op with
  | report code message location => rfl
  | constant type =>
    have htype : type.mapNames ρ = type := BindingType.mapNames_of_fqn? hop
    have hpush := M.push_mapNames ρ (.ofType type)
    rwa [Evaluated.mapNames_ofType, htype] at hpush
  | readName word =>
    simp only [perform, walk_mapNames, Walk.readName_mapNames]
    rfl
  | readMember word =>
    simp only [perform, walk_mapNames, value_mapNames,
      Walk.readMember_mapNames ρ hM.walk scope hvalue word, replace_mapNames, setWalk_mapNames]
  | call written =>
    simp only [perform, walk_mapNames, value_mapNames, Walk.typeOfCall_mapNames ρ scope hvalue,
      ← Evaluated.mapNames_ofType, replace_mapNames]
  | combine outcome => exact combine_mapNames ρ hop scope context'
  | instantiate =>
    simp only [perform, walk_mapNames, Walk.symbols_mapNames, value_mapNames,
      instanceType_mapNames, ← Evaluated.mapNames_ofType, replace_mapNames]
  | discard => exact M.pop_mapNames ρ
  | hint form =>
    simp only [perform, walk_mapNames, Walk.scopes_mapNames, Walk.symbols_mapNames,
      formType_mapNames ρ hM.walk, BindingType.known?_mapNames]
    rfl
  | noHint => rfl
  | discardHint => exact M.popHint_mapNames ρ
  | annotate =>
    have htype := Option.getD_map (BindingType.mapNames ρ) M.value.type M.annotation
    have hreplace := M.replace_mapNames ρ (.ofType (M.annotation.getD M.value.type))
    rw [Evaluated.mapNames_ofType, ← htype] at hreplace
    rw [perform, perform, ← popHint_mapNames, ← hreplace, annotation_mapNames, value_mapNames]
    rfl
  | bindName word =>
    have hbind := Walk.bindName_mapNames ρ hM.wellFormed.walk hscope word M.value.type
    rw [perform, value_mapNames]
    exact congrArg (M.mapNames ρ).setWalk hbind
  | assignMember word =>
    have hassign := Walk.assignMember_mapNames ρ hM.walk scope hvalue word (some M.pop.value.type)
    rw [perform, pop_mapNames, value_mapNames, value_mapNames]
    exact congrArg (M.pop.mapNames ρ).setWalk hassign
  | keepMember word =>
    have hassign := Walk.assignMember_mapNames ρ hM.walk scope hvalue word none
    rw [perform, pop_mapNames, value_mapNames]
    exact congrArg (M.pop.mapNames ρ).setWalk hassign
  | place node word =>
    have hplace := Walk.bindingPlace_mapNames ρ hM.wellFormed.walk hscope word.text
    rw [perform, walk_mapNames, hplace]
    rfl
  | enterFunction f => exact enterFunction_mapNames ρ hM.wellFormed hscope f context'
  | parameter word => exact parameter_mapNames ρ hM.wellFormed scope word context'
  | leaveFunction => exact M.leave_mapNames ρ
  | enterClass h =>
    simp only [perform, walk_mapNames, placeOf_mapNames ρ hM.wellFormed hscope,
      Walk.enterClass_mapNames, setWalk_mapNames]
  | base => exact base_mapNames ρ scope context'
  | setBases =>
    have hbases := M.walk.symbols.setBases_mapNames ρ M.definition.place.2 M.definition.bases
    rw [perform, definition_mapNames]
    exact congrArg (fun symbols => (M.mapNames ρ).setWalk { M.walk.mapNames ρ with symbols }) hbases
  | leaveClass word =>
    have hbind := M.walk.bind_mapNames ρ M.definition.place.1 word.text
      (.declared M.definition.place.2)
    rw [perform, leave_mapNames, definition_mapNames]
    exact congrArg (M.leave.mapNames ρ).setWalk hbind
  | bindImport b => exact hop.elim
  | declareGlobal name =>
    exact congrArg (fun scopes => (M.mapNames ρ).setWalk { M.walk.mapNames ρ with scopes })
      (M.walk.scopes.declareGlobal_mapNames ρ scope name)
  | declareNonlocal name =>
    exact congrArg (fun scopes => (M.mapNames ρ).setWalk { M.walk.mapNames ρ with scopes })
      (M.walk.scopes.declareNonlocal_mapNames ρ scope name)
  | noteReturn =>
    rw [perform, pop_mapNames, value_mapNames]
    exact congrArg (M.pop.mapNames ρ).setWalk (M.walk.noteReturn_mapNames ρ scope M.value.type)
  | beginBody => exact congrArg (M.mapNames ρ).setWalk (M.walk.beginBody_mapNames ρ scope)
  | endBody => exact congrArg (M.mapNames ρ).setWalk (M.walk.endBody_mapNames ρ scope)

/-! ### Runs -/

/-- Every faithful operation leaves a closed machine closed. -/
theorem Closed.perform (hM : M.Closed source context) {scope : Nat}
    (hscope : scope < M.walk.scopes.size) {op : Op} (hop : op.Faithful source fun _ => False)
    (henters : M.Enters op) : (perform context scope op M).Closed source context := by
  have hwf := wellFormed_perform context op hM.wellFormed hscope
  exact ⟨hwf, known_perform (V := .closed source context) hop henters hM.known
    (Vocabulary.includes_closed hwf.walk)⟩

/-- Without imports, a run under other names is the run under other names. Every action happens in
the scope of its site, and sites do not depend on names. -/
theorem run_mapNames {P : List Action} (hP : ∀ a ∈ P, a.op.Faithful source fun _ => False)
    (hentered : Entered context P M) (hM : M.Closed source context) (context' : ImportContext) :
    run context' P (M.mapNames ρ) = (run context P M).mapNames ρ := by
  induction P generalizing M with
  | nil => rfl
  | cons a rest ih =>
    obtain ⟨hop, hrest⟩ := List.forall_mem_cons.1 hP
    have hscope := hM.wellFormed.walk.scopes.resolve_lt a.site
    have hstep : step context' (M.mapNames ρ) a = (step context M a).mapNames ρ := by
      rw [step, step, walk_mapNames, Walk.scopes_mapNames, ScopeTree.resolve_mapNames]
      exact perform_mapNames ρ hM hscope hop context'
    rw [run_cons, run_cons, hstep]
    exact ih hrest hentered.2 (hM.perform hscope hop hentered.1)

end Machine

/-! ### Walks over a module -/

/-- The machine of a renamed walk is the renamed machine. -/
theorem Machine.ofWalk_mapNames {old new : Fqn} (ρ : Rebasing old new) (w : Walk) :
    ofWalk (w.mapNames ρ) = (ofWalk w).mapNames ρ := by
  simp only [ofWalk, Walk.clearLog, Machine.mapNames, Walk.mapNames, List.map_nil,
    List.map_toArray]

namespace Walk

variable {source : SourceText} {context context' : ImportContext} {m : Module}
  (hm : ∀ a ∈ m.program, a.op.Faithful source fun _ => False)

include hm in
/-- Every walk over a faithful module is closed. -/
theorem closed_walks (k : Nat) : (walks context m k).Closed source context := by
  have hwf := wellFormed_walks context m k
  exact ⟨hwf, known_walks (V := .closed source context) hm k (Vocabulary.includes_closed hwf)⟩

/-- The machine of a closed walk is closed. -/
theorem Closed.ofWalk {w : Walk} (h : w.Closed source context) :
    (Machine.ofWalk w).Closed source context :=
  ⟨.ofWalk h.wellFormed, { h.known with references := nofun }, nofun, nofun, nofun, nofun⟩

variable (ρ : Rebasing context.module context'.module)

/-- The first walk over the module under its new name is the renamed one. -/
theorem start_mapNames (m : Module) :
    start m context'.module = (start m context.module).mapNames ρ := by
  let d : Declaration :=
    ⟨context.module, .module, .resolved context.module, ScopeTree.moduleScope, m.location⟩
  -- The only symbol at the start is the module itself.
  have hscopes := ScopeTree.ofModule_mapNames ρ context.module m.location.span
  have hsymbols := SymbolTable.empty.declare_mapNames ρ d
  have hd : d.mapNames ρ = ⟨context'.module, .module, .resolved context'.module,
      ScopeTree.moduleScope, m.location⟩ := by
    simp only [d, Declaration.mapNames, BindingType.mapNames, ρ.map_module]
  rw [ρ.map_module] at hscopes
  rw [hd] at hsymbols
  simp only [start, mapNames, ← hscopes, List.map_toArray, List.map_nil]
  rw [← hsymbols]
  rfl

include hm in
/-- Every walk over a module without imports is the walk over the module with the other name, under
other names. -/
theorem walks_mapNames (k : Nat) : walks context' m k = (walks context m k).mapNames ρ := by
  induction k with
  | zero => exact start_mapNames ρ m
  | succ k ih =>
    have hwalk : Machine.ofWalk (walks context' m k) =
        (Machine.ofWalk (walks context m k)).mapNames ρ := by
      rw [ih, Machine.ofWalk_mapNames]
    have hrun := Machine.run_mapNames ρ hm (Machine.entered_program context m k)
      (closed_walks hm k).ofWalk context'
    rw [← hwalk, run_program, run_program] at hrun
    exact congrArg Machine.walk hrun

include hm ρ in
/-- The types settle after as many walks. -/
theorem silentWalks_mapNames (passes k : Nat) :
    silentWalks context' m passes (walks context' m k) =
      silentWalks context m passes (walks context m k) := by
  -- The induction is on the bound: a renamed walk settles exactly if the walk does.
  induction passes generalizing k with
  | zero => rfl
  | succ passes ih =>
    have hsettled : (walks context' m (k + 1)).symbols.types = (walks context' m k).symbols.types ↔
        (walks context m (k + 1)).symbols.types = (walks context m k).symbols.types := by
      rw [walks_mapNames hm ρ, walks_mapNames hm ρ]
      exact SymbolTable.types_mapNames_eq_iff ρ _ _
    show (if (walks context' m (k + 1)).symbols.types = (walks context' m k).symbols.types then 1
      else silentWalks context' m passes (walks context' m (k + 1)) + 1) =
        if (walks context m (k + 1)).symbols.types = (walks context m k).symbols.types then 1
        else silentWalks context m passes (walks context m (k + 1)) + 1
    simp only [hsettled, ih]

end Walk

end NameAtlas.Python
