import NameAtlas.Proofs.Walk.Bindings

/-!
# The statement that gives a name its type

A statement of the module gives a name a type if it binds the name last with a type of its own: an
annotated function, a class, or an assignment with a known annotation or with a value whose form
fixes the type (`Stmt.Gives`). Which type that is can depend on the walk only through the classes
that an annotation names. In a run of the module the typing by this statement is then the last one
of the code of the module, and what comes behind it are ends of function bodies
(`typings_program_of_gives`), none if the functions of that name are annotated.
-/

namespace NameAtlas.Python

/-! ### Types of their own -/

/-- The type that an expression has by its form alone, as literals do. -/
def Expr.literalType? : Expr → Option BindingType
  | .compound _ (.fixed type) => some type
  | .compound (e :: _) .ofFirst => e.literalType?
  | .walrus value _ => value.literalType?
  | _ => none

/-- The type that an assignment has by its annotation, or else by the form of its value. -/
def Assignment.ownType? (scope : Nat) : Assignment → Walk → Option BindingType
  | .plain hint _ value, w => (w.readHint scope hint).1.or value.literalType?
  | .unpack _ _, _ => none
  | .chained hint _ value, w =>
    (w.readHint scope hint).1.or (value.ownType? scope (w.readHint scope hint).2)

/-- An expression has the type that its form gives it, whatever the walk knows. -/
theorem Expr.type_eval_of_literalType? {scope : Nat} {type : BindingType} :
    ∀ (e : Expr) (w : Walk), e.literalType? = some type → (eval scope e w).1.type = type
  | .compound _ (.fixed _), _, h => Option.some.inj h
  | .compound (e :: _) .ofFirst, w, h => e.type_eval_of_literalType? w h
  | .walrus value _, w, h => value.type_eval_of_literalType? w h
  | .compound [] .ofFirst, _, h | .compound _ .unknown, _, h | .name _, _, h
  | .attribute _ _, _, h | .call _ _ _, _, h | .unsupported _ _, _, h => nomatch h

/-- An assignment gives its target the type that it has of its own. -/
theorem Assignment.type_performAssignment {scope : Nat} {type : BindingType} (a : Assignment)
    (w : Walk) (h : a.ownType? scope w = some type) : (performAssignment scope a w).1 = type := by
  -- The annotation comes first, and behind it the literal or the inner assignment.
  induction a generalizing w type with
  | plain hint target value =>
    let read := w.readHint scope hint
    change read.1.getD (eval scope value read.2).1.type = type
    rcases Option.or_eq_some_iff.1 h with h | ⟨hnone, h⟩
    · rw [h, Option.getD_some]
    · rw [hnone, Option.getD_none, value.type_eval_of_literalType? _ h]
  | unpack => cases h
  | chained hint target value ih =>
    let read := w.readHint scope hint
    change read.1.getD (performAssignment scope value read.2).1 = type
    rcases Option.or_eq_some_iff.1 h with h | ⟨hnone, h⟩
    · rw [h, Option.getD_some]
    · rw [hnone, Option.getD_none, ih _ h]

/-- The operations of pairs are done one list after the other. -/
theorem pairsOps_append (before after : List (Target × Expr)) :
    pairsOps (before ++ after) = pairsOps before ++ pairsOps after := by
  induction before with
  | nil => rfl
  | cons pair rest ih => simp [pairsOps, ih]

/-- `a.Gives name w type` says that an assignment at the site of the module binds a name last with a
type of its own, in the walk `w` in front of it. -/
inductive Assignment.Gives (name : String) : Walk → Assignment → BindingType → Prop
  /-- An assignment to the name. -/
  | plain {w : Walk} {hint : Option TypeHint} {word : Word} {value : Expr} {type : BindingType}
      (hname : word.text = name)
      (htype : (Assignment.plain hint (.name word) value).ownType? ScopeTree.moduleScope w =
        some type) :
      Gives name w (.plain hint (.name word) value) type
  /-- A value that is unpacked: what comes behind it does not bind the name. -/
  | pair {w : Walk} {hint : Option TypeHint} {before after : List (Target × Expr)} {word : Word}
      {value : Expr} {type : BindingType} (hname : word.text = name)
      (htype : value.literalType? = some type) (hafter : ∀ op ∈ pairsOps after, op.binds name = false) :
      Gives name w (.unpack hint (before ++ (.name word, value) :: after)) type
  /-- An assignment of another assignment to the name. -/
  | chained {w : Walk} {hint : Option TypeHint} {word : Word} {value : Assignment}
      {type : BindingType} (hname : word.text = name)
      (htype : (Assignment.chained hint (.name word) value).ownType? ScopeTree.moduleScope w =
        some type) :
      Gives name w (.chained hint (.name word) value) type
  /-- An assignment whose value is one to the name. -/
  | inner {w : Walk} {hint : Option TypeHint} {target : Target} {value : Assignment}
      {type : BindingType} (hvalue : Gives name (w.readHint ScopeTree.moduleScope hint).2 value type)
      (htarget : ∀ op ∈ target.assignOps, op.binds name = false) :
      Gives name w (.chained hint target value) type

/-- `st.Gives context module name w type` says that a statement of a module binds a name last with a
type of its own, in the walk `w` in front of it. -/
inductive Stmt.Gives (context : ImportContext) (module : Fqn) (name : String) :
    Walk → Stmt → BindingType → Prop
  /-- A function with a known annotation. -/
  | function {w : Walk} {header : FunctionHeader} {body : List Stmt} {type : BindingType}
      (hname : header.word.text = name)
      (htype : (w.readHint ScopeTree.moduleScope header.returns).1 = some type)
      (hparameters : ∀ op ∈ header.parameters.flatMap Parameter.ops, op.binds name = false) :
      Gives context module name w (.function header body) type
  /-- A class. -/
  | class {w : Walk} {header : ClassHeader} {body : List Stmt} (hname : header.word.text = name) :
      Gives context module name w (.class header body) (.resolved (module.child name))
  /-- An assignment. -/
  | assign {w : Walk} {before after : List Item} {a : Assignment} {type : BindingType}
      (ha : a.Gives name (w.performItems ScopeTree.moduleScope before) type)
      (hafter : ∀ op ∈ after.flatMap Item.ops, op.binds name = false) :
      Gives context module name w (.simple (before ++ .assign a :: after)) type
  /-- Statements in order: those behind it do not bind the name. -/
  | block {w : Walk} {before after : List Stmt} {st : Stmt} {type : BindingType}
      (hst : Gives context module name (visitAll context ScopeTree.moduleScope before w) st type)
      (hafter : ∀ a ∈ codeOf .module after, a.site = .module → a.op.binds name = false) :
      Gives context module name w (.block (before ++ st :: after)) type

namespace Machine

variable (context : ImportContext)

/-! ### The last typing of a run -/

/-- The last typing of a symbol in a run, which is not the end of a function body, gives the type. -/
def GivesLast (f : Fqn) (type : BindingType) (P : List Action) (M : Machine) : Prop :=
  ∃ earlier op, typings context f P M = earlier ++ [(op, type)] ∧ op ≠ .endBody

variable {context} {f : Fqn} {type : BindingType} {P P' : List Action} {M : Machine}

/-- What is given last in the second of two runs is given last in both. -/
theorem GivesLast.append_left (h : GivesLast context f type P' (run context P M)) :
    GivesLast context f type (P ++ P') M := by
  obtain ⟨earlier, op, heq, hop⟩ := h
  exact ⟨typings context f P M ++ earlier, op, by rw [typings_append, heq, List.append_assoc], hop⟩

/-- What is given last in the first of two runs is given last in both if the second one spares
it. -/
theorem GivesLast.append_right (h : GivesLast context f type P M)
    (hP' : Spares context f P' (run context P M)) (hend : ∀ a ∈ P', a.op ≠ .endBody) :
    GivesLast context f type (P ++ P') M := by
  obtain ⟨earlier, op, heq, hop⟩ := h
  exact ⟨earlier, op, by rw [typings_append, heq, hP'.typings_eq_nil hend, List.append_nil], hop⟩

/-- What the first action gives is given last if the rest spares it. -/
theorem givesLast_cons {a : Action} {rest : List Action}
    (ha : typing? (M.walk.scopes.resolve a.site) a.op M = some (f, type)) (hop : a.op ≠ .endBody)
    (hrest : Spares context f rest (step context M a)) (hend : ∀ b ∈ rest, b.op ≠ .endBody) :
    GivesLast context f type (a :: rest) M := by
  refine ⟨[], a.op, ?_, hop⟩
  rw [typings, ha, hrest.typings_eq_nil hend]
  simp

/-! ### Statements of the module -/

variable {m : Module} {name : String} {module : Fqn}

/-- A machine stays steady behind actions of the program in the code of the module. -/
theorem Steady.run_actions_module (context : ImportContext) {ops : List Op}
    (hM : M.Steady m.program name module)
    (hmem : ∀ a ∈ Site.actions .module ops, a ∈ m.program) :
    (Machine.run context (Site.actions .module ops) M).Steady m.program name module :=
  hM.run context hmem (sited_actions context ops M (s := .module) rfl)

/-- Basic operations that do not bind the name change nothing behind its last typing. -/
theorem GivesLast.basic_right {ops : List Op} (h : GivesLast context (module.child name) type P M)
    (hM : (run context P M).Steady m.program name module) (hops : ops.all Op.isBasic)
    (hbinds : ∀ op ∈ ops, op.binds name = false)
    (hmem : ∀ a ∈ Site.actions .module ops, a ∈ m.program) :
    GivesLast context (module.child name) type (P ++ Site.actions .module ops) M := by
  have hbasic : ∀ op ∈ ops, op.isBasic := List.all_eq_true.1 hops
  -- Basic operations give a type only by binding, and these bind other names.
  refine h.append_right (hM.spares_actions context (s := .module) rfl
    (fun op hop => Op.introduces_of_isBasic (hbasic op hop)) fun a ha => ⟨hmem a ha, ?_⟩).1
    fun a ha => ?_
  · obtain ⟨op, hop, rfl⟩ := List.mem_map.1 ha
    rw [Module.binds, hbinds op hop, Bool.false_and]
  · obtain ⟨op, hop, rfl⟩ := List.mem_map.1 ha
    rintro rfl
    exact absurd (hbasic _ hop) Bool.false_ne_true

/-- A name of the module gets the type of the value that it is bound to. -/
theorem givesLast_bindName (hM : M.Steady m.program name module) {word : Word}
    (hname : word.text = name) (htype : M.value.type = type) :
    GivesLast context (module.child name) type [⟨.module, .bindName word⟩] M := by
  refine givesLast_cons ?_ Op.noConfusion (spares_nil _ _) nofun
  change some ((M.walk.bindingPlace ScopeTree.moduleScope word.text).2, M.value.type) = _
  rw [hM.wellFormed.walk.bindingPlace_moduleScope, hname, htype]

/-- Operations whose value has the type, with the name bound to it behind them, give it the type. -/
theorem givesLast_value (hM : M.Steady m.program name module) {ops : List Op} {word : Word}
    (hname : word.text = name)
    (htype : (performAll context ScopeTree.moduleScope ops M).value.type = type)
    (hmem : ∀ a ∈ Site.actions .module ops, a ∈ m.program) :
    GivesLast context (module.child name) type
      (Site.actions .module ops ++ [⟨.module, .bindName word⟩]) M := by
  refine (givesLast_bindName (hM.run_actions_module context hmem) hname ?_).append_left
  rw [run_actions context _ M (s := .module) rfl]
  exact htype

/-- A pair of an unpacking gives its name the type if what comes behind it does not bind the name. -/
theorem givesLast_pair (hM : M.Steady m.program name module) {hint : Option TypeHint}
    {before after : List (Target × Expr)} {word : Word} {value : Expr} (hname : word.text = name)
    (htype : value.literalType? = some type) (hafter : ∀ op ∈ pairsOps after, op.binds name = false)
    (hmem : ∀ a ∈ Site.actions .module
      (Assignment.unpack hint (before ++ (.name word, value) :: after)).ops, a ∈ m.program) :
    GivesLast context (module.child name) type
      (Site.actions .module (Assignment.unpack hint (before ++ (.name word, value) :: after)).ops)
      M := by
  -- The pair is split off, so that the value is read and bound in front of the pairs behind it.
  have hsplit : (Assignment.unpack hint (before ++ (.name word, value) :: after)).ops =
      (hintOps hint ++ [.discardHint] ++ pairsOps before ++ value.ops ++ [.bindName word]) ++
        ([.discard] ++ pairsOps after ++ [.constant .unknown]) := by
    simp [Assignment.ops, pairsOps_append, pairsOps, Target.assignOps]
  rw [hsplit, Site.actions_append] at hmem ⊢
  obtain ⟨hmemName, hmemAfter⟩ := List.forall_mem_append.1 hmem
  have hname' : GivesLast context (module.child name) type (Site.actions .module
      (hintOps hint ++ [.discardHint] ++ pairsOps before ++ value.ops ++ [.bindName word])) M := by
    rw [Site.actions_append] at hmemName ⊢
    refine givesLast_value hM hname ?_ (List.forall_mem_append.1 hmemName).1
    rw [performAll_append, performAll_ops]
    exact value.type_eval_of_literalType? _ htype
  refine hname'.basic_right (hM.run_actions_module context hmemName) (by simp [Op.isBasic])
    (fun op hop => ?_) hmemAfter
  simp only [List.mem_append, List.mem_singleton, or_assoc] at hop
  rcases hop with rfl | hop | rfl
  · rfl
  · exact hafter op hop
  · rfl

/-- An assignment whose value is one to the name gives it the type if the target does not bind the
name. -/
theorem givesLast_inner (hM : M.Steady m.program name module) {hint : Option TypeHint}
    {target : Target} {value : Assignment} (htarget : ∀ op ∈ target.assignOps, op.binds name = false)
    (hmem : ∀ a ∈ Site.actions .module (Assignment.chained hint target value).ops, a ∈ m.program)
    (hvalue : ∀ {N : Machine}, N.walk = (M.walk.readHint ScopeTree.moduleScope hint).2 →
      N.Steady m.program name module → (∀ a ∈ Site.actions .module value.ops, a ∈ m.program) →
      GivesLast context (module.child name) type (Site.actions .module value.ops) N) :
    GivesLast context (module.child name) type
      (Site.actions .module (Assignment.chained hint target value).ops) M := by
  -- The inner assignment comes first, and what the outer one does behind it leaves the name.
  have hsplit : (Assignment.chained hint target value).ops =
      hintOps hint ++ (value.ops ++ ([.annotate] ++ target.assignOps)) := by
    simp [Assignment.ops]
  rw [hsplit, Site.actions_append, Site.actions_append _ value.ops] at hmem ⊢
  obtain ⟨hmemHint, hmemRest⟩ := List.forall_mem_append.1 hmem
  obtain ⟨hmemValue, hmemTarget⟩ := List.forall_mem_append.1 hmemRest
  have hhint := hM.run_actions_module context hmemHint
  have hread : (run context (Site.actions .module (hintOps hint)) M).walk =
      (M.walk.readHint ScopeTree.moduleScope hint).2 := by
    rw [run_actions context _ M (s := .module) rfl, performAll_hintOps]
    rfl
  refine ((hvalue hread hhint hmemValue).basic_right (hhint.run_actions_module context hmemValue)
    (by simp [Op.isBasic]) (fun op hop => ?_) hmemTarget).append_left
  rcases List.mem_append.1 hop with hop | hop
  · rw [List.mem_singleton.1 hop]
    rfl
  · exact htarget op hop

/-- An assignment at the site of the module gives its name the type. -/
theorem givesLast_assignment {w : Walk} {a : Assignment} (hgives : a.Gives name w type)
    {M : Machine} (hw : M.walk = w) (hM : M.Steady m.program name module)
    (hmem : ∀ b ∈ Site.actions .module a.ops, b ∈ m.program) :
    GivesLast context (module.child name) type (Site.actions .module a.ops) M := by
  -- The induction is on how the assignment gives the name its type.
  induction hgives generalizing M with
  | @plain w hint word value type hname htype =>
    subst hw
    rw [Assignment.ops, Target.assignOps, Site.actions_append] at hmem ⊢
    refine givesLast_value hM hname ?_ (List.forall_mem_append.1 hmem).1
    rw [performAll_append, performAll_append, performAll_hintOps, performAll_ops]
    exact Assignment.type_performAssignment _ _ htype
  | @chained w hint word value type hname htype =>
    subst hw
    rw [Assignment.ops, Target.assignOps, Site.actions_append] at hmem ⊢
    refine givesLast_value hM hname ?_ (List.forall_mem_append.1 hmem).1
    rw [performAll_append, performAll_append, performAll_hintOps, performAll_assignmentOps]
    exact Assignment.type_performAssignment _ _ htype
  | pair hname htype hafter => exact givesLast_pair hM hname htype hafter hmem
  | inner _ htarget ih =>
    subst hw
    exact givesLast_inner hM htarget hmem ih

/-- The annotation of a function is read in front of its name. -/
theorem annotation_place (header : FunctionHeader) (M : Machine) :
    annotation (run context (Site.actions .module (.place header.node header.word ::
      (typeParameterOps header.typeParameters ++ hintOps header.returns))) M) =
      (M.walk.readHint ScopeTree.moduleScope header.returns).1 := by
  have hreport (location : Option Location) :
      ((M.walk.reportTypeParameters location).readHint ScopeTree.moduleScope header.returns).1 =
        (M.walk.readHint ScopeTree.moduleScope header.returns).1 := by
    rcases location with _ | _ <;> rcases header.returns with _ | ⟨_, _⟩ | _ <;> rfl
  rw [run_actions context _ M (s := .module) rfl, performAll_cons, performAll_append,
    performAll_typeParameterOps, performAll_hintOps, ← hreport header.typeParameters]
  rfl

/-- Statements that bind a name only in bodies leave the name of the module alone, if the bodies do
not declare it `global`. -/
theorem leaves_of_site {P : List Action} (hmem : ∀ a ∈ P, a ∈ m.program)
    (hbodies : ∀ a ∈ m.program, a.site ≠ .module → m.binds name a = false)
    (hP : ∀ a ∈ P, a.site = .module → a.op.binds name = false) : m.Leaves name P := by
  refine fun a ha => ⟨hmem a ha, ?_⟩
  by_cases hsite : a.site = .module
  · rw [Module.binds, hP a ha hsite, Bool.false_and]
  · exact hbodies a (hmem a ha) hsite

/-- The head of a class of the module gives its name the class as its type. -/
theorem givesLast_classHead (context : ImportContext) {header : ClassHeader}
    (hname : header.word.text = name) (hM : M.Steady m.program name module)
    (hmem : ∀ a ∈ header.code .module, a ∈ m.program)
    (hbodies : ∀ a ∈ m.program, a.site ≠ .module → m.binds name a = false) :
    GivesLast context (module.child name) (.resolved (module.child name)) (header.code .module) M := by
  have hend : ∀ a ∈ header.code .module, a.op ≠ .endBody := fun a ha =>
    ne_endBody_codeOf [.class header []] .module a (by simp [codeOf, Stmt.code, ha])
  -- The class is declared when it is entered; what it is given is only read.
  rw [header.code_eq] at hmem hend ⊢
  obtain ⟨hmemPlace, hmemEnter⟩ := List.forall_mem_append.1 hmem
  obtain ⟨hmemName, hmemRest⟩ := List.forall_mem_cons.1 hmemEnter
  have hplace := hM.run_actions_module context hmemPlace
  have hd := definitions_place context (M := M) (s := .module) rfl header.node header.word
    (typeParameterOps header.typeParameters) (by simp)
  refine GivesLast.append_left (givesLast_cons ?_ Op.noConfusion ?_
    (List.forall_mem_cons.1 (List.forall_mem_append.1 hend).2).2)
  · change some ((placeOf _ _ header.node header.word).2, BindingType.resolved _) = _
    rw [placeOf_eq hd rfl, hM.wellFormed.walk.bindingPlace_moduleScope, hname]
  · refine (hplace.spares_enterClass context (s := .module) rfl hd rfl hmemName
      (leaves_of_site hmemRest hbodies fun a ha hsite => ?_)).1
    cases (Site.site_of_mem_actions ha).symm.trans hsite

/-- A function of the module whose annotation is known gives its name that type, if its parameters
and other sites do not bind the name. -/
theorem givesLast_function (hM : M.Steady m.program name module) {header : FunctionHeader}
    {body : List Stmt} (hname : header.word.text = name)
    (htype : (M.walk.readHint ScopeTree.moduleScope header.returns).1 = some type)
    (hparameters : ∀ op ∈ header.parameters.flatMap Parameter.ops, op.binds name = false)
    (hmem : ∀ a ∈ (Stmt.function header body).code .module, a ∈ m.program)
    (hbodies : ∀ a ∈ m.program, a.site ≠ .module → m.binds name a = false) :
    GivesLast context (module.child name) type ((Stmt.function header body).code .module) M := by
  have hend : ∀ a ∈ (Stmt.function header body).code .module, a.op ≠ .endBody := fun a ha =>
    ne_endBody_codeOf [.function header body] .module a (by simp [codeOf, ha])
  -- The function is declared when it is entered; its parameters are bound behind that.
  rw [Stmt.code, FunctionBody.actions_defineOps] at hmem hend ⊢
  obtain ⟨hmemPlace, hmemEnter⟩ := List.forall_mem_append.1 hmem
  obtain ⟨hmemName, hmemRest⟩ := List.forall_mem_cons.1 hmemEnter
  have hplace := hM.run_actions_module context hmemPlace
  have hd := definitions_place context (M := M) (s := .module) rfl header.node header.word
    (typeParameterOps header.typeParameters ++ hintOps header.returns) (by simp)
  refine GivesLast.append_left (givesLast_cons ?_ Op.noConfusion ?_
    (List.forall_mem_cons.1 (List.forall_mem_append.1 hend).2).2)
  · change some ((placeOf _ _ header.node header.word).2, Option.getD _ _) = _
    rw [placeOf_eq hd rfl, annotation_place header M, htype,
      hM.wellFormed.walk.bindingPlace_moduleScope, hname, Option.getD_some]
  · refine (hplace.spares_enterFunction context (s := .module) rfl hd rfl hmemName
      (leaves_of_site hmemRest hbodies fun a ha _ => ?_)).1
    obtain ⟨op, hop, rfl⟩ := List.mem_map.1 ha
    rcases List.mem_append.1 hop with hop | hop
    · exact hparameters op hop
    · rw [List.mem_singleton.1 hop]
      rfl

/-- A class of the module gives its name the class as its type, if other sites do not bind the
name. -/
theorem givesLast_class (hM : M.Steady m.program name module) {header : ClassHeader}
    {body : List Stmt} (hname : header.word.text = name)
    (hmem : ∀ a ∈ (Stmt.class header body).code .module, a ∈ m.program)
    (hbodies : ∀ a ∈ m.program, a.site ≠ .module → m.binds name a = false) :
    GivesLast context (module.child name) (.resolved (module.child name))
      ((Stmt.class header body).code .module) M := by
  have hend : ∀ a ∈ (Stmt.class header body).code .module, a.op ≠ .endBody := fun a ha =>
    ne_endBody_codeOf [.class header body] .module a (by simp [codeOf, ha])
  obtain ⟨hmemFront, hmemLeave⟩ := List.forall_mem_append.1 hmem
  obtain ⟨hmemHead, hmemBody⟩ := List.forall_mem_append.1 hmemFront
  obtain ⟨hendFront, hendLeave⟩ := List.forall_mem_append.1 hend
  obtain ⟨-, hendBody⟩ := List.forall_mem_append.1 hendFront
  -- The head, the body and the end of the class, of which the head gives the type.
  have hhead := givesLast_classHead context hname hM hmemHead hbodies
  have hsteady := hM.run context hmemHead (sited_classHead context header M (s := .module) rfl)
  obtain ⟨j, hj⟩ := exists_resolves_classHead context header M (s := .module) rfl
  obtain ⟨hbody, hsteady'⟩ := (compositional_spares context m name module).codeOf body _ hj hsteady
    (leaves_of_site hmemBody hbodies fun a ha hsite =>
      absurd hsite (site_ne_module_of_mem_codeOf body Site.noConfusion ha))
  rw [← run_append] at hsteady'
  exact (hhead.append_right hbody hendBody).append_right
    (hsteady'.spares_actions context (s := .module) rfl (by simp [Op.introduces])
      (leaves_of_site hmemLeave hbodies fun a ha _ => by rw [List.mem_singleton.1 ha]; rfl)).1
    hendLeave

/-- An assignment in a line of the module gives its name the type, if what stands behind it in the
line does not bind the name. -/
theorem givesLast_items (hM : M.Steady m.program name module) {before after : List Item}
    {a : Assignment}
    (ha : a.Gives name (M.walk.performItems ScopeTree.moduleScope before) type)
    (hafter : ∀ op ∈ after.flatMap Item.ops, op.binds name = false)
    (hmem : ∀ b ∈ (Stmt.simple (before ++ .assign a :: after)).code .module, b ∈ m.program) :
    GivesLast context (module.child name) type
      ((Stmt.simple (before ++ .assign a :: after)).code .module) M := by
  -- The assignment is split off, and the items behind it leave the name.
  have hsplit : (before ++ .assign a :: after).flatMap Item.ops =
      before.flatMap Item.ops ++ (a.ops ++ ([.discard] ++ after.flatMap Item.ops)) := by
    simp [Item.ops]
  rw [Stmt.code, hsplit, Site.actions_append, Site.actions_append _ a.ops] at hmem ⊢
  obtain ⟨hmemBefore, hmemRest⟩ := List.forall_mem_append.1 hmem
  obtain ⟨hmemAssign, hmemAfter⟩ := List.forall_mem_append.1 hmemRest
  have hbefore := hM.run_actions_module context hmemBefore
  have hwalk : (run context (Site.actions .module (before.flatMap Item.ops)) M).walk =
      M.walk.performItems ScopeTree.moduleScope before := by
    rw [run_actions context _ M (s := .module) rfl, performAll_flatMap_itemOps]
    rfl
  refine ((givesLast_assignment ha hwalk hbefore hmemAssign).basic_right
    (hbefore.run_actions_module context hmemAssign) (by simp [Op.isBasic]) (fun op hop => ?_)
    hmemAfter).append_left
  rcases List.mem_append.1 hop with hop | hop
  · rw [List.mem_singleton.1 hop]
    rfl
  · exact hafter op hop

/-- A statement of the module gives its name the type, if other sites do not bind the name. -/
theorem givesLast_code {w : Walk} {st : Stmt} (hgives : Stmt.Gives context module name w st type)
    {M : Machine} (hw : M.walk = w) (hM : M.Steady m.program name module)
    (hmem : ∀ a ∈ st.code .module, a ∈ m.program)
    (hbodies : ∀ a ∈ m.program, a.site ≠ .module → m.binds name a = false) :
    GivesLast context (module.child name) type (st.code .module) M := by
  induction hgives generalizing M with
  | function hname htype hparameters =>
    subst hw
    exact givesLast_function hM hname htype hparameters hmem hbodies
  | «class» hname => exact givesLast_class hM hname hmem hbodies
  | assign ha hafter =>
    subst hw
    exact givesLast_items hM ha hafter hmem
  | @block w before after st type hst hafter ih =>
    subst hw
    have hcode : (Stmt.block (before ++ st :: after)).code .module =
        codeOf .module before ++ (st.code .module ++ codeOf .module after) := codeOf_append _ _ _
    rw [hcode] at hmem ⊢
    obtain ⟨hmemBefore, hmemRest⟩ := List.forall_mem_append.1 hmem
    obtain ⟨hmemSt, hmemAfter⟩ := List.forall_mem_append.1 hmemRest
    have hbefore := hM.run context hmemBefore
      ((compositional_sited context).codeOf before M (s := .module) rfl)
    have hwalk : (run context (codeOf .module before) M).walk =
        visitAll context ScopeTree.moduleScope before M.walk := by
      rw [run_codeOf context before M (s := .module) rfl]
      rfl
    -- The statements in front lead to the walk that the statement starts from; those behind it do
    -- not bind the name.
    refine ((ih hwalk hbefore hmemSt).append_right ?_
      (ne_endBody_codeOf after .module)).append_left
    exact ((compositional_spares context m name module).codeOf after _ (s := .module) rfl
      (hbefore.run context hmemSt ((compositional_sited context).code st _ (s := .module) rfl))
      (leaves_of_site hmemAfter hbodies hafter)).1

end Machine

/-! ### Walks over a module -/

/-- True if all functions with a name that a walk has met have an annotation that is known. -/
def Walk.Annotates (w : Walk) (f : Fqn) : Prop :=
  ∀ i info, w.scopes.function? i = some info → info.symbol = f → info.annotated = true

/-- A symbol is annotated if no scope of a function that lacks an annotation belongs to it. -/
theorem Walk.annotates_iff (w : Walk) (f : Fqn) :
    w.Annotates f ↔ ∀ i < w.scopes.size, ∀ info ∈ w.scopes.function? i,
      info.symbol = f → info.annotated = true := by
  refine ⟨fun h i _ info hinfo => h i info hinfo, fun h i info hinfo => h i ?_ info hinfo⟩
  obtain ⟨frame, hframe, -⟩ := Option.bind_eq_some_iff.1 hinfo
  rw [← ScopeTree.isSome_scope?_iff, ScopeTree.scope?, hframe]
  rfl

instance (w : Walk) (f : Fqn) : Decidable (w.Annotates f) :=
  decidable_of_iff _ (w.annotates_iff f).symm

namespace Machine

variable {context : ImportContext} {f : Fqn} {P : List Action} {M : Machine}

/-- What defines no function of a name does not change whether its functions are annotated. -/
theorem annotates_perform {scope : Nat} {op : Op}
    (hop : ∀ type, typing? scope op M = some (f, type) → op = .endBody) (hM : M.walk.Annotates f) :
    (perform context scope op M).walk.Annotates f := by
  -- Only entering a function writes anything down about functions.
  by_cases henter : ∃ g, op = .enterFunction g
  · obtain ⟨g, rfl⟩ := henter
    intro i info hinfo hsymbol
    simp only [perform, setWalk, Walk.function?_enterFunction] at hinfo
    split at hinfo
    · obtain rfl := Option.some.inj hinfo
      exact absurd (hop _ (by rw [typing?, ← hsymbol]; rfl)) Op.noConfusion
    · exact hM i info hinfo hsymbol
  · intro i info hinfo hsymbol
    rw [function?_perform context scope M (not_exists.1 henter)] at hinfo
    exact hM i info hinfo hsymbol

/-- The ends of annotated functions give no types. -/
theorem Spares.typings_eq_nil_of_annotates (h : Spares context f P M) (hM : M.walk.Annotates f) :
    typings context f P M = [] := by
  induction P generalizing M with
  | nil => rfl
  | cons a rest ih =>
    -- All that could give the type is the end of a body, and that gives none to an annotated one.
    obtain ⟨ha, hrest⟩ := spares_cons_iff.1 h
    rw [typings, ih hrest (annotates_perform ha hM), List.append_nil]
    rcases htyping : typing? (M.walk.scopes.resolve a.site) a.op M with _ | ⟨g, type⟩
    · rfl
    · refine if_neg fun hg => ?_
      subst hg
      rw [ha type htyping, typing?, Walk.returnTyping?] at htyping
      split at htyping
      · rename_i info hinfo
        split at htyping
        · rename_i hannotated
          have hsymbol : info.symbol = f := (Prod.mk.inj (Option.some.inj htyping)).1
          rw [hM _ info hinfo hsymbol] at hannotated
          exact absurd hannotated.1 Bool.noConfusion
        · cases htyping
      · cases htyping

/-- What is given a type is declared. -/
theorem declares_of_typing? (context : ImportContext) {scope : Nat} {op : Op} {type : BindingType}
    (h : typing? scope op M = some (f, type)) : (perform context scope op M).walk.Declares f := by
  -- What gives a type declares the symbol, or finds it declared.
  cases op with
  | bindName | parameter =>
    obtain ⟨rfl, -⟩ := Prod.mk.inj (Option.some.inj h)
    exact Walk.declares_declare M.walk _
  | enterClass =>
    obtain ⟨rfl, -⟩ := Prod.mk.inj (Option.some.inj h)
    exact Walk.declares_enterClass _ _ _ _
  | enterFunction g =>
    obtain ⟨rfl, -⟩ := Prod.mk.inj (Option.some.inj h)
    simp only [perform, setWalk, Walk.Declares, Walk.symbols_enterFunction]
    exact Walk.declares_declare M.walk _
  | assignMember | keepMember =>
    obtain ⟨owner, howner, heq⟩ := Option.map_eq_some_iff.1 h
    obtain ⟨rfl, -⟩ := Prod.mk.inj heq
    rw [perform, setWalk, Walk.assignMember, howner]
    exact Walk.declares_declare M.walk _
  | endBody =>
    rw [typing?, Walk.returnTyping?] at h
    split at h
    · split at h
      · rename_i hdeclared
        obtain ⟨rfl, -⟩ := Prod.mk.inj (Option.some.inj h)
        refine Walk.Declares.mono ?_ (grows_perform context scope .endBody M)
        exact (Table.mem_keys_iff _ _).2 hdeclared.2
      · cases h
    · cases h
  | _ => cases h

/-- A symbol that gets a type in a run is declared behind it. -/
theorem declares_of_mem_typings {t : Op × BindingType} (ht : t ∈ typings context f P M) :
    (run context P M).walk.Declares f := by
  induction P generalizing M with
  | nil => cases ht
  | cons a rest ih =>
    rcases (mem_typings_cons_iff context).1 ht with ⟨-, htyping⟩ | ht
    · exact (declares_of_typing? context htyping).mono (grows_run context rest _)
    · exact ih ht

end Machine

/-- If the code of a module gives a name a type, and no body binds the name, the typings of the name
in a walk end with that one and with the ends of bodies of functions with the name. If all these
functions are annotated there are no such ends. -/
theorem Walk.typings_program_of_gives (context : ImportContext) {m : Module} {name : String}
    {type : BindingType} {k : Nat}
    (hgives : Stmt.Gives context context.module name (walks context m k).clearLog (.block m.body) type)
    (hbodies : ∀ a ∈ m.program, a.site ≠ .module → m.binds name a = false) :
    ∃ earlier op ends,
      Machine.typings context (context.module.child name) m.program (.ofWalk (walks context m k)) =
        earlier ++ (op, type) :: ends ∧
      (∀ t ∈ ends, t.1 = .endBody) ∧
      ((visitAll context ScopeTree.moduleScope m.body (walks context m k).clearLog).Annotates
        (context.module.child name) → ends = []) := by
  -- The code of the module gives the type, and behind it there are only ends of bodies.
  have hsteady := steady_walks context m name k
  have hmem := List.forall_mem_append.1 fun a (ha : a ∈ m.program) => ha
  obtain ⟨earlier, op, hcode, -⟩ :=
    Machine.givesLast_code hgives (M := .ofWalk (walks context m k)) rfl hsteady hmem.1 hbodies
  have hrun : Machine.run context (codeOf .module m.body) (.ofWalk (walks context m k)) = _ :=
    Machine.run_codeOf context m.body (s := .module) (.ofWalk (walks context m k)) rfl
  obtain ⟨hends, -⟩ := (Machine.compositional_spares context m name context.module).bodies m k
    (hsteady.run context hmem.1
      ((Machine.compositional_sited context).codeOf m.body _ (s := .module) rfl))
    fun a ha => ⟨hmem.2 a ha, hbodies a (hmem.2 a ha) (by
      obtain ⟨f, -, ha⟩ := List.mem_flatMap.1 ha
      exact f.site_ne_module ha)⟩
  refine ⟨earlier, op, _, ?_, hends, fun hannotates => hends.typings_eq_nil_of_annotates ?_⟩
  · rw [Module.program, Module.code, Machine.typings_append]
    exact (congrArg (· ++ _) hcode).trans (by rw [List.append_assoc]; rfl)
  · rw [hrun]
    exact hannotates

end NameAtlas.Python
