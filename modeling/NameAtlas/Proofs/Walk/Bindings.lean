import NameAtlas.Proofs.Walk.Agreement
import NameAtlas.Proofs.Walk.Entered
import NameAtlas.Proofs.Walk.Globals

/-!
# The last binding of a name of the module

A binding at the site of the module gives the name its type, and whatever binds the name nowhere
leaves the type alone (`Machine.Spares`), with one exception: the end of the body of a function
without an annotation gives the function a type wherever it was defined, and all bodies are read
behind the code of the module. So if the bodies do not bind the name, its type is that of the last
statement of the module that gives it one (`Stmt.Gives`), unless a body of an earlier function with
that name ends behind it.
-/

namespace NameAtlas.Python

/-! ### Runs that leave a type alone -/

/-- Some actions of a module, none of which binds a name in the scope of the module. -/
def Module.Leaves (m : Module) (name : String) (P : List Action) : Prop :=
  ∀ a ∈ P, a ∈ m.program ∧ m.binds name a = false

/-- True for the operations that declare what a definition consists of. -/
def Op.introduces : Op → Bool
  | .enterFunction _ | .enterClass _ | .parameter _ => true
  | _ => false

/-- Basic operations introduce no names. -/
theorem Op.introduces_of_isBasic {op : Op} (h : op.isBasic) : op.introduces = false := by
  cases op <;> first | rfl | cases h

namespace Machine

variable (context : ImportContext)

/-- Nothing in a run gives a symbol a type, besides the ends of function bodies. -/
def Spares (f : Fqn) (P : List Action) (M : Machine) : Prop :=
  ∀ t ∈ typings context f P M, t.1 = .endBody

variable {context} {f : Fqn} {P P' : List Action} {M : Machine}

/-- A run of no actions spares every symbol. -/
theorem spares_nil (f : Fqn) (M : Machine) : Spares context f [] M := nofun

/-- Two runs, one after the other, spare a symbol if each of them does. -/
theorem Spares.append (h : Spares context f P M) (h' : Spares context f P' (run context P M)) :
    Spares context f (P ++ P') M := by
  rw [Spares, typings_append]
  exact List.forall_mem_append.2 ⟨h, h'⟩

/-- A run spares a symbol if its first action does and the rest does. -/
theorem spares_cons_iff {a : Action} {rest : List Action} :
    Spares context f (a :: rest) M ↔
      (∀ type, typing? (M.walk.scopes.resolve a.site) a.op M = some (f, type) → a.op = .endBody) ∧
        Spares context f rest (step context M a) := by
  rw [Spares, typings, List.forall_mem_append]
  refine and_congr_left fun _ => ?_
  rcases typing? (M.walk.scopes.resolve a.site) a.op M with _ | ⟨g, type⟩
  · simp
  · by_cases hg : f = g
    · simp [hg]
    · simp [hg, Ne.symm hg]

/-- The operations that give a symbol a type are those of the run. -/
theorem mem_map_of_mem_typings {t : Op × BindingType} (ht : t ∈ typings context f P M) :
    t.1 ∈ P.map Action.op := by
  induction P generalizing M with
  | nil => cases ht
  | cons a rest ih =>
    rcases (mem_typings_cons_iff context).1 ht with ⟨hop, -⟩ | ht
    · exact List.mem_cons.2 (.inl hop)
    · exact List.mem_cons_of_mem _ (ih ht)

/-- Where no body ends, a run that leaves a type alone does not give one. -/
theorem Spares.typings_eq_nil (h : Spares context f P M) (hP : ∀ a ∈ P, a.op ≠ .endBody) :
    typings context f P M = [] := by
  refine List.eq_nil_iff_forall_not_mem.2 fun t ht => ?_
  obtain ⟨a, ha, hop⟩ := List.mem_map.1 (mem_map_of_mem_typings ht)
  exact hP a ha (hop.trans (h t ht))

variable (context) {m : Module} {name : String} {module : Fqn} {s : Site} {i : Nat}

/-- What introduces nothing and does not bind the name of a symbol of the module leaves the symbol
alone. -/
theorem Steady.typing?_ne (h : M.Steady m.program name module) (hi : M.walk.scopes.Resolves s i)
    {op : Op} (hintroduces : op.introduces = false) (hbinds : m.binds name ⟨s, op⟩ = false)
    {type : BindingType} (htyping : typing? i op M = some (module.child name, type)) :
    op = .endBody := by
  cases op with
  | bindName word =>
    refine absurd (Prod.mk.inj (Option.some.inj htyping)).1 (h.bindingPlace_ne hi fun hname => ?_)
    simpa [Module.binds, Op.binds, hname] using hbinds
  | assignMember | keepMember => exact absurd htyping (h.memberTyping?_ne _ _ _ _)
  | endBody => rfl
  | enterFunction | enterClass | parameter => cases hintroduces
  | _ => cases htyping

/-- Operations leave a symbol alone if each of them does, and the machine stays steady. What the
operations keep may be used for that. -/
theorem Steady.spares_of {ops : List Op} (h : M.Steady m.program name module)
    (hi : M.walk.scopes.Resolves s i) (hleaves : m.Leaves name (s.actions ops))
    {I : Machine → Prop} (hM : I M) (hI : ∀ op ∈ ops, ∀ N, I N → I (Machine.perform context i op N))
    (hops : ∀ op ∈ ops, ∀ N type, N.Steady m.program name module → N.walk.scopes.Resolves s i →
      m.binds name ⟨s, op⟩ = false → I N → typing? i op N = some (module.child name, type) →
      op = .endBody) :
    Spares context (module.child name) (s.actions ops) M ∧
      (Machine.run context (s.actions ops) M).Steady m.program name module := by
  -- The induction is on the operations; the invariant is handed from one to the next.
  induction ops generalizing M with
  | nil => exact ⟨spares_nil _ _, h⟩
  | cons op rest ih =>
    obtain ⟨⟨hmem, hbinds⟩, hleaves⟩ := List.forall_mem_cons.1 hleaves
    obtain ⟨hop, hops⟩ := List.forall_mem_cons.1 hops
    obtain ⟨hkeep, hI⟩ := List.forall_mem_cons.1 hI
    have hscope : M.walk.scopes.resolve s = i := hi.resolve_eq
    have hstep : I (Machine.step context M ⟨s, op⟩) := by
      rw [Machine.step, hscope]
      exact hkeep M hM
    obtain ⟨hrest, hsteady⟩ := ih (h.step context hmem ⟨i, hi⟩)
      (hi.mono (grows_perform context _ op M).scopes) hleaves hstep hI hops
    refine ⟨spares_cons_iff.2 ⟨fun type htyping => ?_, hrest⟩, hsteady⟩
    exact hop M type h hi hbinds hM (hscope ▸ htyping)

/-- Operations that introduce no names spare a symbol whose name they leave. -/
theorem Steady.spares_actions {ops : List Op} (h : M.Steady m.program name module)
    (hi : M.walk.scopes.Resolves s i) (hops : ∀ op ∈ ops, op.introduces = false)
    (hleaves : m.Leaves name (s.actions ops)) :
    Spares context (module.child name) (s.actions ops) M ∧
      (Machine.run context (s.actions ops) M).Steady m.program name module :=
  h.spares_of context hi hleaves (I := fun _ => True) trivial (fun _ _ _ _ => trivial)
    fun op hop _ _ hN hi hbinds _ htyping => hN.typing?_ne hi (hops op hop) hbinds htyping

end Machine

/-! ### Definitions -/

namespace Machine

variable (context : ImportContext) {M : Machine} {m : Module} {name : String} {module : Fqn}
  {s : Site} {i : Nat}


/-- True if the definition under way has opened the scope of a body. -/
def IsInside (M : Machine) : Prop := ∃ node, M.walk.scopes.Resolves (.body node) M.definition.inner

/-- Basic operations leave the definitions under way. -/
theorem definitions_basic (scope : Nat) {op : Op} (hop : op.isBasic) (M : Machine) :
    (perform context scope op M).definitions = M.definitions := by
  cases op <;> first | rfl | cases hop

/-- Declaring a parameter leaves the scope of the definition under way. -/
theorem inner_parameter (scope : Nat) (word : Word) (M : Machine) :
    (perform context scope (.parameter word) M).definition.inner = M.definition.inner := by
  obtain ⟨walk, values, hints, definitions⟩ := M
  cases definitions <;> rfl

/-- Basic operations and parameters stay inside a definition. -/
theorem IsInside.perform (hM : M.IsInside) (scope : Nat) {op : Op}
    (hop : op.isBasic ∨ ∃ word, op = .parameter word) : (perform context scope op M).IsInside := by
  obtain ⟨node, hnode⟩ := hM
  have hinner : (Machine.perform context scope op M).definition.inner = M.definition.inner := by
    rcases hop with hop | ⟨word, rfl⟩
    · rw [definition, definition, definitions_basic context scope hop]
    · exact inner_parameter context scope word M
  exact ⟨node, hinner ▸ hnode.mono (grows_perform context scope op M).scopes⟩

/-- A parameter is no symbol of the module, as the scope of a body is not that of the module. -/
theorem Steady.typing?_parameter_ne (h : M.Steady m.program name module) (hM : M.IsInside)
    (word : Word) (type : BindingType) :
    typing? i (.parameter word) M ≠ some (module.child name, type) := by
  intro htyping
  obtain ⟨node, hnode⟩ := hM
  obtain ⟨howner, -⟩ := Fqn.child_injective (Prod.mk.inj (Option.some.inj htyping)).1
  -- The function around the parameter is not the module, so its names lie below the module.
  have hpos : 0 < M.definition.inner := by
    refine Nat.pos_of_ne_zero fun h0 => ?_
    rw [h0] at hnode
    exact Site.noConfusion (h.sources.injective (.body node) .module _ hnode rfl)
  obtain ⟨scope, hscope⟩ := Option.isSome_iff_exists.1
    ((M.walk.scopes.isSome_scope?_iff _).2 (h.wellFormed.walk.scopes.lt_of_resolves hnode))
  rw [ScopeTree.ownerOf_eq, hscope] at howner
  exact Fqn.ne_of_liesBelow (h.wellFormed.walk.scopes.inner _ scope hpos hscope).2.1 howner

/-- The definition under way is that of a node that was placed before basic operations. -/
theorem definitions_place (hi : M.walk.scopes.Resolves s i) (node : Nat) (word : Word)
    (ops : List Op) (hops : ops.all Op.isBasic) :
    (run context (s.actions (.place node word :: ops)) M).definitions =
      ⟨node, M.walk.bindingPlace i word.text, [], none, 0⟩ :: M.definitions := by
  -- Only the first operation begins a definition.
  have hbasic : ∀ (ops : List Op) N, ops.all Op.isBasic →
      (performAll context i ops N).definitions = N.definitions := by
    intro ops
    induction ops with
    | nil => exact fun _ _ => rfl
    | cons op rest ih =>
      intro N h
      obtain ⟨hop, hrest⟩ := (List.all_cons ▸ Bool.and_eq_true_iff).1 h
      rw [performAll_cons, ih _ hrest, definitions_basic context i hop]
  rw [run_actions context _ M hi, performAll_cons, hbasic ops _ hops]
  rfl

/-- Entering a function opens the scope of its body. -/
theorem isInside_enterFunction (scope : Nat) (g : FunctionBody) {d : Definition}
    {rest : List Definition} (h : M.definitions = d :: rest) (hnode : d.node = g.header.node) :
    (perform context scope (.enterFunction g) M).IsInside := by
  refine ⟨g.header.node, ?_⟩
  rw [perform_enterFunction context scope g h hnode]
  exact Walk.byNode_enterFunction _ _ _ _ _

/-- The operations of parameters are basic, or declare one. -/
theorem basic_or_parameter (ps : List Parameter) :
    ∀ op ∈ ps.flatMap Parameter.ops, op.isBasic ∨ ∃ word, op = .parameter word := by
  intro op hop
  obtain ⟨p, -, hop⟩ := List.mem_flatMap.1 hop
  cases p with
  | named word hint default =>
    have hbasic : ((hintOps hint ++ defaultOps default).all Op.isBasic) := by simp
    rcases List.mem_append.1 hop with hop | hop
    · exact .inl (List.all_eq_true.1 hbasic op hop)
    · exact .inr ⟨word, List.mem_singleton.1 hop⟩
  | unsupported shape snippet location =>
    obtain rfl := List.mem_singleton.1 hop
    exact .inl rfl

/-- The parameters of a function leave the symbols of the module alone. -/
theorem Steady.spares_parameters (h : M.Steady m.program name module)
    (hi : M.walk.scopes.Resolves s i) (hM : M.IsInside) (ps : List Parameter)
    (hleaves : m.Leaves name (s.actions (ps.flatMap Parameter.ops ++ [.leaveFunction]))) :
    Spares context (module.child name) (s.actions (ps.flatMap Parameter.ops ++ [.leaveFunction])) M ∧
      (Machine.run context (s.actions (ps.flatMap Parameter.ops ++ [.leaveFunction])) M).Steady
        m.program name module := by
  rw [Site.actions, List.map_append] at hleaves ⊢
  obtain ⟨hparameters, hleave⟩ := List.forall_mem_append.1 hleaves
  obtain ⟨hspares, hsteady⟩ := h.spares_of context hi hparameters hM
    (fun op hop _ hN => hN.perform context i (basic_or_parameter ps op hop))
    -- A parameter binds its name in the scope of the function, not in that of the module.
    fun op hop N type hN hi hbinds hinside htyping => by
      rcases basic_or_parameter ps op hop with hop | ⟨word, rfl⟩
      · exact hN.typing?_ne hi (Op.introduces_of_isBasic hop) hbinds htyping
      · exact absurd htyping (hN.typing?_parameter_ne hinside word type)
  obtain ⟨hspares', hsteady'⟩ := hsteady.spares_actions context
    (hi.mono (grows_run context _ M).scopes) (by simp [Op.introduces]) hleave
  rw [run_append]
  exact ⟨hspares.append hspares', hsteady'⟩

/-- What stands in front of a definition of the module gives its name no type. -/
theorem Steady.spares_place (h : M.Steady m.program name module) (hi : M.walk.scopes.Resolves s i)
    (node : Nat) (word : Word) {ops : List Op} (hops : ops.all Op.isBasic)
    (hleaves : m.Leaves name (s.actions (.place node word :: ops))) :
    Spares context (module.child name) (s.actions (.place node word :: ops)) M ∧
      (Machine.run context (s.actions (.place node word :: ops)) M).Steady m.program name module :=
  h.spares_actions context hi (List.forall_mem_cons.2
    ⟨rfl, fun _ hop => Op.introduces_of_isBasic (List.all_eq_true.1 hops _ hop)⟩) hleaves

/-- Behind the name of a function nothing gives the symbols of the module a type. -/
theorem Steady.spares_enterFunction (h : M.Steady m.program name module)
    (hi : M.walk.scopes.Resolves s i) {g : FunctionBody} {d : Definition} {rest : List Definition}
    (hd : M.definitions = d :: rest) (hnode : d.node = g.header.node)
    (hmem : ⟨s, .enterFunction g⟩ ∈ m.program)
    (hleaves :
      m.Leaves name (s.actions (g.header.parameters.flatMap Parameter.ops ++ [.leaveFunction]))) :
    Spares context (module.child name)
        (s.actions (g.header.parameters.flatMap Parameter.ops ++ [.leaveFunction]))
        (Machine.step context M ⟨s, .enterFunction g⟩) ∧
      (Machine.run context
        (s.actions (g.header.parameters.flatMap Parameter.ops ++ [.leaveFunction]))
        (Machine.step context M ⟨s, .enterFunction g⟩)).Steady m.program name module :=
  (h.step context hmem ⟨i, hi⟩).spares_parameters context
    (hi.mono (grows_perform context _ _ M).scopes)
    (isInside_enterFunction context _ g hd hnode) _ hleaves

/-- Behind the name of a class nothing in its head gives the symbols of the module a type. -/
theorem Steady.spares_enterClass (h : M.Steady m.program name module)
    (hi : M.walk.scopes.Resolves s i) {c : ClassHeader} {d : Definition} {rest : List Definition}
    (hd : M.definitions = d :: rest) (hnode : d.node = c.node) (hmem : ⟨s, .enterClass c⟩ ∈ m.program)
    (hleaves :
      m.Leaves name (Site.actions (.body c.node) (c.arguments.flatMap ClassArgument.ops ++ [.setBases]))) :
    Spares context (module.child name)
        (Site.actions (.body c.node) (c.arguments.flatMap ClassArgument.ops ++ [.setBases]))
        (Machine.step context M ⟨s, .enterClass c⟩) ∧
      (Machine.run context
        (Site.actions (.body c.node) (c.arguments.flatMap ClassArgument.ops ++ [.setBases]))
        (Machine.step context M ⟨s, .enterClass c⟩)).Steady m.program name module := by
  have hopen : (Machine.step context M ⟨s, .enterClass c⟩).walk.scopes.Resolves (.body c.node)
      (M.walk.enterClass (M.walk.scopes.resolve s) c d.place).1 := by
    rw [Machine.step, perform_enterClass context _ c hd hnode]
    exact resolves_enterClass _ _ _ _
  -- What a class is given is only read, so it introduces no names.
  refine (h.step context hmem ⟨i, hi⟩).spares_actions context hopen (fun op hop => ?_) hleaves
  rcases List.mem_append.1 hop with hop | hop
  · obtain ⟨a, -, hop⟩ := List.mem_flatMap.1 hop
    cases a with
    | keyword value =>
      exact Op.introduces_of_isBasic
        (List.all_eq_true.1 (basic_of_inner value.inner_readOps) op hop)
    | base value =>
      rcases List.mem_append.1 hop with hop | hop
      · exact Op.introduces_of_isBasic
          (List.all_eq_true.1 (basic_of_inner value.inner_ops) op hop)
      · rw [List.mem_singleton.1 hop]
        rfl
  · rw [List.mem_singleton.1 hop]
    rfl

/-- The definition of a function elsewhere leaves the symbols of the module alone. -/
theorem Steady.spares_function (h : M.Steady m.program name module)
    (hi : M.walk.scopes.Resolves s i) (g : FunctionBody)
    (hleaves : m.Leaves name (s.actions g.defineOps)) :
    Spares context (module.child name) (s.actions g.defineOps) M ∧
      (Machine.run context (s.actions g.defineOps) M).Steady m.program name module := by
  rw [g.actions_defineOps] at hleaves ⊢
  obtain ⟨hplace, henter⟩ := List.forall_mem_append.1 hleaves
  obtain ⟨⟨hmem, hbinds⟩, hparameters⟩ := List.forall_mem_cons.1 henter
  obtain ⟨hspares, hsteady⟩ := h.spares_place context hi _ _ (by simp) hplace
  have hd := definitions_place context hi g.header.node g.header.word
    (typeParameterOps g.header.typeParameters ++ hintOps g.header.returns) (by simp)
  obtain ⟨hspares', hsteady'⟩ := hsteady.spares_enterFunction context
    (hi.mono (grows_run context _ M).scopes) hd rfl hmem hparameters
  rw [run_append]
  refine ⟨hspares.append (spares_cons_iff.2 ⟨fun type htyping => ?_, hspares'⟩), hsteady'⟩
  -- The function is entered at the place that its name had in front of the annotation.
  refine absurd (Prod.mk.inj (Option.some.inj htyping)).1 ?_
  rw [placeOf_eq hd rfl]
  exact h.bindingPlace_ne hi fun hname => by simpa [Module.binds, Op.binds, hname] using hbinds

/-- The head of a class elsewhere leaves the symbols of the module alone. -/
theorem Steady.spares_classHead (h : M.Steady m.program name module)
    (hi : M.walk.scopes.Resolves s i) (c : ClassHeader) (hleaves : m.Leaves name (c.code s)) :
    Spares context (module.child name) (c.code s) M ∧
      (Machine.run context (c.code s) M).Steady m.program name module := by
  rw [c.code_eq] at hleaves ⊢
  obtain ⟨hplace, henter⟩ := List.forall_mem_append.1 hleaves
  obtain ⟨⟨hmem, hbinds⟩, harguments⟩ := List.forall_mem_cons.1 henter
  obtain ⟨hspares, hsteady⟩ := h.spares_place context hi _ _ (by simp) hplace
  have hd := definitions_place context hi c.node c.word (typeParameterOps c.typeParameters) (by simp)
  obtain ⟨hspares', hsteady'⟩ := hsteady.spares_enterClass context
    (hi.mono (grows_run context _ M).scopes) hd rfl hmem harguments
  rw [run_append]
  -- The class itself gets a type when it is entered, but it is not bound in the module.
  refine ⟨hspares.append (spares_cons_iff.2 ⟨fun type htyping => ?_, hspares'⟩), hsteady'⟩
  refine absurd (Prod.mk.inj (Option.some.inj htyping)).1 ?_
  rw [placeOf_eq hd rfl]
  exact h.bindingPlace_ne hi fun hname => by simpa [Module.binds, Op.binds, hname] using hbinds

/-- Code that binds a name elsewhere leaves the type of that name in the module alone, and code that
is steady stays so. -/
theorem compositional_spares (m : Module) (name : String) (module : Fqn) :
    Compositional context fun P M => M.Steady m.program name module → m.Leaves name P →
      Spares context (module.child name) P M ∧ (run context P M).Steady m.program name module where
  nil M h _ := ⟨spares_nil _ M, h⟩
  -- Runs are split in the same way as what they leave.
  append hA hB h hleaves := by
    obtain ⟨hleavesA, hleavesB⟩ := List.forall_mem_append.1 hleaves
    obtain ⟨hspares, hsteady⟩ := hA h hleavesA
    obtain ⟨hspares', hsteady'⟩ := hB hsteady hleavesB
    rw [run_append]
    exact ⟨hspares.append hspares', hsteady'⟩
  basic s i ops M hi hops h hleaves :=
    h.spares_actions context hi
      (fun op hop => Op.introduces_of_isBasic (List.all_eq_true.1 hops op hop)) hleaves
  function s i g M hi h hleaves := h.spares_function context hi g hleaves
  classBody s i header body M hi hbody h hleaves := by
    obtain ⟨hclass, hleave⟩ := List.forall_mem_append.1 hleaves
    obtain ⟨hhead, hinner⟩ := List.forall_mem_append.1 hclass
    obtain ⟨hspares, hsteady⟩ := h.spares_classHead context hi header hhead
    obtain ⟨hspares', hsteady'⟩ := hbody hsteady hinner
    rw [← run_append] at hsteady'
    obtain ⟨hspares'', hsteady''⟩ := hsteady'.spares_actions context
      (hi.mono (grows_run context _ M).scopes) (by simp [Op.introduces]) hleave
    rw [Stmt.code, run_append]
    exact ⟨(hspares.append hspares').append hspares'', hsteady''⟩
  functionBody i g M hi hbody h hleaves := by
    obtain ⟨hfront, hend⟩ := List.forall_mem_append.1 hleaves
    obtain ⟨hbegin, hinner⟩ := List.forall_mem_append.1 hfront
    obtain ⟨hspares, hsteady⟩ := h.spares_actions context hi (by simp [Op.introduces]) hbegin
    obtain ⟨hspares', hsteady'⟩ := hbody hsteady hinner
    rw [← run_append] at hsteady'
    obtain ⟨hspares'', hsteady''⟩ := hsteady'.spares_actions context
      (hi.mono (grows_run context _ M).scopes) (by simp [Op.introduces]) hend
    rw [FunctionBody.code, run_append]
    exact ⟨(hspares.append hspares').append hspares'', hsteady''⟩

end Machine

end NameAtlas.Python
