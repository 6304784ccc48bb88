import NameAtlas.Proofs.Walk.Bindings

/-!
# What writes over the type of a definition

Behind its last definition a symbol can get another type in two ways only: its name is bound to a
value, or the body of a function with the name ends (`Machine.overwrites_of_typing?`). The body ends
long after the function was defined, so a function that stands in front of a class may still write
over the type of the class. If the code of a module binds a name by class statements and imports only,
there is neither a value nor a function, and nothing but class statements gives the symbols with that
name a type (`Walk.exists_enterClass_of_mem_typings`).
-/

namespace NameAtlas.Python

/-- True for the operations that bind a name to a value or to a function. -/
def Op.rebinds (name : String) : Op → Bool
  | .bindName word | .parameter word | .assignMember word | .keepMember word => word.text = name
  | .enterFunction f => f.header.word.text = name
  | _ => false

/-- True for the operations that may give a symbol a type behind its definition: those that bind its
name to a value, and the ends of bodies. -/
def Op.Overwrites (f : Fqn) : Op → Prop
  | .bindName word | .parameter word | .assignMember word | .keepMember word =>
    f.name? = some word.text
  | .endBody => True
  | _ => False

/-- True if no function that a walk has met is a given symbol. -/
def Walk.HasNoFunction (w : Walk) (f : Fqn) : Prop :=
  ∀ i info, w.scopes.function? i = some info → info.symbol ≠ f

namespace Machine

variable {context : ImportContext} {f : Fqn} {name : String} {P P' : List Action} {M : Machine}

/-! ### One operation -/

/-- What gives a symbol a type defines it, binds its name to a value, or ends a body. -/
theorem overwrites_of_typing? {scope : Nat} {op : Op} {type : BindingType}
    (h : typing? scope op M = some (f, type)) : op.defines ∨ op.Overwrites f := by
  cases op with
  | bindName | parameter =>
    obtain ⟨rfl, -⟩ := Prod.mk.inj (Option.some.inj h)
    exact .inr (Fqn.name?_child _ _)
  | assignMember | keepMember =>
    obtain ⟨owner, -, heq⟩ := Option.map_eq_some_iff.1 h
    obtain ⟨rfl, -⟩ := Prod.mk.inj heq
    exact .inr (Fqn.name?_child _ _)
  | enterFunction | enterClass => exact .inl rfl
  | endBody => exact .inr trivial
  | _ => cases h

/-- Where no function is the symbol, the end of a body does not give it a type. -/
theorem typing?_endBody_ne (hM : M.walk.HasNoFunction f) (scope : Nat) (type : BindingType) :
    typing? scope .endBody M ≠ some (f, type) := by
  intro h
  rw [typing?, Walk.returnTyping?] at h
  split at h
  · next info hinfo =>
    split at h
    · exact hM scope info hinfo (Prod.mk.inj (Option.some.inj h)).1
    · cases h
  · cases h

/-- What does not bind the name of a symbol gives it a type only as a class. -/
theorem exists_enterClass_of_typing? (hname : f.name? = some name) (hM : M.walk.HasNoFunction f)
    {scope : Nat} {op : Op} (hop : op.rebinds name = false) (hne : ∀ g, op ≠ .enterFunction g)
    {type : BindingType} (h : typing? scope op M = some (f, type)) :
    ∃ header, op = .enterClass header := by
  have hwrites := overwrites_of_typing? h
  cases op with
  | enterClass header => exact ⟨header, rfl⟩
  | enterFunction g => exact absurd rfl (hne g)
  | bindName word | parameter word | assignMember word | keepMember word =>
    -- The name of the symbol would be the one that is bound.
    have hword : some name = some word.text := hname.symm.trans (hwrites.resolve_left nofun)
    simp [Op.rebinds, Option.some.inj hword] at hop
  | endBody => exact absurd h (typing?_endBody_ne hM scope type)
  | _ => cases h

/-! ### Runs -/

/-- What gives a symbol a type in a run and does not define it binds its name to a value, or ends a
body. -/
theorem overwrites_of_mem_typings {t : Op × BindingType} (ht : t ∈ typings context f P M)
    (hdefines : t.1.defines = false) : t.1.Overwrites f := by
  induction P generalizing M with
  | nil => cases ht
  | cons a rest ih =>
    rcases (mem_typings_cons_iff context).1 ht with ⟨hop, htyping⟩ | ht
    · exact (hop ▸ overwrites_of_typing? htyping).resolve_left (by simp [hdefines])
    · exact ih ht

/-- Basic operations define no functions. -/
theorem ne_enterFunction_of_basic {ops : List Op} (h : ops.all Op.isBasic) :
    ∀ op ∈ ops, ∀ g, op ≠ .enterFunction g := by
  rintro op hop g rfl
  exact Bool.noConfusion (List.all_eq_true.1 h _ hop)

/-- Parameters define no functions. -/
theorem ne_enterFunction_of_parameters (ps : List Parameter) :
    ∀ op ∈ ps.flatMap Parameter.ops, ∀ g, op ≠ .enterFunction g := by
  rintro op hop g rfl
  obtain hbasic | ⟨word, heq⟩ := basic_or_parameter ps _ hop
  · cases hbasic
  · cases heq

/-- The head of a class defines no functions. -/
theorem ne_enterFunction_of_mem_classHead {s : Site} (header : ClassHeader) :
    ∀ a ∈ header.code s, ∀ g, a.op ≠ .enterFunction g := by
  -- A class is given expressions, which enter no function.
  have harguments : ∀ op ∈ header.arguments.flatMap ClassArgument.ops ++ [.setBases],
      ∀ g, op ≠ .enterFunction g := by
    refine List.forall_mem_append.2 ⟨fun op hop => ?_, by simp⟩
    obtain ⟨a, -, hop⟩ := List.mem_flatMap.1 hop
    cases a with
    | keyword value => exact ne_enterFunction_of_basic (basic_of_inner value.inner_readOps) op hop
    | base value =>
      exact List.forall_mem_append.2 ⟨ne_enterFunction_of_basic (by simp), by simp⟩ op hop
  have hparameters : ∀ op ∈ typeParameterOps header.typeParameters, ∀ g, op ≠ .enterFunction g :=
    ne_enterFunction_of_basic (by simp)
  rw [header.code_eq]
  exact List.forall_mem_append.2
    ⟨List.forall_mem_cons.2 ⟨fun _ => Op.noConfusion, List.forall_mem_map.2 hparameters⟩,
      List.forall_mem_cons.2 ⟨fun _ => Op.noConfusion, List.forall_mem_map.2 harguments⟩⟩

/-- A run in which only class statements give a symbol a type, and in which no function becomes the
symbol. -/
structure OnlyClasses (context : ImportContext) (f : Fqn) (P : List Action) (M : Machine) :
    Prop where
  /-- The typings are those of class statements. -/
  typings : ∀ t ∈ typings context f P M, ∃ header, t.1 = .enterClass header
  /-- No function is the symbol behind the run. -/
  functions : (run context P M).walk.HasNoFunction f

namespace OnlyClasses

/-- Such runs may follow one another. -/
theorem append (h : OnlyClasses context f P M) (h' : OnlyClasses context f P' (run context P M)) :
    OnlyClasses context f (P ++ P') M where
  typings := by
    rw [typings_append]
    exact List.forall_mem_append.2 ⟨h.typings, h'.typings⟩
  functions := by
    rw [run_append]
    exact h'.functions

/-- An action may be done in front if it gives the symbol a type only as a class. -/
theorem cons {a : Action} (h : OnlyClasses context f P (step context M a))
    (ha : ∀ type, typing? (M.walk.scopes.resolve a.site) a.op M = some (f, type) →
      ∃ header, a.op = .enterClass header) : OnlyClasses context f (a :: P) M where
  typings t ht := by
    rcases (mem_typings_cons_iff context).1 ht with ⟨hop, htyping⟩ | ht
    · exact hop ▸ ha t.2 htyping
    · exact h.typings t ht
  functions := h.functions

variable (context) (hname : f.name? = some name)

include hname

/-- A run that defines no functions, and does not bind the name of the symbol, is one of them. -/
theorem of_ne (hP : ∀ a ∈ P, a.op.rebinds name = false)
    (hne : ∀ a ∈ P, ∀ g, a.op ≠ .enterFunction g) (hM : M.walk.HasNoFunction f) :
    OnlyClasses context f P M := by
  induction P generalizing M with
  | nil => exact ⟨nofun, hM⟩
  | cons a rest ih =>
    obtain ⟨ha, hrest⟩ := List.forall_mem_cons.1 hP
    obtain ⟨hnea, hnerest⟩ := List.forall_mem_cons.1 hne
    have hstep : (step context M a).walk.HasNoFunction f := fun i info hinfo => by
      rw [step, function?_perform context _ M hnea] at hinfo
      exact hM i info hinfo
    exact (ih hrest hnerest hstep).cons fun _ =>
      exists_enterClass_of_typing? hname hM ha hnea

/-- Operations at one site likewise. -/
theorem of_actions {s : Site} {ops : List Op} (hP : ∀ a ∈ s.actions ops, a.op.rebinds name = false)
    (hne : ∀ op ∈ ops, ∀ g, op ≠ .enterFunction g) (hM : M.walk.HasNoFunction f) :
    OnlyClasses context f (s.actions ops) M :=
  of_ne context hname hP (List.forall_mem_map.2 hne) hM

/-- The definition of a function with another name gives the symbol no type. -/
theorem defineOps {s : Site} {i : Nat} (hi : M.walk.scopes.Resolves s i) (g : FunctionBody)
    (hP : ∀ a ∈ s.actions g.defineOps, a.op.rebinds name = false) (hM : M.walk.HasNoFunction f) :
    OnlyClasses context f (s.actions g.defineOps) M := by
  rw [g.actions_defineOps] at hP ⊢
  obtain ⟨hfront, henter⟩ := List.forall_mem_append.1 hP
  obtain ⟨hg, hparameters⟩ := List.forall_mem_cons.1 henter
  have hbefore := of_actions context hname hfront (List.forall_mem_cons.2
    ⟨fun _ => Op.noConfusion, ne_enterFunction_of_basic (by simp)⟩) hM
  -- The function is entered at the place that its name had in front of the annotation.
  have hd := definitions_place context hi g.header.node g.header.word
    (typeParameterOps g.header.typeParameters ++ hintOps g.header.returns) (by simp)
  have hne : (M.walk.bindingPlace i g.header.word.text).2 ≠ f := fun heq => by
    rw [← heq, show (M.walk.bindingPlace i g.header.word.text).2.name? = _ from
      Fqn.name?_child _ _, Option.some.injEq] at hname
    simp [Op.rebinds, hname] at hg
  refine hbefore.append (.cons (of_actions context hname hparameters ?_ fun j info hinfo => ?_)
    fun type htyping => ?_)
  · exact List.forall_mem_append.2 ⟨ne_enterFunction_of_parameters _, by simp⟩
  · rw [step, perform_enterFunction context _ g hd rfl, Walk.function?_enterFunction] at hinfo
    split at hinfo
    · exact Option.some.inj hinfo ▸ hne
    · exact hbefore.functions j info hinfo
  · rw [typing?, placeOf_eq hd rfl] at htyping
    exact absurd (Prod.mk.inj (Option.some.inj htyping)).1 hne

end OnlyClasses

/-- Code that binds the name of a symbol by class statements and imports only is one of them. -/
theorem compositional_onlyClasses (context : ImportContext) (hname : f.name? = some name) :
    Compositional context fun P M => (∀ a ∈ P, a.op.rebinds name = false) →
      M.walk.HasNoFunction f → OnlyClasses context f P M where
  -- Runs are split as the code is, and each part is of operations that rebind nothing.
  nil _ _ hM := ⟨nofun, hM⟩
  append hA hB hP hM := by
    obtain ⟨hPA, hPB⟩ := List.forall_mem_append.1 hP
    exact (hA hPA hM).append (hB hPB (hA hPA hM).functions)
  basic s i ops M _ hops hP hM := .of_actions context hname hP (ne_enterFunction_of_basic hops) hM
  function s i g M hi hP hM := .defineOps context hname hi g hP hM
  classBody s i header body M _ hbody hP hM := by
    obtain ⟨hclass, hleave⟩ := List.forall_mem_append.1 hP
    obtain ⟨hhead, hinner⟩ := List.forall_mem_append.1 hclass
    have hbefore := OnlyClasses.of_ne context hname hhead
      (ne_enterFunction_of_mem_classHead header) hM
    have hwithin := hbefore.append (hbody hinner hbefore.functions)
    exact hwithin.append (.of_actions context hname hleave (by simp) hwithin.functions)
  functionBody i g M _ hbody hP hM := by
    obtain ⟨hfront, hend⟩ := List.forall_mem_append.1 hP
    obtain ⟨hbegin, hinner⟩ := List.forall_mem_append.1 hfront
    have hbefore := OnlyClasses.of_actions context hname hbegin (by simp) hM
    have hwithin := hbefore.append (hbody hinner hbefore.functions)
    exact hwithin.append (.of_actions context hname hend (by simp) hwithin.functions)

end Machine

/-! ### Walks over a module -/

namespace Walk

variable {context : ImportContext} {m : Module} {f : Fqn} {name : String}

/-- What gives a symbol a type in some walks does so in one of them. -/
theorem exists_of_mem_typings {k : Nat} {t : Op × BindingType} (ht : t ∈ typings context m f k) :
    ∃ j, t ∈ Machine.typings context f m.program (.ofWalk (walks context m j)) := by
  induction k with
  | zero => cases ht
  | succ k ih => exact (List.mem_append.1 ht).elim ih fun ht => ⟨k, ht⟩

/-- What gives a symbol a type in some walks and does not define it binds its name to a value, or ends
a body. -/
theorem overwrites_of_mem_typings {k : Nat} {t : Op × BindingType} (ht : t ∈ typings context m f k)
    (hdefines : t.1.defines = false) : t.1.Overwrites f := by
  obtain ⟨j, ht⟩ := exists_of_mem_typings ht
  exact Machine.overwrites_of_mem_typings ht hdefines

/-- If no operation of a module binds a name besides class statements and imports, then nothing but
class statements gives the symbols with that name a type, in whatever walk. -/
theorem exists_enterClass_of_mem_typings (context : ImportContext) (hname : f.name? = some name)
    (hm : ∀ a ∈ m.program, a.op.rebinds name = false) (k : Nat) :
    (∀ t ∈ typings context m f k, ∃ header, t.1 = .enterClass header) ∧
      (walks context m k).HasNoFunction f := by
  -- No operation rebinds the name, so each walk adds entered classes only.
  induction k with
  | zero =>
    refine ⟨nofun, fun i info hinfo => ?_⟩
    rw [show (walks context m 0).scopes.function? i = none from
      ScopeTree.function?_ofModule _ _ _] at hinfo
    cases hinfo
  | succ k ih =>
    obtain ⟨htypings, hfunctions⟩ := (Machine.compositional_onlyClasses context hname).program m k
      hm ih.2
    refine ⟨List.forall_mem_append.2 ⟨ih.1, htypings⟩, ?_⟩
    rwa [run_program] at hfunctions

end Walk

end NameAtlas.Python
