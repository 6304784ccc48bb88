import NameAtlas.Proofs.Walk.Sites
import NameAtlas.Proofs.Walk.Typings
import NameAtlas.Proofs.Walk.WellFormed

/-!
# Names that bodies bind for the module

A name that is written in the code of the module is bound in the scope of the module. A name that is
written in a body is bound there only if the body declares it `global`, as all other scopes belong
to names below the module (`Walk.WellFormed.of_bindingPlace_eq`). Whether a body does can be read
off the code: no two sites share a scope, and a scope in which a name is declared `global` is that of
a site where the code declares it so (`ScopeTree.Sources`).
-/

namespace NameAtlas.Python

/-! ### Scope trees -/

/-- A scope tree in which the sites have scopes of their own, and in which a name is declared
`global` only where some actions do so. -/
structure ScopeTree.Sources (P : List Action) (name : String) (t : ScopeTree) : Prop where
  /-- No two sites have one scope. -/
  injective : ∀ s s' i, t.Resolves s i → t.Resolves s' i → s = s'
  /-- Scopes that declare the name are those of sites where it is declared. -/
  globals : ∀ i, t.declaresGlobal i name → ∃ s, t.Resolves s i ∧ ⟨s, .declareGlobal name⟩ ∈ P

namespace ScopeTree.Sources

variable {P : List Action} {name : String} {module : Fqn} {t : ScopeTree}

/-- A site declares the names that its scope declares. -/
theorem mem (h : t.Sources P name) {s : Site} {i : Nat} (hi : t.Resolves s i)
    (hglobal : t.declaresGlobal i name) : ⟨s, .declareGlobal name⟩ ∈ P := by
  obtain ⟨s', hs', hmem⟩ := h.globals i hglobal
  rwa [h.injective s s' i hi hs']

/-- The tree of a module without definitions declares nothing `global`. -/
theorem ofModule (P : List Action) (name : String) (module : Fqn) (span : Span) :
    (ScopeTree.ofModule module span).Sources P name where
  injective s s' i hs hs' := by
    cases s with
    | body node => exact nomatch hs
    | module =>
      cases s' with
      | body node => exact nomatch hs'
      | module => rfl
  globals i h := by
    rw [(Undeclared.ofModule module span).global] at h
    cases h

/-- Trees with the scopes of other ones, in which the same names are declared. -/
theorem congr (h : t.Sources P name) {u : ScopeTree} (hu : u.byNode = t.byNode)
    (hglobals : ∀ i, u.declaresGlobal i name = t.declaresGlobal i name) : u.Sources P name := by
  have hresolves (s : Site) (i : Nat) : u.Resolves s i ↔ t.Resolves s i := by
    cases s with
    | module => exact Iff.rfl
    | body node => rw [Resolves, Resolves, hu]
  refine ⟨fun s s' i hs hs' => h.injective s s' i ((hresolves s i).1 hs) ((hresolves s' i).1 hs'),
    fun i hi => ?_⟩
  obtain ⟨s, hs, hmem⟩ := h.globals i (by rwa [← hglobals])
  exact ⟨s, (hresolves s i).2 hs, hmem⟩

/-- Binding a name leaves where names are declared `global`. -/
theorem bind (h : t.Sources P name) (i : Nat) (word : String) (target : NameTarget) :
    (t.bind i word target).Sources P name :=
  h.congr rfl fun _ => declaresGlobal_bind _ _ _ _ _ _

/-- Writing down a function leaves where names are declared `global`. -/
theorem setFunction (h : t.Sources P name) (i : Nat) (info : FunctionInfo) :
    (t.setFunction i info).Sources P name :=
  h.congr rfl fun _ => declaresGlobal_setFunction _ _ _ _ _

/-- Declaring a name `nonlocal` leaves where names are declared `global`. -/
theorem declareNonlocal (h : t.Sources P name) (i : Nat) (word : String) :
    (t.declareNonlocal i word).Sources P name :=
  h.congr rfl fun _ => declaresGlobal_declareNonlocal _ _ _ _ _

/-- Declaring a name in the scope of a site. -/
theorem declareGlobal (h : t.Sources P name) {s : Site} {i : Nat} (hi : t.Resolves s i)
    {word : String} (hmem : ⟨s, .declareGlobal word⟩ ∈ P) : (t.declareGlobal i word).Sources P name where
  injective := h.injective
  globals j hj := by
    rw [declaresGlobal_declareGlobal, Bool.or_eq_true] at hj
    rcases hj with hj | hj
    · simp only [Bool.and_eq_true, decide_eq_true_eq, beq_iff_eq] at hj
      obtain ⟨⟨rfl, -⟩, rfl⟩ := hj
      exact ⟨s, hi, hmem⟩
    · exact h.globals j hj

/-- A new scope is that of no other site. -/
theorem openFrame (h : t.Sources P name) (ht : t.WellFormed module) (node : Nat) (kind : ScopeKind)
    (owner : Fqn) (parent : Nat) (span : Span) :
    (t.openFrame node kind owner parent span).2.Sources P name := by
  cases hnode : t.byNode.get? node with
  | some i =>
    rw [openFrame_eq_of_some hnode]
    exact h
  | none =>
    -- The site of the node has the last scope, and every other site has the one it had.
    have hresolves {s : Site} {i : Nat}
        (hs : (t.openFrame node kind owner parent span).2.Resolves s i) :
        (s = .body node ∧ i = t.size) ∨ (t.Resolves s i ∧ i < t.size) := by
      cases s with
      | module => exact .inr ⟨hs, Nat.lt_of_le_of_lt (Nat.le_of_eq hs) ht.size_pos⟩
      | body node' =>
        simp only [Resolves, ScopeTree.openFrame, hnode, Table.get?_insert] at hs
        split at hs
        · rename_i heq
          exact .inl ⟨congrArg Site.body heq, (Option.some.inj hs).symm⟩
        · exact .inr ⟨hs, ht.byNode node' i hs⟩
    refine ⟨fun s s' i hs hs' => ?_, fun i hi => ?_⟩
    · rcases hresolves hs with ⟨rfl, hi⟩ | ⟨hs, hi⟩ <;> rcases hresolves hs' with ⟨rfl, hi'⟩ | ⟨hs', hi'⟩
      · rfl
      · omega
      · omega
      · exact h.injective s s' i hs hs'
    · rw [declaresGlobal_openFrame] at hi
      obtain ⟨s, hs, hmem⟩ := h.globals i hi
      exact ⟨s, hs.mono (.openFrame _ _ _ _ _ _), hmem⟩

end ScopeTree.Sources

/-! ### Machines -/

namespace Machine

/-- A well-formed machine that performs some of the actions `P`, with scopes whose names are
declared `global` only by these. -/
structure Steady (P : List Action) (name : String) (module : Fqn) (M : Machine) : Prop where
  /-- The machine is well formed. -/
  wellFormed : M.WellFormed module
  /-- The sites have scopes of their own. -/
  sources : M.walk.scopes.Sources P name

variable {P : List Action} {name : String} {module : Fqn} {M : Machine} (context : ImportContext)

/-- An action of the program keeps the sources of a tree. -/
theorem sources_step {a : Action} (ha : a ∈ P) (hsite : ∃ i, M.walk.scopes.Resolves a.site i)
    (h : M.Steady P name module) : (step context M a).walk.scopes.Sources P name := by
  obtain ⟨i, hi⟩ := hsite
  obtain ⟨site, op⟩ := a
  have hlt := h.wellFormed.walk.scopes.lt_of_resolves hi
  rw [step, hi.resolve_eq]
  cases op with
  | bindName | parameter | leaveClass | bindImport => exact h.sources.bind _ _ _
  -- A new scope has a site of its own, and nothing is declared `global` in it.
  | enterFunction f =>
    have hplace := h.wellFormed.placeOf hlt f.header.node f.header.word
    let d : Declaration := ⟨(M.placeOf i f.header.node f.header.word).2, .function,
      M.annotation.getD (M.walk.symbols.typeOf (M.placeOf i f.header.node f.header.word).2),
      (M.placeOf i f.header.node f.header.word).1, f.header.word.location⟩
    have hwalk := (h.wellFormed.walk.declare (d := d) hplace SymbolKind.noConfusion).bind d.scope
      f.header.word.text (.declared d.fqn)
    simp only [perform, setWalk, Walk.scopes_enterFunction]
    exact ((h.sources.bind _ _ _).openFrame hwalk.scopes _ _ _ _ _).setFunction _ _
  | enterClass c => exact h.sources.openFrame h.wellFormed.walk.scopes _ _ _ _ _
  | declareGlobal word => exact h.sources.declareGlobal hi ha
  | declareNonlocal word => exact h.sources.declareNonlocal _ _
  | assignMember | keepMember =>
    simp only [perform, setWalk, Walk.scopes_assignMember]
    exact h.sources
  | noteReturn =>
    simp only [perform, setWalk, Walk.scopes_noteReturn]
    exact h.sources
  | endBody =>
    simp only [perform, setWalk, Walk.scopes_endBody]
    exact h.sources
  | _ => exact h.sources

/-- An action of the program keeps a machine steady. -/
theorem Steady.step {a : Action} (h : M.Steady P name module) (ha : a ∈ P)
    (hsite : ∃ i, M.walk.scopes.Resolves a.site i) : (step context M a).Steady P name module :=
  ⟨wellFormed_perform context a.op h.wellFormed (h.wellFormed.walk.scopes.resolve_lt a.site),
    sources_step context ha hsite h⟩

/-- A run of actions of the program keeps a machine steady. -/
theorem Steady.run {P' : List Action} (h : M.Steady P name module) (hP' : ∀ a ∈ P', a ∈ P)
    (hsited : Sited context P' M) : (run context P' M).Steady P name module := by
  induction P' generalizing M with
  | nil => exact h
  | cons a rest ih =>
    exact ih (h.step context (hP' a List.mem_cons_self) hsited.1)
      (fun a' ha' => hP' a' (List.mem_cons_of_mem a ha')) hsited.2

end Machine

/-- Every walk over a module begins with a steady machine. -/
theorem Walk.steady_walks (context : ImportContext) (m : Module) (name : String) (k : Nat) :
    (Machine.ofWalk (walks context m k)).Steady m.program name context.module := by
  refine ⟨.ofWalk (wellFormed_walks context m k), ?_⟩
  induction k with
  | zero => exact .ofModule _ _ _ _
  | succ k ih =>
    have hrun := Machine.Steady.run context (M := .ofWalk (walks context m k))
      ⟨.ofWalk (wellFormed_walks context m k), ih⟩ (fun _ ha => ha)
      (Machine.sited_program context m k)
    rw [run_program] at hrun
    exact hrun.sources

/-! ### Sites of bodies -/

/-- The actions of a site are at the site. -/
theorem Site.site_of_mem_actions {s : Site} {ops : List Op} {a : Action} (h : a ∈ s.actions ops) :
    a.site = s := by
  obtain ⟨op, -, rfl⟩ := List.mem_map.1 h
  rfl

/-- The head of a class outside the code of the module is not at the site of the module. -/
theorem ClassHeader.site_ne_module {a : Action} {s : Site} (header : ClassHeader)
    (hs : s ≠ .module) (h : a ∈ header.code s) : a.site ≠ .module := by
  rcases List.mem_append.1 h with h | h
  · exact Site.site_of_mem_actions h ▸ hs
  · exact Site.site_of_mem_actions h ▸ Site.noConfusion

mutual

/-- The code of a statement in a body stays in bodies. -/
theorem Stmt.site_ne_module {a : Action} :
    ∀ (st : Stmt) {s : Site}, s ≠ .module → a ∈ st.code s → a.site ≠ .module
  -- Only a class has actions at another site, which is that of its body.
  | .block body, _, hs, h => site_ne_module_of_mem_codeOf body hs h
  | .caught _ between _, _, hs, h => by
    rcases List.mem_append.1 h with h | h
    · rcases List.mem_append.1 h with h | h
      · exact Site.site_of_mem_actions h ▸ hs
      · exact site_ne_module_of_mem_codeOf between hs h
    · exact Site.site_of_mem_actions h ▸ hs
  | .class header body, _, hs, h => by
    rcases List.mem_append.1 h with h | h
    · rcases List.mem_append.1 h with h | h
      · exact header.site_ne_module hs h
      · exact site_ne_module_of_mem_codeOf body Site.noConfusion h
    · exact Site.site_of_mem_actions h ▸ hs
  | .simple _, _, hs, h | .function _ _, _, hs, h | .imports _ _, _, hs, h
  | .returns (some _), _, hs, h | .returns none, _, hs, h | .globals _, _, hs, h
  | .nonlocals _, _, hs, h | .unsupported _ _, _, hs, h => Site.site_of_mem_actions h ▸ hs

/-- No action of a block outside the code of the module is at the site of the module. -/
theorem site_ne_module_of_mem_codeOf {a : Action} :
    ∀ (body : List Stmt) {s : Site}, s ≠ .module → a ∈ codeOf s body → a.site ≠ .module
  | [], _, _, h => nomatch h
  | st :: rest, _, hs, h => by
    rcases List.mem_append.1 h with h | h
    · exact st.site_ne_module hs h
    · exact site_ne_module_of_mem_codeOf rest hs h

end

/-- No action of a function is at the site of the module. -/
theorem FunctionBody.site_ne_module {a : Action} (f : FunctionBody) (h : a ∈ f.code) :
    a.site ≠ .module := by
  rcases List.mem_append.1 h with h | h
  · rcases List.mem_append.1 h with h | h
    · exact Site.site_of_mem_actions h ▸ Site.noConfusion
    · exact site_ne_module_of_mem_codeOf f.body Site.noConfusion h
  · exact Site.site_of_mem_actions h ▸ Site.noConfusion

/-! ### Bindings in the scope of the module -/

/-- True if an operation binds a name and gives it a type. -/
def Op.binds (name : String) : Op → Bool
  | .bindName word => word.text = name
  | .enterFunction f => f.header.word.text = name
  | .enterClass h => h.word.text = name
  | _ => false

/-- True if an operation declares a name `global`. -/
def Op.isGlobal (name : String) : Op → Bool
  | .declareGlobal word => word = name
  | _ => false

/-- True at the sites where a name is that of the module: in the code of the module, and in bodies
that declare the name `global`. -/
def Module.isGlobal (m : Module) (name : String) (s : Site) : Bool :=
  s = .module || m.program.any fun a => a.site = s && a.op.isGlobal name

/-- True for the actions that bind a name in the scope of the module. -/
def Module.binds (m : Module) (name : String) (a : Action) : Bool :=
  a.op.binds name && m.isGlobal name a.site

/-- A name that is written in a scope becomes a name right below the module only in the scope of the
module, or where it is declared `global`. -/
theorem Walk.WellFormed.of_bindingPlace_eq {module : Fqn} {w : Walk} (h : w.WellFormed module)
    {i : Nat} (hi : i < w.scopes.size) {text name : String}
    (heq : (w.bindingPlace i text).2 = module.child name) :
    text = name ∧ (i = ScopeTree.moduleScope ∨ w.scopes.declaresGlobal i name) := by
  obtain ⟨howner, rfl⟩ := Fqn.child_injective heq
  refine ⟨rfl, ?_⟩
  -- Only the first scope belongs to the module.
  have hfirst : w.scopes.bindingScope i text = ScopeTree.moduleScope := by
    by_contra hne
    obtain ⟨s, hs⟩ := Option.isSome_iff_exists.1
      ((w.scopes.isSome_scope?_iff _).2 (h.bindingScope_lt hi text))
    rw [ScopeTree.ownerOf_eq, hs] at howner
    exact Fqn.ne_of_liesBelow (h.scopes.inner _ s (Nat.pos_of_ne_zero hne) hs).2.1 howner
  exact h.scopes.rooted.eq_moduleScope_or hfirst

/-- A name that is written in the code of the module is bound in its scope. -/
theorem Walk.WellFormed.bindingPlace_moduleScope {module : Fqn} {w : Walk} (h : w.WellFormed module)
    (text : String) :
    w.bindingPlace ScopeTree.moduleScope text = (ScopeTree.moduleScope, module.child text) := by
  obtain ⟨span, hfirst⟩ := h.scopes.first
  rw [bindingPlace, ScopeTree.bindingScope_moduleScope, ScopeTree.ownerOf_eq, hfirst]
  rfl

namespace Machine.Steady

variable {m : Module} {name : String} {module : Fqn} {M : Machine}
  (h : M.Steady m.program name module)

include h

/-- Where a name is not that of the module, no name is bound to it. -/
theorem bindingPlace_ne {s : Site} {i : Nat} (hi : M.walk.scopes.Resolves s i) {text : String}
    (hs : text = name → m.isGlobal name s = false) :
    (M.walk.bindingPlace i text).2 ≠ module.child name := by
  intro heq
  obtain ⟨htext, hscope⟩ :=
    h.wellFormed.walk.of_bindingPlace_eq (h.wellFormed.walk.scopes.lt_of_resolves hi) heq
  have hs := hs htext
  simp only [Module.isGlobal, Bool.or_eq_false_iff, decide_eq_false_iff_not, List.any_eq_false,
    Bool.and_eq_true, decide_eq_true_eq, not_and] at hs
  rcases hscope with rfl | hdeclares
  · exact hs.1 (h.sources.injective s .module _ hi rfl)
  · exact hs.2 _ (h.sources.mem hi hdeclares) rfl (by simp [Op.isGlobal])

/-- The members of classes are not those of the module. -/
theorem memberTyping?_ne (object : Evaluated) (word : Word) (type : Option BindingType)
    (t : BindingType) : M.walk.memberTyping? object word type ≠ some (module.child name, t) := by
  intro heq
  obtain ⟨owner, howner, heq⟩ := Option.map_eq_some_iff.1 heq
  have hbelow := (h.wellFormed.walk.classScopes _ _ (Walk.classScopes_of_ownerOf? howner)).2
  exact Fqn.ne_of_liesBelow hbelow (Fqn.child_injective (Prod.mk.inj heq).1).1

end Machine.Steady

end NameAtlas.Python
