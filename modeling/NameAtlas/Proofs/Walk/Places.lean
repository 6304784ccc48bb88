import NameAtlas.Proofs.Walk.Openings
import NameAtlas.Proofs.Walk.Sites
import NameAtlas.Proofs.Walk.WellFormed

/-!
# Where symbols are declared

Without `global` and `nonlocal` statements a name is bound in the scope where it is written, so a
definition gets the same place in every walk: the scope of its site, and there its name. That a node
keeps the scope that it once got then does no harm, as the owner of the scope is the name that the
definition still has (`ScopeTree.Placed`). It follows that every symbol is named after the scope that
declares it, and that the scope of a class belongs to the class (`Walk.Placed`).
-/

namespace NameAtlas.Python

/-! ### Scope trees -/

/-- True if a name is that of a definition at its site. -/
def Opening.IsPlaced (t : ScopeTree) (d : Opening) (owner : Fqn) : Prop :=
  ∃ p, t.Resolves d.site p ∧ owner = (t.ownerOf p).child d.name

/-- A scope tree without `global` and `nonlocal` names, in which the owner of each scope is the name
that its definition has where it stands. -/
structure ScopeTree.Placed (S : List Opening) (t : ScopeTree) : Prop where
  /-- No name is declared `global` or `nonlocal`. -/
  undeclared : t.Undeclared
  /-- The nodes with scopes are those of definitions, which the scopes belong to. -/
  byNode : ∀ node i, t.byNode.get? node = some i →
    ∃ d ∈ S, d.node = node ∧ d.IsPlaced t (t.ownerOf i)

/-- A definition that is placed stays so in a tree that has grown. -/
theorem Opening.IsPlaced.mono {module : Fqn} {t u : ScopeTree} (ht : t.WellFormed module)
    (hu : t.Extends u) {d : Opening} {owner : Fqn} (h : d.IsPlaced t owner) :
    d.IsPlaced u owner := by
  obtain ⟨p, hp, howner⟩ := h
  exact ⟨p, hp.mono hu, by rw [hu.ownerOf_eq (ht.lt_of_resolves hp), howner]⟩

namespace ScopeTree.Placed

variable {S : List Opening} {module : Fqn} {t : ScopeTree}

/-- The tree of a module without definitions is placed. -/
theorem ofModule (S : List Opening) (module : Fqn) (span : Span) :
    (ScopeTree.ofModule module span).Placed S := ⟨.ofModule module span, nofun⟩

/-- Binding a name keeps scopes with their definitions. -/
theorem bind (h : t.Placed S) (i : Nat) (name : String) (target : NameTarget) :
    (t.bind i name target).Placed S := by
  refine ⟨h.undeclared.bind i name target, fun node j hj => ?_⟩
  obtain ⟨d, hd, hnode, p, hp, howner⟩ := h.byNode node j hj
  exact ⟨d, hd, hnode, p, hp.mono (.bind t i name target), by
    rw [ownerOf_bind, ownerOf_bind, howner]⟩

/-- Writing down a function keeps scopes with their definitions. -/
theorem setFunction (h : t.Placed S) (i : Nat) (info : FunctionInfo) :
    (t.setFunction i info).Placed S := by
  refine ⟨h.undeclared.setFunction i info, fun node j hj => ?_⟩
  obtain ⟨d, hd, hnode, p, hp, howner⟩ := h.byNode node j hj
  exact ⟨d, hd, hnode, p, hp.mono (.setFunction t i info), by
    rw [ownerOf_setFunction, ownerOf_setFunction, howner]⟩

/-- Opening the scope of a definition at its site. -/
theorem openFrame (h : t.Placed S) (ht : t.WellFormed module) {d : Opening} (hd : d ∈ S)
    {parent : Nat} (hparent : t.Resolves d.site parent) (kind : ScopeKind) (span : Span) :
    (t.openFrame d.node kind ((t.ownerOf parent).child d.name) parent span).2.Placed S := by
  -- A node has the scope that it had, or it is the one that is opened.
  have hgrow := Extends.openFrame t d.node kind ((t.ownerOf parent).child d.name) parent span
  refine ⟨h.undeclared.openFrame _ _ _ _ _, fun node i hi => ?_⟩
  by_cases hold : t.byNode.get? node = some i
  · obtain ⟨d', hd', hnode, hplaced⟩ := h.byNode node i hold
    refine ⟨d', hd', hnode, ?_⟩
    rw [hgrow.ownerOf_eq (ht.byNode node i hold)]
    exact hplaced.mono ht hgrow
  · -- The node is the one that is opened.
    cases hnew : t.byNode.get? d.node with
    | some j =>
      rw [openFrame_eq_of_some hnew] at hi
      exact absurd hi hold
    | none =>
      simp only [ScopeTree.openFrame, hnew, Table.get?_insert] at hi
      split at hi
      · rename_i hnode
        obtain rfl := Option.some.inj hi
        refine ⟨d, hd, hnode.symm, parent, hparent.mono hgrow, ?_⟩
        rw [hgrow.ownerOf_eq (ht.lt_of_resolves hparent), ownerOf_eq,
          scope?_openFrame_of_none hnew, if_pos rfl]
        rfl
      · exact absurd hi hold

/-- The scope that a definition gets belongs to it, also if it had the scope before. -/
theorem ownerOf_fst_openFrame (h : t.Placed S) (ht : t.WellFormed module)
    (hS : ∀ d ∈ S, ∀ d' ∈ S, d.node = d'.node → d = d') {d : Opening} (hd : d ∈ S)
    {parent : Nat} (hparent : t.Resolves d.site parent) (kind : ScopeKind) (span : Span) :
    (t.openFrame d.node kind ((t.ownerOf parent).child d.name) parent span).2.ownerOf
        (t.openFrame d.node kind ((t.ownerOf parent).child d.name) parent span).1 =
      (t.ownerOf parent).child d.name := by
  have hgrow := Extends.openFrame t d.node kind ((t.ownerOf parent).child d.name) parent span
  obtain ⟨d', hd', hnode, p, hp, howner⟩ := (h.openFrame ht hd hparent kind span).byNode d.node _
    (byNode_openFrame _ _ _ _ _ _)
  obtain rfl := hS d' hd' d hd hnode
  rw [howner, hp.unique (hparent.mono hgrow), hgrow.ownerOf_eq (ht.lt_of_resolves hparent)]

end ScopeTree.Placed

/-! ### Symbol tables and walks -/

/-- True if every symbol but the module is named after the scope that declares it. -/
def SymbolTable.Placed (module : Fqn) (ownerOf : Nat → Fqn) (t : SymbolTable) : Prop :=
  ∀ fqn d, fqn ≠ module → t.get? fqn = some d → ∃ name, fqn = (ownerOf d.scope).child name

namespace SymbolTable.Placed

variable {module : Fqn} {ownerOf : Nat → Fqn} {t : SymbolTable}

/-- A declaration named after its scope keeps symbols with their scopes. -/
theorem declare (h : t.Placed module ownerOf) {d : Declaration}
    (hd : ∃ name, d.fqn = (ownerOf d.scope).child name) : (t.declare d).Placed module ownerOf := by
  intro fqn d' hne hd'
  rw [get?_declare] at hd'
  split at hd'
  · rename_i hfqn
    subst hfqn
    -- A declaration that is there already keeps its scope.
    cases hold : t.get? d.fqn with
    | none =>
      rw [hold] at hd'
      obtain rfl := Option.some.inj hd'
      exact hd
    | some old =>
      rw [hold] at hd'
      obtain rfl := Option.some.inj hd'
      exact h d.fqn old hne hold
  · exact h fqn d' hne hd'

/-- Setting a type keeps symbols with their scopes. -/
theorem setType (h : t.Placed module ownerOf) (fqn : Fqn) (type : BindingType) :
    (t.setType fqn type).Placed module ownerOf := by
  intro fqn' d' hne hd'
  rw [get?_setType] at hd'
  split at hd'
  · rename_i hfqn
    subst hfqn
    obtain ⟨d, hd, rfl⟩ := Option.map_eq_some_iff.1 hd'
    exact h fqn' d hne hd
  · exact h fqn' d' hne hd'

/-- The owners of the scopes that declare symbols are all that matters. -/
theorem congr (h : t.Placed module ownerOf) {n : Nat} (ht : t.WellFormed module n)
    {ownerOf' : Nat → Fqn} (howner : ∀ i < n, ownerOf' i = ownerOf i) :
    t.Placed module ownerOf' := by
  intro fqn d hne hd
  rw [howner d.scope (ht.below fqn d hne hd).2.2.2]
  exact h fqn d hne hd

end SymbolTable.Placed

/-- A walk in which the scopes belong to their definitions and the symbols to their scopes. -/
structure Walk.Placed (S : List Opening) (module : Fqn) (w : Walk) : Prop where
  /-- The scopes belong to their definitions. -/
  scopes : w.scopes.Placed S
  /-- Every symbol is named after the scope that declares it. -/
  symbols : w.symbols.Placed module w.scopes.ownerOf
  /-- The scope of a class belongs to the class. -/
  classScopes : ∀ c i, w.classScopes.get? c = some i → w.scopes.ownerOf i = c

namespace Walk.Placed

variable {S : List Opening} {module : Fqn} {w : Walk}

/-- A walk with a longer scope tree. -/
theorem of_scopes (h : w.Placed S module) (hw : w.WellFormed module) {t : ScopeTree}
    (ht : t.Placed S) (hgrow : w.scopes.Extends t) :
    ({ w with scopes := t } : Walk).Placed S module where
  scopes := ht
  symbols := h.symbols.congr hw.symbols fun _ hi => hgrow.ownerOf_eq hi
  classScopes c i hi := by
    rw [hgrow.ownerOf_eq (hw.classScopes c i hi).1]
    exact h.classScopes c i hi

/-- A walk stays placed behind a declaration named after its scope. -/
theorem declare (h : w.Placed S module) {d : Declaration}
    (hd : ∃ name, d.fqn = (w.scopes.ownerOf d.scope).child name) : (w.declare d).Placed S module :=
  ⟨h.scopes, h.symbols.declare hd, h.classScopes⟩

/-- A walk stays placed if it binds a name. -/
theorem bind (h : w.Placed S module) (hw : w.WellFormed module) (i : Nat) (name : String)
    (target : NameTarget) : (w.bind i name target).Placed S module :=
  h.of_scopes hw (h.scopes.bind i name target) (.bind _ i name target)

/-- A walk stays placed if it declares a symbol named after its scope and binds a name. -/
theorem declareBind (h : w.Placed S module) {d : Declaration}
    (hd : ∃ name, d.fqn = (w.scopes.ownerOf d.scope).child name)
    (hw : (w.declare d).WellFormed module) (i : Nat) (name : String) (target : NameTarget) :
    ((w.declare d).bind i name target).Placed S module := (h.declare hd).bind hw i name target

/-- A walk stays placed if it binds a name in a scope. -/
theorem bindName (h : w.Placed S module) (hw : w.WellFormed module) {scope : Nat}
    (hscope : scope < w.scopes.size) (word : Word) (type : BindingType) :
    (w.bindName scope word type).Placed S module := by
  refine h.declareBind ⟨word.text, rfl⟩ (hw.declare (hw.isPlace_bindingPlace hscope word.text) ?_)
    _ _ _
  dsimp only
  split <;> exact SymbolKind.noConfusion

/-- A walk stays placed if it assigns to a member. -/
theorem assignMember (h : w.Placed S module) (scope : Nat) (object : Evaluated) (word : Word)
    (type : Option BindingType) : (w.assignMember scope object word type).Placed S module := by
  rw [Walk.assignMember]
  cases howner : w.ownerOf? object with
  | none => exact ⟨h.scopes, h.symbols, h.classScopes⟩
  | some owner =>
    obtain ⟨c, i⟩ := owner
    have hc := h.classScopes c i (classScopes_of_ownerOf? howner)
    exact ⟨h.scopes, h.symbols.declare ⟨word.text, by rw [hc]⟩, h.classScopes⟩

/-- A walk stays placed behind a parameter. -/
theorem declareParameter (h : w.Placed S module) (hw : w.WellFormed module) {scope : Nat}
    (hscope : scope < w.scopes.size) (word : Word) (type : BindingType) :
    (w.declareParameter scope word type).Placed S module :=
  h.declareBind ⟨word.text, rfl⟩ (hw.declare ⟨hscope, Fqn.liesBelow_child
    (hw.scopes.liesAtOrBelow_ownerOf hscope) word.text⟩ SymbolKind.noConfusion) _ _ _

/-- The place of a definition that is made in a scope. -/
theorem isPlace_child (hw : w.WellFormed module) {scope : Nat} (hscope : scope < w.scopes.size)
    (name : String) : w.IsPlace module (scope, (w.scopes.ownerOf scope).child name) :=
  ⟨hscope, Fqn.liesBelow_child (hw.scopes.liesAtOrBelow_ownerOf hscope) name⟩

/-- A walk stays placed if it opens the scope of a function at its site. -/
theorem openFunction (h : w.Placed S module) (hw : w.WellFormed module) {scope : Nat}
    {header : FunctionHeader} {site : Site} (hsite : w.scopes.Resolves site scope)
    (hopening : header.opening site ∈ S) (annotated : Option BindingType) :
    (w.openFunction scope header (scope, (w.scopes.ownerOf scope).child header.word.text)
      annotated).2.Placed S module := by
  let place : Nat × Fqn := (scope, (w.scopes.ownerOf scope).child header.word.text)
  let d : Declaration := ⟨place.2, .function, annotated.getD (w.symbols.typeOf place.2), scope,
    header.word.location⟩
  -- The symbol is declared and bound first; that moves no owner, so the scope may be opened.
  have hdeclare : (w.declare d).WellFormed module :=
    hw.declare (isPlace_child hw (hw.scopes.lt_of_resolves hsite) _) SymbolKind.noConfusion
  have hwbind := hdeclare.bind scope header.word.text (.declared place.2)
  have hbind := h.declareBind (d := d) ⟨_, rfl⟩ hdeclare scope header.word.text (.declared place.2)
  have howner : (((w.declare d).bind scope header.word.text (.declared place.2)).scopes.ownerOf
      scope) = w.scopes.ownerOf scope := ScopeTree.ownerOf_bind _ _ _ _ _
  have hopen := hbind.scopes.openFrame hwbind.scopes hopening (hsite.mono (.bind _ _ _ _))
    .function header.span
  rw [howner] at hopen
  exact hbind.of_scopes hwbind hopen (.openFrame _ _ _ _ _ _)

/-- A walk stays placed if it enters a function at its site. -/
theorem enterFunction (h : w.Placed S module) (hw : w.WellFormed module) {scope : Nat}
    {f : FunctionBody} {site : Site} (hsite : w.scopes.Resolves site scope)
    (hopening : f.header.opening site ∈ S) (annotated : Option BindingType) :
    (w.enterFunction scope f (scope, (w.scopes.ownerOf scope).child f.header.word.text)
      annotated).2.Placed S module := by
  have hscope := hw.scopes.lt_of_resolves hsite
  have hopen := h.openFunction hw hsite hopening annotated
  have hset (i : Nat) (info : FunctionInfo) :=
    hopen.of_scopes (hw.openFunction hscope f.header (isPlace_child hw hscope _) annotated).1
      (hopen.scopes.setFunction i info) (.setFunction _ i info)
  simp only [Walk.enterFunction]
  rw [enqueue_eq]
  exact ⟨(hset _ _).scopes, (hset _ _).symbols, (hset _ _).classScopes⟩

/-- A walk stays placed if it enters a class at its site and no other definition has its node. -/
theorem enterClass (h : w.Placed S module) (hw : w.WellFormed module)
    (hS : ∀ d ∈ S, ∀ d' ∈ S, d.node = d'.node → d = d') {scope : Nat} {c : ClassHeader}
    {site : Site} (hsite : w.scopes.Resolves site scope) (hopening : c.opening site ∈ S) :
    (w.enterClass scope c (scope, (w.scopes.ownerOf scope).child c.word.text)).2.Placed S module := by
  let place : Nat × Fqn := (scope, (w.scopes.ownerOf scope).child c.word.text)
  let d : Declaration := ⟨place.2, .class, .resolved place.2, scope, c.word.location⟩
  have hdeclare : (w.declare d).WellFormed module :=
    hw.declare (isPlace_child hw (hw.scopes.lt_of_resolves hsite) _) SymbolKind.noConfusion
  have hopen := h.scopes.openFrame hw.scopes hopening hsite .class c.span
  have howner := h.scopes.ownerOf_fst_openFrame hw.scopes hS hopening hsite .class c.span
  have hopened := (h.declare (d := d) ⟨_, rfl⟩).of_scopes hdeclare hopen (.openFrame _ _ _ _ _ _)
  -- The scope of the class is that of its node, which has this definition only.
  refine { hopened with classScopes := fun c' i hi => ?_ }
  simp only [Walk.enterClass, Table.get?_insert] at hi
  split at hi
  · rename_i hc
    obtain rfl := Option.some.inj hi
    exact howner.trans hc.symm
  · exact hopened.classScopes c' i hi

/-- A walk stays placed if it notes a return. -/
theorem noteReturn (h : w.Placed S module) (scope : Nat) (type : BindingType) :
    (w.noteReturn scope type).Placed S module := by
  rw [Walk.noteReturn]
  split <;> exact ⟨h.scopes, h.symbols, h.classScopes⟩

/-- A walk stays placed if it ends a body. -/
theorem endBody (h : w.Placed S module) (scope : Nat) : (w.endBody scope).Placed S module := by
  rw [Walk.endBody]
  split
  · split
    · exact h
    · exact ⟨h.scopes, h.symbols.setType _ _, h.classScopes⟩
  · exact h

end Walk.Placed

/-! ### Machines -/

namespace Machine

/-- A machine whose definitions under way have the places that they have at their sites. -/
structure Placed (S : List Opening) (module : Fqn) (M : Machine) : Prop where
  /-- The walk is placed. -/
  walk : M.walk.Placed S module
  /-- The definitions under way have the places of their sites. -/
  definitions : ∀ d ∈ M.definitions, ∃ o ∈ S, o.node = d.node ∧
    ∃ p, M.walk.scopes.Resolves o.site p ∧ d.place = (p, (M.walk.scopes.ownerOf p).child o.name)

namespace Placed

variable {S : List Opening} {module : Fqn} {M : Machine}

/-- A definition is entered at the place that it has at its site. -/
theorem placeOf_eq (h : M.Placed S module) (hS : ∀ d ∈ S, ∀ d' ∈ S, d.node = d'.node → d = d')
    {o : Opening} (ho : o ∈ S) {i : Nat} (hi : M.walk.scopes.Resolves o.site i) (word : Word)
    (hword : o.name = word.text) :
    M.placeOf i o.node word = (i, (M.walk.scopes.ownerOf i).child word.text) := by
  -- No name is declared elsewhere, so it is bound in the scope of the site.
  have hplace : M.walk.bindingPlace i word.text = (i, (M.walk.scopes.ownerOf i).child word.text) := by
    simp only [Walk.bindingPlace, h.walk.scopes.undeclared.bindingScope_eq]
  rw [Machine.placeOf]
  split
  · rename_i d rest hd
    split
    · rename_i hnode
      obtain ⟨o', ho', hnode', p, hp, hd⟩ := h.definitions d (by rw [hd]; exact List.mem_cons_self)
      obtain rfl := hS o' ho' o ho (hnode'.trans hnode)
      rw [hd, hp.unique hi, hword]
    · exact hplace
  · exact hplace

/-- A machine with a longer walk, whose definitions under way are of the old ones. -/
theorem of_walk (h : M.Placed S module) (hM : M.WellFormed module) {N : Machine}
    (hN : N.walk.Placed S module) (hgrow : M.walk.Grows N.walk)
    (hdefinitions : N.definitions ⊆ M.definitions) : N.Placed S module := by
  refine ⟨hN, fun d hd => ?_⟩
  obtain ⟨o, ho, hnode, p, hp, hplace⟩ := h.definitions d (hdefinitions hd)
  refine ⟨o, ho, hnode, p, hp.mono hgrow.scopes, ?_⟩
  rw [hplace, hgrow.scopes.ownerOf_eq (hM.walk.scopes.lt_of_resolves hp)]

/-- A machine that changes its innermost definition without moving it. -/
theorem redefine (h : M.Placed S module) {g : Definition → Definition}
    (hg : ∀ d, (g d).node = d.node ∧ (g d).place = d.place) : (M.redefine g).Placed S module := by
  refine ⟨h.walk, fun d hd => ?_⟩
  rcases exists_of_mem_redefine hd with hd | ⟨d', hd', rfl⟩
  · exact h.definitions d hd
  · rw [(hg d').1, (hg d').2]
    exact h.definitions d' hd'

end Placed

variable {S : List Opening} {module : Fqn} {M : Machine} (context : ImportContext)

/-- An action of a module without `global` and `nonlocal` statements keeps everything placed. -/
theorem placed_step (hS : ∀ d ∈ S, ∀ d' ∈ S, d.node = d'.node → d = d') {a : Action}
    (hfits : a.Fits S false true) (hsite : ∃ i, M.walk.scopes.Resolves a.site i)
    (hM : M.WellFormed module) (h : M.Placed S module) : (step context M a).Placed S module := by
  obtain ⟨i, hi⟩ := hsite
  obtain ⟨site, op⟩ := a
  have hlt := hM.walk.scopes.lt_of_resolves hi
  have hgrow := grows_perform context i op M
  have hsame : M.definitions ⊆ M.definitions := List.Subset.refl _
  have htail : M.definitions.tail ⊆ M.definitions := fun _ => List.mem_of_mem_tail
  rw [step, hi.resolve_eq]
  -- The place of a definition is found when its head is read and used when it is entered, so
  -- `place` is where the opening of the source is named and the two cases of entering use it.
  cases op with
  | report | readName | readMember | setBases | beginBody =>
    exact h.of_walk hM ⟨h.walk.scopes, h.walk.symbols, h.walk.classScopes⟩ hgrow hsame
  | constant | call | combine | instantiate | discard | hint | noHint | discardHint | annotate =>
    exact h.of_walk hM h.walk hgrow hsame
  | bindName word => exact h.of_walk hM (h.walk.bindName hM.walk hlt _ _) hgrow hsame
  | assignMember | keepMember => exact h.of_walk hM (h.walk.assignMember _ _ _ _) hgrow hsame
  | place node word =>
    obtain ⟨o, ho, hsite, hnode, hname⟩ := hfits
    refine ⟨h.walk, fun d hd => ?_⟩
    rcases List.mem_cons.1 hd with rfl | hd
    · refine ⟨o, ho, hnode, i, hsite ▸ hi, ?_⟩
      simp only [Walk.bindingPlace, h.walk.scopes.undeclared.bindingScope_eq, hname]
      rfl
    · exact h.definitions d hd
  | enterFunction f =>
    have hplace := h.placeOf_eq hS hfits hi f.header.word rfl
    have hwalk := h.walk.enterFunction hM.walk hi hfits M.annotation
    rw [← hplace] at hwalk
    exact (h.of_walk (N := M.popHint.setWalk _) hM hwalk hgrow hsame).redefine
      fun _ => ⟨rfl, rfl⟩
  | parameter word =>
    exact (h.of_walk (N := M.popHint.setWalk _) hM
      (h.walk.declareParameter hM.walk hM.inner_lt word _) hgrow hsame).redefine
        fun _ => ⟨rfl, rfl⟩
  | leaveFunction => exact h.of_walk hM h.walk hgrow htail
  | enterClass c =>
    have hplace := h.placeOf_eq hS hfits hi c.word rfl
    have hwalk := h.walk.enterClass hM.walk hS hi hfits
    rw [← hplace] at hwalk
    exact h.of_walk hM hwalk hgrow hsame
  | base =>
    exact (h.of_walk (N := M.pop) hM h.walk hgrow hsame).redefine fun _ => ⟨rfl, rfl⟩
  | leaveClass word => exact h.of_walk hM (h.walk.bind hM.walk _ _ _) hgrow htail
  | bindImport b => exact h.of_walk hM (h.walk.bind hM.walk _ _ _) hgrow hsame
  | declareGlobal | declareNonlocal => cases hfits
  | noteReturn => exact h.of_walk hM (h.walk.noteReturn _ _) hgrow hsame
  | endBody => exact h.of_walk hM (h.walk.endBody _) hgrow hsame

/-- A run keeps a machine placed if its actions fit and no two definitions have one node. -/
theorem placed_run (hS : ∀ d ∈ S, ∀ d' ∈ S, d.node = d'.node → d = d') {P : List Action}
    (hP : ∀ a ∈ P, a.Fits S false true) (hsited : Sited context P M) (hM : M.WellFormed module)
    (h : M.Placed S module) : (run context P M).Placed S module := by
  induction P generalizing M with
  | nil => exact h
  | cons a rest ih =>
    exact ih (fun a' ha' => hP a' (List.mem_cons_of_mem a ha')) hsited.2
      (wellFormed_perform context a.op hM (hM.walk.scopes.resolve_lt a.site))
      (placed_step context hS (hP a List.mem_cons_self) hsited.1 hM h)

end Machine

/-- In a module without `global` and `nonlocal` statements every walk declares each symbol where its
name says. -/
theorem Walk.placed_walks (context : ImportContext) {m : Module}
    (hnodup : (definitionsOf m.body).Nodup) (hscope : declaresScopeIn m.body = false) (k : Nat) :
    (walks context m k).Placed m.openings context.module := by
  -- The first walk begins with an empty tree, and each walk keeps the places.
  induction k with
  | zero =>
    refine ⟨.ofModule _ _ _, fun fqn d hne hd => ?_, nofun⟩
    rw [show (walks context m 0).symbols.get? fqn = _ from SymbolTable.get?_declare _ _ _,
      if_neg hne] at hd
    cases hd
  | succ k ih =>
    have hrun := Machine.placed_run context
      (fun d hd d' hd' hnode => Module.opening_eq hnodup hd hd' hnode)
      (fun a ha => hscope ▸ m.fits_program a ha) (Machine.sited_program context m k)
      (.ofWalk (wellFormed_walks context m k))
      ⟨⟨ih.scopes, ih.symbols, ih.classScopes⟩, nofun⟩
    rw [run_program] at hrun
    exact hrun.walk

end NameAtlas.Python
