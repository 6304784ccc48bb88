import NameAtlas.Proofs.ScopeTree.Frames
import NameAtlas.Proofs.SymbolTable
import NameAtlas.Proofs.Walk.Machine

/-!
# What a walk only adds to

A walk never takes back a scope, a queued function or a symbol (`Walk.Grows`). Each operation keeps
to that (`grows_perform`), so every run does (`grows_run`). It follows that a site keeps its scope
once it has one.
-/

namespace NameAtlas.Python

/-- The walk `w'` has the scopes, the queued functions and the symbols of `w`, each at its old
position. -/
structure Walk.Grows (w w' : Walk) : Prop where
  /-- No scope moves. -/
  scopes : w.scopes.Extends w'.scopes
  /-- The queue is continued. -/
  queue : w.queue <+: w'.queue
  /-- The list of symbols is continued. -/
  symbols : w.symbols.declarations.keys <+: w'.symbols.declarations.keys

namespace Walk.Grows

/-- A walk has grown from itself. -/
theorem refl (w : Walk) : w.Grows w := ⟨.refl _, List.prefix_refl _, List.prefix_refl _⟩

/-- A walk that has grown from one that has grown has grown from the first. -/
theorem trans {w w' w'' : Walk} (h : w.Grows w') (h' : w'.Grows w'') : w.Grows w'' :=
  ⟨h.scopes.trans h'.scopes, h.queue.trans h'.queue, h.symbols.trans h'.symbols⟩

/-- A walk grows if it declares a symbol. -/
theorem declare (w : Walk) (d : Declaration) : w.Grows (w.declare d) := by
  refine ⟨.refl _, List.prefix_refl _, ?_⟩
  simp only [Walk.declare, SymbolTable.keys_declare]
  split
  · exact List.prefix_refl _
  · exact List.prefix_append _ _

/-- A walk grows if it refers to something. -/
theorem refer (w : Walk) (scope : Nat) (kind : ReferenceKind) (target : UsageTarget)
    (location : Location) : w.Grows (w.refer scope kind target location) :=
  ⟨.refl _, List.prefix_refl _, List.prefix_refl _⟩

/-- A walk whose scopes alone change grows if they do. -/
theorem of_scopes (w : Walk) {t : ScopeTree} (h : w.scopes.Extends t) :
    w.Grows { w with scopes := t } := ⟨h, List.prefix_refl _, List.prefix_refl _⟩

/-- A walk grows if it binds a name. -/
theorem bind (w : Walk) (i : Nat) (name : String) (target : NameTarget) :
    w.Grows (w.bind i name target) := of_scopes w (.bind _ i name target)

/-- A walk grows if it declares a symbol and binds a name. -/
theorem declareBind (w : Walk) (d : Declaration) (i : Nat) (name : String) (target : NameTarget) :
    w.Grows ((w.declare d).bind i name target) := (declare w d).trans (bind _ i name target)

/-- A walk grows if it opens a scope. -/
theorem openScope (w : Walk) (node : Nat) (kind : ScopeKind) (owner : Fqn) (parent : Nat)
    (span : Span) : w.Grows (w.openScope node kind owner parent span).2 :=
  of_scopes w (.openFrame _ node kind owner parent span)

/-- A walk grows if it queues a function. -/
theorem enqueue (w : Walk) (f : FunctionBody) (scope : Nat) : w.Grows (w.enqueue f scope) := by
  rw [Walk.enqueue]
  split
  · exact refl w
  · exact ⟨.refl _, List.prefix_append _ _, List.prefix_refl _⟩

/-- A walk grows if it assigns to a member. -/
theorem assignMember (w : Walk) (scope : Nat) (object : Evaluated) (word : Word)
    (type : Option BindingType) : w.Grows (w.assignMember scope object word type) := by
  rw [Walk.assignMember]
  split
  · exact (declare w _).trans (refer _ _ _ _ _)
  · exact refer w _ _ _ _

/-- A walk grows if it enters a function. -/
theorem enterFunction (w : Walk) (scope : Nat) (f : FunctionBody) (place : Nat × Fqn)
    (annotated : Option BindingType) : w.Grows (w.enterFunction scope f place annotated).2 :=
  (((declareBind w _ _ _ _).trans (openScope _ _ _ _ _ _)).trans
    (of_scopes _ (.setFunction _ _ _))).trans (enqueue _ _ _)

/-- A walk grows if it enters a class. -/
theorem enterClass (w : Walk) (scope : Nat) (h : ClassHeader) (place : Nat × Fqn) :
    w.Grows (w.enterClass scope h place).2 := by
  have hopen := (declare w ⟨place.2, .class, .resolved place.2, place.1, h.word.location⟩).trans
    (openScope _ h.node .class place.2 scope h.span)
  exact ⟨hopen.scopes, hopen.queue, hopen.symbols⟩

/-- A walk grows if it notes a return. -/
theorem noteReturn (w : Walk) (scope : Nat) (type : BindingType) :
    w.Grows (w.noteReturn scope type) := by
  rw [Walk.noteReturn]
  split <;> exact ⟨.refl _, List.prefix_refl _, List.prefix_refl _⟩

/-- A walk grows if it ends a body. -/
theorem endBody (w : Walk) (scope : Nat) : w.Grows (w.endBody scope) := by
  rw [Walk.endBody]
  split
  · split
    · exact refl w
    · exact ⟨.refl _, List.prefix_refl _, by
        simp only [SymbolTable.keys_setType, List.prefix_refl]⟩
  · exact refl w

end Walk.Grows

namespace Machine

variable (context : ImportContext)

/-- A walk grows with every operation. -/
theorem grows_perform (scope : Nat) (op : Op) (M : Machine) :
    M.walk.Grows (perform context scope op M).walk := by
  cases op with
  | report | readName | readMember | setBases | beginBody =>
    exact ⟨.refl _, List.prefix_refl _, List.prefix_refl _⟩
  | constant | call | combine | instantiate | discard | hint | noHint | discardHint | annotate
  | place | leaveFunction | base => exact .refl _
  -- Each operation is one of the changes above, or changes nothing that is kept.
  | bindName word => exact .declareBind _ _ _ _ _
  | assignMember word => exact .assignMember _ _ _ _ _
  | keepMember word => exact .assignMember _ _ _ _ _
  | enterFunction f => exact .enterFunction _ _ _ _ _
  | parameter word => exact .declareBind _ _ _ _ _
  | enterClass h => exact .enterClass _ _ _ _
  | leaveClass word => exact .bind _ _ _ _
  | bindImport b => exact .bind _ _ _ _
  | declareGlobal name => exact .of_scopes _ (.declareGlobal _ _ _)
  | declareNonlocal name => exact .of_scopes _ (.declareNonlocal _ _ _)
  | noteReturn => exact .noteReturn _ _ _
  | endBody => exact .endBody _ _

/-- A walk grows with a list of operations. -/
theorem grows_performAll (scope : Nat) (ops : List Op) (M : Machine) :
    M.walk.Grows (performAll context scope ops M).walk := by
  induction ops generalizing M with
  | nil => exact .refl _
  | cons op rest ih => exact (grows_perform context scope op M).trans (ih _)

/-- A walk grows with a run. -/
theorem grows_run (P : List Action) (M : Machine) : M.walk.Grows (run context P M).walk := by
  induction P generalizing M with
  | nil => exact .refl _
  | cons a rest ih => exact (grows_perform context _ a.op M).trans (ih _)

end Machine

/-! ### The scope of a site -/

/-- True if a site has a scope, and `i` is its position. -/
def ScopeTree.Resolves (t : ScopeTree) : Site → Nat → Prop
  | .module, i => i = moduleScope
  | .body node, i => t.byNode.get? node = some i

/-- A site with a scope is resolved to it. -/
theorem ScopeTree.Resolves.resolve_eq {t : ScopeTree} {s : Site} {i : Nat} (h : t.Resolves s i) :
    t.resolve s = i := by
  cases s with
  | module => exact h.symm
  | body node => rw [resolve, h, Option.getD_some]

/-- A site has one scope only. -/
theorem ScopeTree.Resolves.unique {t : ScopeTree} {s : Site} {i j : Nat} (hi : t.Resolves s i)
    (hj : t.Resolves s j) : i = j := hi.resolve_eq.symm.trans hj.resolve_eq

/-- A site keeps its scope in a tree that has grown. -/
theorem ScopeTree.Resolves.mono {t u : ScopeTree} {s : Site} {i : Nat} (h : t.Resolves s i)
    (hu : t.Extends u) : u.Resolves s i := by
  cases s with
  | module => exact h
  | body node => exact hu.byNode node i h

/-- Operations at a site are performed in the scope of the site. -/
theorem Machine.run_actions (context : ImportContext) {s : Site} {i : Nat} (ops : List Op)
    (M : Machine) (h : M.walk.scopes.Resolves s i) :
    run context (s.actions ops) M = performAll context i ops M := by
  induction ops generalizing M with
  | nil => rfl
  | cons op rest ih =>
    have hstep : step context M ⟨s, op⟩ = perform context i op M := by rw [step, h.resolve_eq]
    rw [Site.actions, List.map_cons, run_cons, performAll_cons, hstep]
    exact ih _ (h.mono (grows_perform context i op M).scopes)

end NameAtlas.Python
