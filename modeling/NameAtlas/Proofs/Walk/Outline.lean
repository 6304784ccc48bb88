import NameAtlas.Proofs.Walk.Layout

/-!
# The outline of a walk

What a walk reads, opens and reports is fixed by the code: types decide what a reference points at
and what a symbol is, and never whether something is read. The outline of a walk is what is left
when everything that depends on names and types is taken out: the shapes of the scopes and of the
references, and the findings. Each operation does to the outline what it says by itself
(`outline_perform`), so the outline after a run follows from the one before (`outline_run`), and two
analyses of one module, whatever the paths, the modules and the passes, have one outline
(`outline_walks_succ`).
-/

namespace NameAtlas

/-- A scope without its owner. -/
structure ScopeShape where
  /-- What the scope belongs to. -/
  kind : ScopeKind
  /-- The position of the enclosing scope. -/
  parent : Option Nat
  /-- The bytes of the defining code. -/
  span : Span
  deriving DecidableEq, Repr, Inhabited

/-- The scope without its owner. -/
def LocalScope.shape (s : LocalScope) : ScopeShape := ⟨s.kind, s.parent, s.span⟩

/-- A reference without its target. -/
structure ReferenceShape where
  /-- The position of the scope it stands in. -/
  scope : Nat
  /-- How it is written. -/
  kind : ReferenceKind
  /-- Where it stands. -/
  location : Location
  deriving DecidableEq, Repr, Inhabited

/-- The reference without its target. -/
def Reference.shape (r : Reference) : ReferenceShape := ⟨r.scope, r.kind, r.location⟩

namespace Python

/-- What a walk has read, opened and reported, without names and types. -/
structure Outline where
  /-- The scope of each node that opened one. -/
  byNode : Table Nat Nat
  /-- The scopes. -/
  scopes : List ScopeShape
  /-- The references logged in the walk. -/
  references : List ReferenceShape
  /-- The findings logged in the walk. -/
  findings : List Finding

namespace Outline

/-- Logs a reference. -/
def refer (o : Outline) (r : ReferenceShape) : Outline := { o with references := o.references ++ [r] }

/-- Logs a finding. -/
def report (o : Outline) (f : Finding) : Outline := { o with findings := o.findings ++ [f] }

/-- Opens the scope of a node. -/
def openScope (o : Outline) (node : Nat) (kind : ScopeKind) (parent : Nat) (span : Span) :
    Outline :=
  match o.byNode.get? node with
  | some _ => o
  | none =>
    { o with
      byNode := o.byNode.insert node o.scopes.length
      scopes := o.scopes ++ [⟨kind, some parent, span⟩] }

/-- The scope of a site. -/
def resolve (o : Outline) : Site → Nat
  | .module => ScopeTree.moduleScope
  | .body node => (o.byNode.get? node).getD ScopeTree.moduleScope

end Outline

/-- What an operation in a scope does to the outline. -/
def Op.outline (scope : Nat) : Op → Outline → Outline
  | .report code message location, o => o.report (.ofCode code message location)
  | .readName word, o => o.refer ⟨scope, .simpleId, word.location⟩
  | .readMember word, o | .assignMember word, o | .keepMember word, o =>
    o.refer ⟨scope, .attr, word.location⟩
  | .enterFunction f, o => o.openScope f.header.node .function scope f.header.span
  | .enterClass h, o => o.openScope h.node .class scope h.span
  | _, o => o

/-- What an action does to the outline. -/
def Action.outline (o : Outline) (a : Action) : Outline := a.op.outline (o.resolve a.site) o

namespace Walk

/-- The outline of a walk. -/
def outline (w : Walk) : Outline :=
  ⟨w.scopes.byNode, w.scopes.scopes.map LocalScope.shape, w.references.toList.map Reference.shape,
    w.findings.toList⟩

/-- The outline of a walk resolves sites as the walk does. -/
theorem resolve_outline (w : Walk) (s : Site) : w.outline.resolve s = w.scopes.resolve s := by
  cases s <;> rfl

/-! ### What the operations of a walk do to its outline -/

/-- Declaring a symbol leaves the outline. -/
@[simp] theorem outline_declare (w : Walk) (d : Declaration) :
    (w.declare d).outline = w.outline := rfl

/-- Binding a name leaves the outline. -/
@[simp] theorem outline_bind (w : Walk) (i : Nat) (name : String) (target : NameTarget) :
    (w.bind i name target).outline = w.outline := by
  simp only [outline, bind, ScopeTree.scopes_bind]
  rfl

/-- A reference of a walk is one of its outline. -/
@[simp] theorem outline_refer (w : Walk) (scope : Nat) (kind : ReferenceKind) (target : UsageTarget)
    (location : Location) :
    (w.refer scope kind target location).outline = w.outline.refer ⟨scope, kind, location⟩ := by
  simp [outline, refer, Outline.refer, Reference.shape]

/-- An assignment to a member is a reference to it, whether the object is known or not. -/
@[simp] theorem outline_assignMember (w : Walk) (scope : Nat) (object : Evaluated) (word : Word)
    (type : Option BindingType) :
    (w.assignMember scope object word type).outline =
      w.outline.refer ⟨scope, .attr, word.location⟩ := by
  rw [assignMember]
  split
  · exact outline_refer _ _ _ _ _
  · exact outline_refer _ _ _ _ _

/-- A scope of a walk is one of its outline. -/
@[simp] theorem outline_openScope (w : Walk) (node : Nat) (kind : ScopeKind) (owner : Fqn)
    (parent : Nat) (span : Span) :
    (w.openScope node kind owner parent span).2.outline =
      w.outline.openScope node kind parent span := by
  have hlen : (w.scopes.scopes.map LocalScope.shape).length = w.scopes.size := by
    rw [List.length_map, ScopeTree.length_scopes]
  simp only [openScope, outline, Outline.openScope]
  cases h : w.scopes.byNode.get? node with
  | some i => rw [ScopeTree.openFrame_eq_of_some h]
  | none =>
    simp only [ScopeTree.scopes_openFrame_of_none h, hlen, List.map_append]
    simp [ScopeTree.openFrame, h, LocalScope.shape]

/-- Entering a function opens a scope of the outline. -/
theorem outline_enterFunction (w : Walk) (scope : Nat) (f : FunctionBody) (place : Nat × Fqn)
    (annotated : Option BindingType) :
    (w.enterFunction scope f place annotated).2.outline =
      w.outline.openScope f.header.node .function scope f.header.span := by
  have hopen : (w.enterFunction scope f place annotated).2.outline =
      (w.openFunction scope f.header place annotated).2.outline := by
    simp only [outline, enterFunction, scopes_enqueue, references_enqueue, findings_enqueue,
      setFunction, ScopeTree.scopes_setFunction]
    rfl
  rw [hopen, openFunction, outline_openScope, outline_bind, outline_declare]

/-- Entering a class opens a scope of the outline. -/
theorem outline_enterClass (w : Walk) (scope : Nat) (h : ClassHeader) (place : Nat × Fqn) :
    (w.enterClass scope h place).2.outline = w.outline.openScope h.node .class scope h.span :=
  outline_openScope (w.declare _) h.node .class place.2 scope h.span

end Walk

namespace Machine

variable (context : ImportContext)

/-- An operation does to the outline of the walk what it says by itself. -/
theorem outline_perform (scope : Nat) (op : Op) (M : Machine) :
    (perform context scope op M).walk.outline = op.outline scope M.walk.outline := by
  -- Symbols, bindings and types are not in the outline.
  cases op with
  | report code message location =>
    simp [perform, setWalk, Walk.report, Walk.outline, Op.outline, Outline.report]
  | readName word => exact Walk.outline_refer _ _ _ _ _
  | readMember word => exact Walk.outline_refer _ _ _ _ _
  | assignMember word => exact Walk.outline_assignMember _ _ _ _ _
  | keepMember word => exact Walk.outline_assignMember _ _ _ _ _
  | enterFunction f => exact Walk.outline_enterFunction _ _ _ _ _
  | enterClass h => exact Walk.outline_enterClass _ _ _ _
  | bindName | parameter | leaveClass | bindImport => exact Walk.outline_bind _ _ _ _
  | declareGlobal name =>
    simp only [perform, setWalk, Walk.outline, ScopeTree.scopes_declareGlobal]
    rfl
  | declareNonlocal name =>
    simp only [perform, setWalk, Walk.outline, ScopeTree.scopes_declareNonlocal]
    rfl
  | noteReturn =>
    simp only [perform, setWalk, Walk.outline, Walk.scopes_noteReturn, Walk.references_noteReturn,
      Walk.findings_noteReturn]
    rfl
  | endBody =>
    simp only [perform, setWalk, Walk.outline, Walk.scopes_endBody, Walk.references_endBody,
      Walk.findings_endBody]
    rfl
  | _ => rfl

/-- A run does to the outline what its actions do. -/
theorem outline_run (P : List Action) (M : Machine) :
    (run context P M).walk.outline = P.foldl Action.outline M.walk.outline := by
  induction P generalizing M with
  | nil => rfl
  | cons a rest ih =>
    rw [run_cons, ih, List.foldl_cons, step, outline_perform, Action.outline, Walk.resolve_outline]

end Machine

/-- The outline of a walk of which nothing is logged yet. -/
def Outline.clearLog (o : Outline) : Outline := { o with references := [], findings := [] }

namespace Walk

variable (context context' : ImportContext) (m : Module)

/-- The next walk does to the outline what the program does. -/
theorem outline_walks_succ (k : Nat) :
    (walks context m (k + 1)).outline =
      m.program.foldl Action.outline (walks context m k).outline.clearLog := by
  have h := Machine.outline_run context m.program (.ofWalk (walks context m k))
  rw [run_program] at h
  exact h

/-- Behind the first walk only the log changes. -/
theorem clearLog_outline_walks {k : Nat} (hk : 1 ≤ k) :
    (walks context m k).outline.clearLog = (walks context m 1).outline.clearLog := by
  have h := sameLayout_walks context m (Nat.le_refl 1) hk
  simp only [outline, Outline.clearLog, h.scopes, h.byNode]

/-- All walks of all analyses of a module behind the first ones have one outline. -/
theorem outline_walks {k l : Nat} (hk : 1 ≤ k) (hl : 1 ≤ l) :
    (walks context m (k + 1)).outline = (walks context' m (l + 1)).outline := by
  have hfirst : (walks context m 1).outline = (walks context' m 1).outline := by
    rw [outline_walks_succ, outline_walks_succ]
    rfl
  rw [outline_walks_succ, outline_walks_succ, clearLog_outline_walks context m hk,
    clearLog_outline_walks context' m hl, hfirst]

end Walk

end Python

end NameAtlas
