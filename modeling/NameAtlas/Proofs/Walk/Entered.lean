import NameAtlas.Proofs.Walk.Operations

/-!
# Classes are declared before their bases are set

Two operations rely on the class under way: `setBases` and `leaveClass` write down its name. A walk
declares the class when it enters it, and nothing takes the declaration back, so at both operations
the name is that of a declared symbol (`Machine.Entered`). As with the sites of a run this follows
the syntax (`compositional_entered`): behind the head of a class, and behind its body, the
definition that is on top is the one that began in front of the head. It follows that only declared
classes have bases (`Walk.basesDeclared_walks`).
-/

namespace NameAtlas.Python

namespace Walk

/-- True if a walk has declared a symbol. -/
def Declares (w : Walk) (fqn : Fqn) : Prop := fqn ∈ w.symbols.declarations.keys

/-- What a walk has declared is declared in a walk that it has grown into. -/
theorem Declares.mono {w w' : Walk} {fqn : Fqn} (h : w.Declares fqn) (hgrow : w.Grows w') :
    w'.Declares fqn := hgrow.symbols.subset h

/-- True if every class with bases is declared. -/
def BasesDeclared (w : Walk) : Prop := ∀ c ∈ w.symbols.bases.keys, w.Declares c

/-- A symbol is declared behind its declaration. -/
theorem declares_declare (w : Walk) (d : Declaration) : (w.declare d).Declares d.fqn := by
  rw [Declares, declare, SymbolTable.keys_declare]
  split
  · assumption
  · exact List.mem_append_right _ (List.mem_singleton.2 rfl)

/-- A class is declared behind its beginning. -/
theorem declares_enterClass (w : Walk) (scope : Nat) (h : ClassHeader) (place : Nat × Fqn) :
    (w.enterClass scope h place).2.Declares place.2 :=
  w.declares_declare ⟨place.2, .class, .resolved place.2, place.1, h.word.location⟩

/-- Reading the bases of a class takes nothing back. -/
theorem grows_readBases (scope : Nat) (arguments : List ClassArgument) (w : Walk) :
    w.Grows (readBases scope arguments w).2 := by
  have hrun := Machine.grows_performAll default scope (arguments.flatMap ClassArgument.ops)
    ⟨w, [], [], [default]⟩
  rw [Machine.performAll_classArgumentOps default scope arguments _ default [] rfl] at hrun
  exact hrun

/-- A class is declared behind its head. -/
theorem declares_defineClass (w : Walk) (scope : Nat) (h : ClassHeader) (place : Nat × Fqn) :
    (w.defineClass scope h place).2.Declares place.2 := by
  let entered := (w.reportTypeParameters h.typeParameters).enterClass scope h place
  have henter : entered.2.Declares place.2 := declares_enterClass _ scope h place
  have hread : (readBases entered.1 h.arguments entered.2).2.Declares place.2 :=
    henter.mono (grows_readBases _ _ _)
  exact hread

end Walk

/-! ### Operations that rely on nothing -/

/-- False for the operations that write down the name of the class under way. -/
def Op.isFree : Op → Bool
  | .setBases | .leaveClass _ => false
  | _ => true

/-- Basic operations rely on nothing. -/
theorem Op.isFree_of_isBasic {op : Op} (h : op.isBasic) : op.isFree := by
  cases op <;> first | rfl | cases h

/-- Basic operations are all free. -/
@[simp] theorem free_of_basic {ops : List Op} (h : ops.all Op.isBasic) : ops.all Op.isFree :=
  List.all_eq_true.2 fun op hop => Op.isFree_of_isBasic (List.all_eq_true.1 h op hop)

/-- The operations of a parameter are all free. -/
@[simp] theorem Parameter.free_ops (p : Parameter) : p.ops.all Op.isFree := by
  cases p <;> simp [Parameter.ops, Op.isFree]

/-- The operations that define a function are all free. -/
@[simp] theorem FunctionBody.free_defineOps (f : FunctionBody) : f.defineOps.all Op.isFree := by
  simp [FunctionBody.defineOps, Op.isFree]

/-- The operations of what a class is given are all free. -/
@[simp] theorem ClassArgument.free_ops (a : ClassArgument) : a.ops.all Op.isFree := by
  cases a <;> simp [ClassArgument.ops, Op.isFree]

namespace Machine

variable (context : ImportContext)

/-- True if an operation that writes down the name of the class under way finds it declared. -/
def Enters (M : Machine) : Op → Prop
  | .setBases | .leaveClass _ => M.walk.Declares M.definition.place.2
  | _ => True

/-- True if that holds of every action of a run that begins with `M`. -/
def Entered : List Action → Machine → Prop
  | [], _ => True
  | a :: rest, M => M.Enters a.op ∧ Entered rest (step context M a)

variable {context}

/-- Two runs, one after the other, enter what they write down if each of them does. -/
theorem Entered.append {P P' : List Action} {M : Machine} (h : Entered context P M)
    (h' : Entered context P' (run context P M)) : Entered context (P ++ P') M := by
  induction P generalizing M with
  | nil => exact h'
  | cons a rest ih => exact ⟨h.1, ih h.2 h'⟩

variable (context)

/-- Free operations enter nothing that they write down. -/
theorem entered_actions (s : Site) {ops : List Op} (hops : ops.all Op.isFree) (M : Machine) :
    Entered context (s.actions ops) M := by
  induction ops generalizing M with
  | nil => trivial
  | cons op rest ih =>
    obtain ⟨hop, hrest⟩ := (List.all_cons ▸ Bool.and_eq_true_iff).1 hops
    refine ⟨?_, ih hrest _⟩
    cases op with
    | setBases | leaveClass => cases hop
    | _ => trivial

/-- The last operation of the head of a class finds the class declared. -/
theorem entered_classHead {s : Site} {i : Nat} (h : ClassHeader) (M : Machine)
    (hs : M.walk.scopes.Resolves s i) : Entered context (h.code s) M := by
  have hopen : Entered context (s.actions (.place h.node h.word ::
      typeParameterOps h.typeParameters ++ [.enterClass h])) M :=
    entered_actions context s (by simp [Op.isFree]) M
  -- The arguments are read in the scope of the class, behind `enterClass`.
  have harguments (N : Machine) : Entered context
      (Site.actions (.body h.node) (h.arguments.flatMap ClassArgument.ops)) N :=
    entered_actions context _ (by simp) N
  obtain ⟨d, hplace, hhead⟩ := run_classHead context h M hs
  rw [ClassHeader.code, Site.actions.eq_1 (.body h.node), List.map_append, ← List.append_assoc] at *
  rw [run_append] at hhead
  generalize hN : run context _ M = N at hhead
  refine (hopen.append (harguments _)).append ⟨?_, trivial⟩
  rw [hN]
  -- Setting the bases changes neither the definition under way nor what is declared.
  have hdefinition : N.definition = d := congrArg Machine.definition hhead
  have hsymbols : N.walk.symbols.declarations =
      (M.walk.defineClass i h (M.walk.bindingPlace i h.word.text)).2.symbols.declarations :=
    congrArg (fun M : Machine => M.walk.symbols.declarations) hhead
  rw [Enters, hdefinition, Walk.Declares, hsymbols, hplace]
  exact Walk.declares_defineClass _ _ _ _

/-- Behind its body the definition of a class is on top again, and the class is declared. -/
theorem entered_leaveClass {s : Site} {i : Nat} (header : ClassHeader) (body : List Stmt)
    (M : Machine) (h : M.walk.scopes.Resolves s i) :
    Entered context (s.actions [.leaveClass header.word])
      (run context (header.code s ++ codeOf (.body header.node) body) M) := by
  -- The class was declared with its head, and the body takes nothing back.
  obtain ⟨d, hplace, hhead⟩ := run_classHead context header M h
  obtain ⟨j, hinner⟩ := exists_resolves_classHead context header M h
  have hbody := run_codeOf context body (run context (header.code s) M) hinner
  have hgrow := grows_run context (codeOf (.body header.node) body) (run context (header.code s) M)
  have hdefinition : (run context (codeOf (.body header.node) body)
      (run context (header.code s) M)).definition = d := by
    rw [hbody, hhead]
    rfl
  refine ⟨?_, trivial⟩
  rw [Enters, run_append, hdefinition, hplace]
  refine Walk.Declares.mono ?_ hgrow
  rw [hhead]
  exact Walk.declares_defineClass _ _ _ _

/-- Whether a run enters what it writes down follows the syntax. -/
theorem compositional_entered : Compositional context (Entered context) where
  nil _ := trivial
  append h h' := h.append h'
  basic s _ _ M _ hops := entered_actions context s (free_of_basic hops) M
  function s _ _ M _ := entered_actions context s (by simp) M
  classBody _ _ header body M h hbody :=
    ((entered_classHead context header M h).append hbody).append
      (entered_leaveClass context header body M h)
  functionBody _ f M _ hbody :=
    ((entered_actions context f.site rfl M).append hbody).append (entered_actions context f.site rfl _)

/-- In every walk over a module each class is declared when its name is written down. -/
theorem entered_program (m : Module) (k : Nat) :
    Entered context m.program (.ofWalk (Walk.walks context m k)) :=
  (compositional_entered context).program m k

/-! ### Classes with bases -/

variable {context}

/-- Only `setBases` changes the bases of classes. -/
theorem bases_perform {scope : Nat} {op : Op} (hop : op ≠ .setBases) (M : Machine) :
    (perform context scope op M).walk.symbols.bases = M.walk.symbols.bases := by
  -- Only this operation writes bases; declarations and types are other columns.
  cases op with
  | setBases => exact absurd rfl hop
  | assignMember | keepMember =>
    simp only [perform, setWalk, Walk.assignMember]
    split <;> rfl
  | enterFunction f =>
    simp only [perform, setWalk, Walk.symbols_enterFunction]
    rfl
  | noteReturn => simp only [perform, setWalk, Walk.symbols_noteReturn]
  | endBody =>
    simp only [perform, setWalk, Walk.endBody]
    split
    · split <;> rfl
    · rfl
  | _ => rfl

/-- If an operation finds the class under way declared, it leaves declared what has bases. -/
theorem basesDeclared_perform {scope : Nat} {op : Op} {M : Machine} (hop : M.Enters op)
    (h : M.walk.BasesDeclared) : (perform context scope op M).walk.BasesDeclared := by
  have hgrow := grows_perform context scope op M
  by_cases hset : op = .setBases
  -- The one class that is added is the class under way.
  · subst hset
    intro c hc
    rw [perform, setWalk, SymbolTable.setBases, Table.keys_insert] at hc
    split at hc
    · exact (h c hc).mono hgrow
    · rcases List.mem_append.1 hc with hc | hc
      · exact (h c hc).mono hgrow
      · rw [List.mem_singleton.1 hc]
        exact Walk.Declares.mono hop hgrow
  · intro c hc
    rw [bases_perform hset] at hc
    exact (h c hc).mono hgrow

/-- A run keeps the bases to declared classes. -/
theorem basesDeclared_run {P : List Action} {M : Machine} (hP : Entered context P M)
    (h : M.walk.BasesDeclared) : (run context P M).walk.BasesDeclared := by
  induction P generalizing M with
  | nil => exact h
  | cons a rest ih => exact ih hP.2 (basesDeclared_perform hP.1 h)

end Machine

/-- After any number of walks only declared classes have bases. -/
theorem Walk.basesDeclared_walks (context : ImportContext) (m : Module) (k : Nat) :
    (walks context m k).BasesDeclared := by
  induction k with
  | zero => exact fun c hc => absurd hc List.not_mem_nil
  | succ k ih =>
    have hrun := Machine.basesDeclared_run (Machine.entered_program context m k)
      (M := .ofWalk (walks context m k)) ih
    rw [run_program] at hrun
    exact hrun

end NameAtlas.Python
