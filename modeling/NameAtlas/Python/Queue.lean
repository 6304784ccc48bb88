import NameAtlas.Python.Walk

/-!
# Walks over a module

A walk over a module reads its own code and then the function bodies that wait in the queue, in the
order in which their functions were met. A body that defines functions puts theirs at the end of the
queue while the queue is being read. The walk ends because each body adds no more functions than
stand in it (`waiting_visitBody_lt`), which follows from what reading some statements does to the
queue (`queued_visitAll`): only function definitions touch it, and each queues its own function.
-/

namespace NameAtlas.Python

namespace Walk

/-- What is to be done before the body of a function is read: what an earlier walk returned must not
outlive the statement that returned it. -/
def beginBody (w : Walk) (scope : Nat) : Walk := { w with returned := w.returned.erase scope }

/-- What is to be done after the body of a function is read. Without an annotation the function
returns what its last return statement gave, or `None` if it has none. -/
def endBody (w : Walk) (scope : Nat) : Walk :=
  match (w.scopes.frame? scope).bind Frame.function with
  | some info =>
    if info.annotated then w
    else
      { w with
        symbols := w.symbols.setType info.symbol ((w.returned.get? scope).getD .noneType)
        returned := w.returned.erase scope }
  | none => w

/-- Reads the body of a function in its scope. -/
def visitBody (context : ImportContext) (w : Walk) (q : QueuedBody) : Walk :=
  (visitAll context q.scope q.function.body (w.beginBody q.scope)).endBody q.scope

/-! ### The queue

Only function definitions touch the queue, and each queues its own function, so what reading some
statements adds to the queue is known from the statements (`queued_visitAll`). -/

/-- Puts functions at the end of a list of queued ones, each unless its node is there already. -/
def addNew (queued : List FunctionBody) : List FunctionBody → List FunctionBody
  | [] => queued
  | f :: rest =>
    addNew (if queued.any fun g => g.header.node = f.header.node then queued else queued ++ [f])
      rest

/-- Functions may be queued in two portions. -/
theorem addNew_append (queued fs gs : List FunctionBody) :
    addNew queued (fs ++ gs) = addNew (addNew queued fs) gs := by
  induction fs generalizing queued with
  | nil => rfl
  | cons f rest ih => exact ih _

/-- Nothing in the queue moves when functions are added, and the added ones weigh no more than all
that were to be added. -/
theorem exists_addNew_eq (queued fs : List FunctionBody) :
    ∃ new, addNew queued fs = queued ++ new ∧
      totalWeight new ≤ totalWeight fs := by
  induction fs generalizing queued with
  | nil => exact ⟨[], by simp [addNew]⟩
  | cons f rest ih =>
    rw [addNew]
    split
    · obtain ⟨new, hnew, hle⟩ := ih queued
      exact ⟨new, hnew, by rw [totalWeight]; omega⟩
    · obtain ⟨new, hnew, hle⟩ := ih (queued ++ [f])
      exact ⟨f :: new, by simpa using hnew, by rw [totalWeight, totalWeight]; omega⟩

/-- The functions in the queue. -/
def queued (w : Walk) : List FunctionBody := w.queue.map QueuedBody.function

/-- A report queues nothing. -/
@[simp] theorem queued_report (w : Walk) (code : DiagnosticCode) (message : String)
    (location : Location) : (w.report code message location).queued = w.queued := rfl

/-- A binding queues nothing. -/
@[simp] theorem queued_bind (w : Walk) (i : Nat) (name : String) (target : NameTarget) :
    (w.bind i name target).queued = w.queued := rfl

/-- A declaration queues nothing. -/
@[simp] theorem queued_declare (w : Walk) (d : Declaration) : (w.declare d).queued = w.queued := rfl

/-- Binding a name to a value queues nothing. -/
@[simp] theorem queued_bindName (w : Walk) (scope : Nat) (word : Word) (type : BindingType) :
    (w.bindName scope word type).queued = w.queued := rfl

mutual

/-- Reading an expression queues nothing. -/
@[simp] theorem queued_eval (scope : Nat) :
    ∀ (e : Expr) (w : Walk), (eval scope e w).2.queued = w.queued
  | .name _, _ => rfl
  | .attribute object _, w => queued_eval scope object w
  | .call callee _ arguments, w => by
    rw [eval]
    exact (queued_evalParts scope arguments _).trans (queued_eval scope callee w)
  | .compound parts _, w => queued_evalParts scope parts w
  | .walrus value _, w => queued_eval scope value w
  | .unsupported _ _, _ => rfl

/-- Reading some expressions queues nothing. -/
@[simp] theorem queued_evalParts (scope : Nat) :
    ∀ (es : List Expr) (w : Walk), (evalParts scope es w).2.queued = w.queued
  | [], _ => rfl
  | e :: rest, w => (queued_evalParts scope rest _).trans (queued_eval scope e w)

end

/-- Reading an expression for its names only queues nothing. -/
@[simp] theorem queued_read (w : Walk) (scope : Nat) (e : Expr) :
    (w.read scope e).queued = w.queued := queued_eval scope e w

/-- Reading a hint queues nothing. -/
@[simp] theorem queued_readHint (w : Walk) (scope : Nat) (hint : Option TypeHint) :
    (w.readHint scope hint).2.queued = w.queued := by
  rcases hint with _ | ⟨form, reads⟩ | _
  · rfl
  · exact queued_evalParts scope reads w
  · rfl

/-- Writing a member queues nothing. -/
@[simp] theorem queued_assignMember (w : Walk) (scope : Nat) (object : Evaluated) (word : Word)
    (type : Option BindingType) : (w.assignMember scope object word type).queued = w.queued := by
  rw [assignMember]
  split <;> rfl

mutual

/-- An assignment to a target queues nothing. -/
@[simp] theorem queued_assign (scope : Nat) (type : BindingType) :
    ∀ (t : Target) (w : Walk), (assign scope type t w).queued = w.queued
  | .name _, _ => rfl
  | .attribute object _, w => by
    rw [assign]
    exact (queued_assignMember _ _ _ _ _).trans (queued_eval scope object w)
  | .element read, w => queued_eval scope read w
  | .pattern targets, w => queued_assignEach scope targets w
  | .unsupported _ _, _ => rfl

/-- An assignment to some targets queues nothing. -/
@[simp] theorem queued_assignEach (scope : Nat) :
    ∀ (ts : List Target) (w : Walk), (assignEach scope ts w).queued = w.queued
  | [], _ => rfl
  | t :: rest, w => (queued_assignEach scope rest _).trans (queued_assign scope .unknown t w)

end

/-- An augmented assignment queues nothing. -/
@[simp] theorem queued_augment (scope : Nat) :
    ∀ (t : Target) (w : Walk), (augment scope t w).queued = w.queued
  | .name _, _ | .pattern _, _ | .unsupported _ _, _ => rfl
  | .attribute object _, w => by
    rw [augment]
    exact (queued_assignMember _ _ _ _ _).trans (queued_eval scope object w)
  | .element read, w => queued_eval scope read w

/-- Assignments in pairs queue nothing. -/
@[simp] theorem queued_assignPairs (scope : Nat) (pairs : List (Target × Expr)) (w : Walk) :
    (assignPairs scope pairs w).queued = w.queued := by
  induction pairs generalizing w with
  | nil => rfl
  | cons pair rest ih =>
    rw [assignPairs, ih, queued_assign, queued_eval]

/-- Performing an assignment queues nothing. -/
@[simp] theorem queued_performAssignment (scope : Nat) (a : Assignment) (w : Walk) :
    (performAssignment scope a w).2.queued = w.queued := by
  induction a generalizing w with
  | plain hint target value => simp [performAssignment]
  | unpack hint pairs => simp [performAssignment]
  | chained hint target value ih => simp [performAssignment, ih]

/-- Reading an item queues nothing. -/
@[simp] theorem queued_performItem (scope : Nat) (item : Item) (w : Walk) :
    (performItem scope item w).queued = w.queued := by
  cases item <;> simp [performItem]

/-- Reading some items queues nothing. -/
@[simp] theorem queued_performItems (w : Walk) (scope : Nat) (items : List Item) :
    (w.performItems scope items).queued = w.queued := by
  induction items generalizing w with
  | nil => rfl
  | cons item rest ih => exact (ih _).trans (queued_performItem scope item w)

/-- A report on type parameters queues nothing. -/
@[simp] theorem queued_reportTypeParameters (w : Walk) (location : Option Location) :
    (w.reportTypeParameters location).queued = w.queued := by
  cases location <;> rfl

/-- Reading a default queues nothing. -/
@[simp] theorem queued_readDefault (w : Walk) (scope : Nat) (default : Option Expr) :
    (w.readDefault scope default).queued = w.queued := by
  cases default <;> simp [readDefault]

/-- Declaring a parameter queues nothing. -/
@[simp] theorem queued_declareParameter (w : Walk) (scope : Nat) (word : Word)
    (type : BindingType) : (w.declareParameter scope word type).queued = w.queued := rfl

/-- Declaring the parameters of a function queues nothing. -/
@[simp] theorem queued_declareParameters (outer scope : Nat) (receiver : Option Fqn)
    (parameters : List Parameter) (w : Walk) :
    (declareParameters outer scope receiver parameters w).queued = w.queued := by
  induction parameters generalizing receiver w with
  | nil => rfl
  | cons p rest ih => cases p <;> simp [declareParameters, ih]

/-- Queueing a function adds it if it is new. -/
theorem queued_enqueue (w : Walk) (f : FunctionBody) (scope : Nat) :
    (w.enqueue f scope).queued = addNew w.queued [f] := by
  have hany : w.queued.any (fun g => g.header.node = f.header.node) =
      w.queue.any fun q => q.function.header.node = f.header.node := by
    rw [queued, List.any_map]
    rfl
  rw [enqueue, addNew, addNew, hany]
  split
  · rfl
  · simp [queued]

/-- A definition of a function queues this function and no other. -/
theorem queued_defineFunction (w : Walk) (scope : Nat) (f : FunctionBody) :
    (w.defineFunction scope f).queued = addNew w.queued [f] := by
  simp only [defineFunction, enterFunction, queued_declareParameters, queued_enqueue]
  congr 1
  exact (queued_readHint _ _ _).trans (queued_reportTypeParameters _ _)

/-- Reading the bases of a class queues nothing. -/
@[simp] theorem queued_readBases (scope : Nat) (arguments : List ClassArgument) (w : Walk) :
    (readBases scope arguments w).2.queued = w.queued := by
  induction arguments generalizing w with
  | nil => rfl
  | cons a rest ih => cases a <;> simp [readBases, ih]

/-- A definition of a class queues nothing; its methods are queued by the statements in its body. -/
@[simp] theorem queued_defineClass (w : Walk) (scope : Nat) (h : ClassHeader) (place : Nat × Fqn) :
    (w.defineClass scope h place).2.queued = w.queued := by
  rw [defineClass]
  exact (queued_readBases _ _ _).trans (queued_reportTypeParameters _ _)

/-- Noting a return queues nothing. -/
@[simp] theorem queued_noteReturn (w : Walk) (scope : Nat) (type : BindingType) :
    (w.noteReturn scope type).queued = w.queued := by
  rw [noteReturn]
  split <;> rfl

/-- A report on a wildcard import queues nothing. -/
@[simp] theorem queued_reportWildcard (w : Walk) (location : Option Location) :
    (w.reportWildcard location).queued = w.queued := by
  cases location <;> rfl

/-- Binding imported names queues nothing. -/
@[simp] theorem queued_bindImports (w : Walk) (context : ImportContext) (scope : Nat)
    (bindings : List ImportBinding) :
    (w.bindImports context scope bindings).queued = w.queued := by
  induction bindings generalizing w with
  | nil => rfl
  | cons b rest ih => exact ih _

mutual

/-- Reading a statement queues the functions that it defines where it stands. -/
theorem queued_visit (context : ImportContext) (scope : Nat) :
    ∀ (s : Stmt) (w : Walk), (visit context scope s w).queued = addNew w.queued s.functions
  | .simple _, w | .returns (some _), w => by simp [visit, Stmt.functions, addNew]
  | .imports _ _, w => by simp [visit, Stmt.functions, addNew]
  | .block body, w => queued_visitAll context scope body w
  | .caught value between target, w => by
    cases target <;> simp [visit, Stmt.functions, queued_visitAll context scope between]
  | .function header body, w => queued_defineFunction w scope ⟨header, body⟩
  | .class header body, w => by
    simp [visit, Stmt.functions, queued_visitAll context _ body]
  | .returns none, w => queued_noteReturn w scope .noneType
  | .globals _, _ | .nonlocals _, _ | .unsupported _ _, _ => rfl

/-- Reading statements queues the functions that they define where they stand. -/
theorem queued_visitAll (context : ImportContext) (scope : Nat) :
    ∀ (body : List Stmt) (w : Walk),
      (visitAll context scope body w).queued = addNew w.queued (functionsOf body)
  | [], _ => rfl
  | s :: rest, w => by
    rw [visitAll, queued_visitAll context scope rest, queued_visit context scope s, functionsOf,
      addNew_append]

end

/-- The end of a body queues nothing. -/
@[simp] theorem queued_endBody (w : Walk) (scope : Nat) : (w.endBody scope).queued = w.queued := by
  rw [endBody]
  split
  · split <;> rfl
  · rfl

/-- Reading the body of a function queues the functions that the body defines. -/
theorem queued_visitBody (context : ImportContext) (w : Walk) (q : QueuedBody) :
    (visitBody context w q).queued = addNew w.queued (functionsOf q.function.body) := by
  rw [visitBody, queued_endBody, queued_visitAll]
  rfl

/-- How many functions wait from a position of the queue on, those inside others included. -/
def waiting (w : Walk) (i : Nat) : Nat := totalWeight (w.queued.drop i)

/-- Walking the body of a queued function leaves less to walk: its weight goes, and what it queues
weighs less. -/
theorem waiting_visitBody_lt (context : ImportContext) {w : Walk} {i : Nat} {q : QueuedBody}
    (h : w.queue[i]? = some q) : (visitBody context w q).waiting (i + 1) < w.waiting i := by
  obtain ⟨hi, hq⟩ := List.getElem?_eq_some_iff.1 h
  have hlen : i < w.queued.length := by simpa [queued] using hi
  have hget : w.queued[i] = q.function := by simp [queued, hq]
  obtain ⟨new, hnew, hle⟩ := exists_addNew_eq w.queued (functionsOf q.function.body)
  rw [totalWeight_functionsOf] at hle
  rw [waiting, waiting, queued_visitBody, hnew, List.drop_append_of_le_length (by omega),
    List.drop_eq_getElem_cons hlen, hget]
  simp [totalWeight, FunctionBody.weight]
  omega

/-! ### Walks over a module -/

/-- Reads the bodies from a position of the queue on. -/
def runQueue (context : ImportContext) (i : Nat) (w : Walk) : Walk :=
  match _h : w.queue[i]? with
  | some q => runQueue context (i + 1) (visitBody context w q)
  | none => w
termination_by w.waiting i
decreasing_by exact waiting_visitBody_lt context _h

/-- Reads a module: its own code, then the bodies of its functions. -/
def visitModule (context : ImportContext) (m : Module) (w : Walk) : Walk :=
  runQueue context 0 (visitAll context ScopeTree.moduleScope m.body w.clearLog)

/-- The state before the first walk: the module is declared and its scope is open. -/
def start (m : Module) (module : Fqn) : Walk :=
  let d : Declaration :=
    ⟨module, .module, .resolved module, ScopeTree.moduleScope, m.location⟩
  ⟨.ofModule module m.location.span, SymbolTable.empty.declare d, .empty, [], .empty, #[], #[]⟩

/-- Walks until the types settle, at most `passes` times. -/
def settle (context : ImportContext) (m : Module) : Nat → Walk → Walk
  | 0, w => w
  | passes + 1, w =>
    let next := visitModule context m w
    if next.symbols.types = w.symbols.types then next else settle context m passes next

end Walk

end NameAtlas.Python
