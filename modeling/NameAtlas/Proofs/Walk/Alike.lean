import NameAtlas.Proofs.Walk.Same

/-!
# Walks over code that is alike

The bodies of functions wait in the queue of a walk, so after two lists of statements that are alike
the walks agree in all but the queue, and the functions in the queues have bodies that are alike
again (`Walk.Like`). From there the two walks go on alike, to the end of the analysis
(`Module.Alike.walks`).
-/

namespace NameAtlas.Python

/-- Two functions with one node and bodies that are alike. -/
structure FunctionBody.Alike (f f' : FunctionBody) : Prop where
  /-- The node. -/
  node : f'.header.node = f.header.node
  /-- The body. -/
  body : Python.Alike f.body f'.body

/-- Two functions that wait with one scope and bodies that are alike. -/
structure QueuedBody.Alike (q q' : QueuedBody) : Prop where
  /-- The function. -/
  function : q.function.Alike q'.function
  /-- The scope. -/
  scope : q'.scope = q.scope

namespace Walk

/-- The walk with another queue. -/
def setQueue (w : Walk) (queue : List QueuedBody) : Walk := { w with queue }

/-- Two walks that agree in all but the queue, in which the functions are alike. -/
inductive Like : Walk → Walk → Prop where
  /-- Any two queues of functions that are alike. -/
  | setQueue (w : Walk) {queue : List QueuedBody}
    (h : List.Forall₂ QueuedBody.Alike w.queue queue) : Like w (w.setQueue queue)

/-- A step that neither reads nor changes the queue. -/
def Unqueued {α : Type} (f : Walk → α × Walk) : Prop :=
  ∀ w queue, f (w.setQueue queue) = ((f w).1, (f w).2.setQueue queue)

/-- Noting a return does not look at the queue. -/
theorem noteReturn_setQueue (w : Walk) (queue : List QueuedBody) (scope : Nat)
    (type : BindingType) :
    (w.setQueue queue).noteReturn scope type = (w.noteReturn scope type).setQueue queue := by
  simp only [noteReturn, setQueue]
  split <;> rfl

/-- Assigning to a member does not look at the queue. -/
theorem assignMember_setQueue (w : Walk) (queue : List QueuedBody) (scope : Nat)
    (object : Evaluated) (word : Word) (type : Option BindingType) :
    (w.setQueue queue).assignMember scope object word type =
      (w.assignMember scope object word type).setQueue queue := by
  simp only [assignMember, setQueue, ownerOf?]
  split <;> rfl

/-- Ending a body does not look at the queue. -/
theorem endBody_setQueue (w : Walk) (queue : List QueuedBody) (scope : Nat) :
    (w.setQueue queue).endBody scope = (w.endBody scope).setQueue queue := by
  simp only [endBody, setQueue]
  split
  · split <;> rfl
  · rfl

end Walk

namespace Machine

/-- The machine with another queue. -/
def setQueue (M : Machine) (queue : List QueuedBody) : Machine := M.setWalk (M.walk.setQueue queue)

variable (context : ImportContext) (scope : Nat)

/-- A basic operation neither reads nor changes the queue. -/
theorem perform_setQueue {op : Op} (hop : op.isBasic) (M : Machine) (queue : List QueuedBody) :
    perform context scope op (M.setQueue queue) = (perform context scope op M).setQueue queue := by
  cases op with
  | assignMember word =>
    exact congrArg M.pop.setWalk (M.walk.assignMember_setQueue queue scope M.value word _)
  | keepMember word =>
    exact congrArg M.pop.setWalk (M.walk.assignMember_setQueue queue scope M.value word none)
  | noteReturn =>
    exact congrArg M.pop.setWalk (M.walk.noteReturn_setQueue queue scope M.value.type)
  | place | enterFunction | parameter | leaveFunction | enterClass | base | setBases | leaveClass
  | beginBody | endBody => cases hop
  | _ => rfl

/-- A run of basic operations does not look at the queue. -/
theorem performAll_setQueue {ops : List Op} (hops : ops.all Op.isBasic) (M : Machine)
    (queue : List QueuedBody) :
    performAll context scope ops (M.setQueue queue) =
      (performAll context scope ops M).setQueue queue := by
  induction ops generalizing M with
  | nil => rfl
  | cons op rest ih =>
    obtain ⟨hop, hrest⟩ := Bool.and_eq_true_iff.1 hops
    rw [performAll_cons, performAll_cons, perform_setQueue context scope hop, ih hrest]

end Machine

namespace Walk

variable (scope : Nat)

/-- Evaluating an expression does not look at the queue. -/
theorem unqueued_eval (e : Expr) : Unqueued (eval scope e) := by
  intro w queue
  have h := Machine.performAll_setQueue default scope (basic_of_inner e.inner_ops) ⟨w, [], [], []⟩ queue
  rw [Machine.performAll_ops, Machine.performAll_ops] at h
  exact Prod.ext (List.head_eq_of_cons_eq (congrArg Machine.values h)) (congrArg Machine.walk h)

/-- Reading a hint does not look at the queue. -/
theorem unqueued_readHint (hint : Option TypeHint) : Unqueued fun w => w.readHint scope hint := by
  intro w queue
  have h := Machine.performAll_setQueue default scope (basic_of_inner (inner_hintOps hint))
    ⟨w, [], [], []⟩ queue
  rw [Machine.performAll_hintOps, Machine.performAll_hintOps] at h
  exact Prod.ext (List.head_eq_of_cons_eq (congrArg Machine.hints h)) (congrArg Machine.walk h)

/-- Reading a default does not look at the queue. -/
theorem readDefault_setQueue (w : Walk) (queue : List QueuedBody) (default : Option Expr) :
    (w.setQueue queue).readDefault scope default =
      (w.readDefault scope default).setQueue queue := by
  cases default with
  | none => rfl
  | some e => exact congrArg Prod.snd (unqueued_eval scope e w queue)

/-- The items of a statement do not look at the queue. -/
theorem performItems_setQueue (w : Walk) (queue : List QueuedBody) (items : List Item) :
    (w.setQueue queue).performItems scope items = (w.performItems scope items).setQueue queue := by
  have hbasic : (items.flatMap Item.ops).all Op.isBasic := by simp
  have h := Machine.performAll_setQueue default scope hbasic ⟨w, [], [], []⟩ queue
  rw [Machine.performAll_flatMap_itemOps, Machine.performAll_flatMap_itemOps] at h
  exact congrArg Machine.walk h

/-- Assigning to a target does not look at the queue. -/
theorem assign_setQueue (w : Walk) (queue : List QueuedBody) (type : BindingType) (t : Target) :
    assign scope type t (w.setQueue queue) = (assign scope type t w).setQueue queue := by
  have h := Machine.performAll_setQueue default scope (basic_of_inner t.inner_assignOps)
    ⟨w, [.ofType type], [], []⟩ queue
  rw [Machine.performAll_assignOps, Machine.performAll_assignOps] at h
  exact congrArg Machine.walk h

/-- Reading the bases of a class does not look at the queue. -/
theorem unqueued_readBases (as : List ClassArgument) : Unqueued (readBases scope as) := by
  intro w queue
  induction as generalizing w with
  | nil => rfl
  | cons a rest ih =>
    cases a with
    | keyword e => simp only [readBases, read, unqueued_eval scope e w queue, ih]
    | base e => simp only [readBases, unqueued_eval scope e w queue, ih]

/-- Declaring parameters does not look at the queue. -/
theorem declareParameters_setQueue (inner : Nat) (receiver : Option Fqn) (ps : List Parameter) (w : Walk)
    (queue : List QueuedBody) :
    declareParameters scope inner receiver ps (w.setQueue queue) =
      (declareParameters scope inner receiver ps w).setQueue queue := by
  induction ps generalizing receiver w with
  | nil => rfl
  | cons p rest ih =>
    cases p with
    | named word hint default =>
      simp only [declareParameters, unqueued_readHint scope hint w queue, readDefault_setQueue]
      exact ih none
        (((w.readHint scope hint).2.readDefault scope default).declareParameter inner word _)
    | unsupported shape snippet location => exact ih receiver (w.report _ _ location)

/-- Binding imports does not look at the queue. -/
theorem bindImports_setQueue (w : Walk) (queue : List QueuedBody) (context : ImportContext)
    (bindings : List ImportBinding) :
    (w.setQueue queue).bindImports context scope bindings =
      (w.bindImports context scope bindings).setQueue queue := by
  induction bindings generalizing w with
  | nil => rfl
  | cons b rest ih => exact ih (w.bindImport context scope b)

/-- A statement that holds no other syntax neither reads nor changes the queue. -/
theorem visit_setQueue (context : ImportContext) {s : Stmt} (hs : s.isLeaf) (w : Walk)
    (queue : List QueuedBody) :
    visit context scope s (w.setQueue queue) = (visit context scope s w).setQueue queue := by
  -- Statements that hold others are no leaves.
  cases s with
  | imports wildcard bindings =>
    cases wildcard with
    | none => exact bindImports_setQueue scope w queue context bindings
    | some location =>
      exact bindImports_setQueue scope (w.report _ _ location) queue context bindings
  | returns value =>
    cases value with
    | none => exact noteReturn_setQueue w queue scope .noneType
    | some value => cases hs
  | globals | nonlocals | unsupported => rfl
  | simple | block | caught | function | «class» => cases hs

namespace Like

variable {w w' : Walk}

/-- Walks that are alike have the same scopes. -/
theorem scopes (h : w.Like w') : w'.scopes = w.scopes := by
  cases h
  rfl

/-- Walks that are alike have the same symbols. -/
theorem symbols (h : w.Like w') : w'.symbols = w.symbols := by
  cases h
  rfl

/-- Walks that are alike bind a name in the same place. -/
theorem bindingPlace (h : w.Like w') (scope : Nat) (name : String) :
    w'.bindingPlace scope name = w.bindingPlace scope name := by
  rw [Walk.bindingPlace, h.scopes, Walk.bindingPlace]

/-- Walks that are alike have methods of the same classes. -/
theorem methodOwner? (h : w.Like w') (scope : Nat) :
    w'.methodOwner? scope = w.methodOwner? scope := by
  rw [Walk.methodOwner?, h.scopes, Walk.methodOwner?]

/-- What a step that leaves the queue alone gives, and what it leaves. -/
theorem step {α : Type} {f : Walk → α × Walk} (hf : Unqueued f) (h : w.Like w') :
    (f w').1 = (f w).1 ∧ (f w).2.Like (f w').2 := by
  cases h with
  | setQueue hqueue =>
    have hself : (f w).2.queue = w.queue := congrArg (fun r => r.2.queue) (hf w w.queue)
    rw [hf]
    exact ⟨rfl, .setQueue _ (hself ▸ hqueue)⟩

/-- What does not look at the queue leaves walks alike. -/
theorem apply {f : Walk → Walk} (hf : ∀ w queue, f (w.setQueue queue) = (f w).setQueue queue)
    (h : w.Like w') : (f w).Like (f w') :=
  (step (f := fun w => ((), f w)) (fun w queue => congrArg (Prod.mk ()) (hf w queue)) h).2

/-- Functions with one node are both queued or both in the queue. -/
theorem enqueue (h : w.Like w') {f f' : FunctionBody} (hf : f.Alike f') (scope : Nat) :
    (w.enqueue f scope).Like (w'.enqueue f' scope) := by
  cases h with
  | @setQueue queue hqueue =>
    -- The queues have functions of the same nodes, so both take the function in or neither does.
    have hany : (queue.any fun q => q.function.header.node = f'.header.node) =
        w.queue.any fun q => q.function.header.node = f.header.node := by
      generalize w.queue = queue₀ at hqueue
      induction hqueue with
      | nil => rfl
      | cons hq _ ih => rw [List.any_cons, List.any_cons, ih, hq.function.node, hf.node]
    simp only [Walk.enqueue, Walk.setQueue, hany]
    split
    · exact .setQueue w hqueue
    · exact .setQueue { w with queue := w.queue ++ [⟨f, scope⟩] }
        (List.rel_append hqueue (.cons ⟨hf, rfl⟩ .nil))

/-- Walks stay alike behind a report of type parameters. -/
theorem reportTypeParameters (h : w.Like w') (location : Option Location) :
    (w.reportTypeParameters location).Like (w'.reportTypeParameters location) :=
  h.apply (f := fun w => w.reportTypeParameters location) fun _ _ => by cases location <;> rfl

/-- Functions with one header but for annotations and parameters are entered alike. -/
theorem enterFunction (h : w.Like w') {f f' : FunctionBody} (hf : f.Alike f')
    (hheader : f.header.Same f'.header) (scope : Nat) (place : Nat × Fqn)
    (hint : Option BindingType) :
    (w'.enterFunction scope f' place hint).1 = (w.enterFunction scope f place hint).1 ∧
      (w.enterFunction scope f place hint).2.Like (w'.enterFunction scope f' place hint).2 := by
  have hsame : w'.openFunction scope f'.header place hint =
      w'.openFunction scope f.header place hint := by
    rw [hheader.rest]
    rfl
  obtain ⟨hinner, hopen⟩ :=
    h.step (f := fun w => w.openFunction scope f.header place hint) fun _ _ => rfl
  simp only [Walk.enterFunction, hsame, hinner, hopen.methodOwner?]
  exact ⟨trivial, (hopen.apply (f := fun w => w.setFunction _ _) fun _ _ => rfl).enqueue hf _⟩

/-- Functions with one header but for annotations and parameters, which are the same, are defined
alike. -/
theorem defineFunction (h : w.Like w') {f f' : FunctionBody} (hf : f.Alike f')
    (hheader : f.header.Same f'.header) (scope : Nat) :
    (w.defineFunction scope f).Like (w'.defineFunction scope f') := by
  have hword : f'.header.word = f.header.word := by rw [hheader.rest]
  have hlist : f'.header.typeParameters = f.header.typeParameters := by rw [hheader.rest]
  have hstatic : f'.header.isStatic = f.header.isStatic := by rw [hheader.rest]
  -- The steps of a definition are done in both walks one after the other.
  obtain ⟨hhint, hread⟩ := (h.reportTypeParameters f.header.typeParameters).step
    (unqueued_readHint scope f.header.returns)
  obtain ⟨hinner, henter⟩ := hread.enterFunction hf hheader scope
    (w.bindingPlace scope f.header.word.text)
    ((w.reportTypeParameters f.header.typeParameters).readHint scope f.header.returns).1
  simp only [Walk.defineFunction, hword, hlist, hstatic, h.bindingPlace, ← hheader.returns scope,
    hhint, hinner, henter.methodOwner?, ← declareParameters_congr hheader.parameters]
  exact henter.apply fun w queue => declareParameters_setQueue scope _ _ f.header.parameters w queue

/-- Classes with one header but for arguments, which are the same, are defined alike. -/
theorem defineClass (h : w.Like w') {header header' : ClassHeader} (hheader : header.Same header')
    (scope : Nat) (place : Nat × Fqn) :
    (w'.defineClass scope header' place).1 = (w.defineClass scope header place).1 ∧
      (w.defineClass scope header place).2.Like (w'.defineClass scope header' place).2 := by
  have hnode : header'.node = header.node := by rw [hheader.rest]
  have hlist : header'.typeParameters = header.typeParameters := by rw [hheader.rest]
  have hsame (w : Walk) : w.enterClass scope header' place = w.enterClass scope header place := by
    rw [hheader.rest]
    rfl
  -- The steps of a definition are done in both walks one after the other.
  obtain ⟨hinner, henter⟩ := (h.reportTypeParameters header.typeParameters).step
    (f := fun w => w.enterClass scope header place) fun _ _ => rfl
  obtain ⟨hbases, hread⟩ := henter.step (unqueued_readBases
    ((w.reportTypeParameters header.typeParameters).enterClass scope header place).1
    header.arguments)
  simp only [Walk.defineClass, hlist, hsame, hinner, ← readBases_congr hheader.arguments, hbases]
  exact ⟨trivial, hread.apply (f := fun w => { w with symbols := w.symbols.setBases place.2 _ })
    fun _ _ => rfl⟩

end Like

end Walk

/-- Statements that are alike are read alike. -/
theorem Walk.Like.visitAll (context : ImportContext) {b b' : List Stmt} (hb : Alike b b') {w w' : Walk}
    (h : w.Like w') (scope : Nat) :
    (visitAll context scope b w).Like (visitAll context scope b' w') := by
  induction hb generalizing w w' scope with
  | nil => exact h
  | skip _ ih => exact ih h scope
  | leaf hs _ ih => exact ih (h.apply (Walk.visit_setQueue scope context hs)) scope
  | @simple items items' _ _ hitems _ ih =>
    refine ih ?_ scope
    rw [visit, visit, ← hitems scope w']
    exact h.apply (f := fun w => w.performItems scope items) fun w queue =>
      Walk.performItems_setQueue scope w queue items
  | block _ _ ihbody ih => exact ih (ihbody h scope) scope
  | @caught value value' between between' target target' _ _ hvalue _ htarget _ ihbetween ih =>
    refine ih ?_ scope
    obtain ⟨heval, hread⟩ := h.step (Walk.unqueued_eval scope value)
    -- The statements in between may queue functions, and the target is assigned behind them.
    have hbetween := ihbetween hread scope
    simp only [visit, ← hvalue scope w', heval, hread.symbols]
    cases htarget with
    | none => exact hbetween
    | @some t t' ht =>
      simp only [← ht scope]
      exact hbetween.apply fun w queue => Walk.assign_setQueue scope w queue _ t
  | function hheader hbody _ _ ih =>
    refine ih (h.defineFunction ⟨?_, hbody⟩ hheader scope) scope
    rw [hheader.rest]
  | @«class» header header' _ _ _ _ hheader _ _ ihbody ih =>
    refine ih ?_ scope
    have hword : header'.word = header.word := by rw [hheader.rest]
    obtain ⟨hinner, hdefine⟩ :=
      h.defineClass hheader scope (w.bindingPlace scope header.word.text)
    simp only [visit, hword, h.bindingPlace, hinner]
    exact (ihbody hdefine _).apply (f := fun w => w.bind _ _ _) fun _ _ => rfl
  | @returns value _ _ _ hvalue _ ih =>
    refine ih ?_ scope
    obtain ⟨heval, hread⟩ := h.step (Walk.unqueued_eval scope value)
    simp only [visit, ← hvalue scope w', heval]
    exact hread.apply (f := fun w => w.noteReturn scope _)
      fun w queue => Walk.noteReturn_setQueue w queue scope _

namespace Walk.Like

variable (context : ImportContext) {w w' : Walk}

/-- Bodies that are alike are read alike. -/
theorem visitBody (h : w.Like w') {q q' : QueuedBody} (hq : q.Alike q') :
    (Walk.visitBody context w q).Like (Walk.visitBody context w' q') := by
  have hbegin : (w.beginBody q.scope).Like (w'.beginBody q.scope) :=
    h.apply (f := fun w => w.beginBody q.scope) fun _ _ => rfl
  rw [Walk.visitBody, Walk.visitBody, hq.scope]
  exact (hbegin.visitAll context hq.function.body q.scope).apply (f := fun w => w.endBody q.scope)
    fun w queue => w.endBody_setQueue queue q.scope

/-- Walks that are alike have functions that are alike in the same places of the queue. -/
theorem getElem?_queue (h : w.Like w') (i : Nat) :
    Option.Rel QueuedBody.Alike w.queue[i]? w'.queue[i]? := by
  cases h with
  | @setQueue queue hqueue =>
    change Option.Rel QueuedBody.Alike w.queue[i]? queue[i]?
    generalize w.queue = queue₀ at hqueue
    induction hqueue generalizing i with
    | nil => exact .none
    | cons hq _ ih =>
      cases i with
      | zero => exact .some hq
      | succ i => exact ih i

/-- The bodies in two queues are read alike. -/
theorem runQueue (i : Nat) (h : w.Like w') :
    (Walk.runQueue context i w).Like (Walk.runQueue context i w') := by
  -- The induction is that of the queue; at each position both walks have a function or neither has.
  induction i, w using Walk.runQueue.induct context generalizing w' with
  | case1 i w q hq ih =>
    have hget := h.getElem?_queue i
    rw [hq] at hget
    cases hq' : w'.queue[i]? with
    | none => simp [hq'] at hget
    | some q' =>
      rw [hq', Option.rel_some_some] at hget
      rw [Walk.runQueue_of_some context hq, Walk.runQueue_of_some context hq']
      exact ih (h.visitBody context hget)
  | case2 i w hq =>
    have hget := h.getElem?_queue i
    rw [hq] at hget
    cases hq' : w'.queue[i]? with
    | none =>
      rw [Walk.runQueue_of_none context hq, Walk.runQueue_of_none context hq']
      exact h
    | some q' => simp [hq'] at hget

/-- Walks that are alike make the same facts. -/
theorem factsOf (h : w.Like w') (path : String) (module : Fqn) (m : Module) :
    Python.factsOf path module m w' = Python.factsOf path module m w := by
  cases h
  rfl

end Walk.Like

/-- Two modules that stand at one place and have bodies that are alike. -/
structure Module.Alike (m m' : Module) : Prop where
  /-- The place. -/
  location : m'.location = m.location
  /-- The body. -/
  body : Python.Alike m.body m'.body

namespace Module.Alike

variable {m m' : Module} (h : m.Alike m') (context : ImportContext)

include h

/-- Walks stay alike behind modules that are alike. -/
theorem visitModule {w w' : Walk} (hw : w.Like w') :
    (Walk.visitModule context m w).Like (Walk.visitModule context m' w') := by
  have hclear : w.clearLog.Like w'.clearLog := hw.apply (f := Walk.clearLog) fun _ _ => rfl
  exact (hclear.visitAll context h.body ScopeTree.moduleScope).runQueue context 0

/-- Modules that are alike start with walks that are alike. -/
theorem start (module : Fqn) : (Walk.start m module).Like (Walk.start m' module) := by
  have hstart : Walk.start m' module = Walk.start m module := by
    rw [Walk.start, Walk.start, h.location]
  rw [hstart]
  exact .setQueue (Walk.start m module) .nil

/-- Modules that are alike are walked over alike. -/
theorem walks (k : Nat) : (Walk.walks context m k).Like (Walk.walks context m' k) := by
  induction k with
  | zero => exact h.start context.module
  | succ k ih => exact h.visitModule context ih

/-- The types of modules that are alike settle at the same time. -/
theorem silentWalks (passes : Nat) :
    m'.silentWalks context passes = m.silentWalks context passes := by
  have hsilent (passes : Nat) {w w' : Walk} (hw : w.Like w') :
      Walk.silentWalks context m' passes w' = Walk.silentWalks context m passes w := by
    induction passes generalizing w w' with
    | zero => rfl
    | succ passes ih =>
      have hnext := h.visitModule context hw
      rw [Walk.silentWalks, Walk.silentWalks, hnext.symbols, hw.symbols, ih hnext]
  exact hsilent _ (h.start context.module)

/-- The facts about modules that are alike are those of one walk, besides the reports of broken
syntax. -/
theorem analyzeModule (path : String) (module : Fqn) (passes : Nat) :
    Python.analyzeModule path module m' passes =
      factsOf path module m' (finalWalk path module m passes) := by
  have hwalk := h.walks (.ofPath path module) (m.silentWalks (.ofPath path module) passes + 1)
  rw [Python.analyzeModule, finalWalk_eq, finalWalk_eq, h.silentWalks]
  exact hwalk.factsOf path module m'

end Module.Alike

end NameAtlas.Python
