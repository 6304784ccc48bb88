import NameAtlas.Proofs.Walk.Bodies
import NameAtlas.Proofs.Walk.Program
import NameAtlas.Python.Analysis

/-!
# Walks over a module as runs

A walk over a module is the run of one list of actions: the code of the module, and then the bodies
of the functions in the order that the queue has in the end (`run_code_visitModule`). Every walk of
an analysis ends with the same functions in its queue, so all of them are runs of one list, the
program of the module (`run_program`), each begun where the one before it ended (`walks`). The
analysis makes some walks until the types settle (`silentWalks`) and one more (`finalWalk_eq`).
-/

namespace NameAtlas.Python

namespace Walk

variable (context : ImportContext)

/-! ### Reading the queue -/

/-- A walk grows if it visits a body. -/
theorem grows_visitBody {w : Walk} {q : QueuedBody}
    (h : w.scopes.Resolves q.function.site q.scope) : w.Grows (visitBody context w q) := by
  have hgrow := Machine.grows_run context q.function.code ⟨w, [], [], []⟩
  rw [Machine.run_functionCode context _ h] at hgrow
  exact hgrow

/-- The functions in the queue keep their scopes if a body is visited. -/
theorem QueueResolves.visitBody {w : Walk} (hw : w.QueueResolves) {q : QueuedBody}
    (h : w.scopes.Resolves q.function.site q.scope) :
    (visitBody context w q).QueueResolves := by
  have hrun := Machine.queueResolves_run context q.function.code (M := ⟨w, [], [], []⟩) hw
  rw [Machine.run_functionCode context _ h] at hrun
  exact hrun

/-- A walk grows with its queue, and the functions in it have their scopes. -/
theorem grows_runQueue (i : Nat) (w : Walk) (hw : w.QueueResolves) :
    w.Grows (runQueue context i w) ∧ (runQueue context i w).QueueResolves := by
  induction i, w using runQueue.induct context with
  | case1 i w q hq ih =>
    have hres : w.scopes.Resolves q.function.site q.scope := hw q (List.mem_of_getElem? hq)
    obtain ⟨hgrow, hresolves⟩ := ih (hw.visitBody context hres)
    rw [runQueue_of_some context hq]
    exact ⟨(grows_visitBody context hres).trans hgrow, hresolves⟩
  | case2 i w hq =>
    rw [runQueue_of_none context hq]
    exact ⟨.refl _, hw⟩

/-- An entry of the queue keeps its place until the end. -/
theorem drop_queue_of_some {i : Nat} {w last : Walk} {q : QueuedBody} (hgrow : w.Grows last)
    (hq : w.queue[i]? = some q) : last.queue.drop i = q :: last.queue.drop (i + 1) := by
  obtain ⟨hi, hget⟩ := List.getElem?_eq_some_iff.1 hq
  obtain ⟨hi', hget'⟩ :=
    List.getElem?_eq_some_iff.1 (List.prefix_iff_getElem?.1 hgrow.queue i hi)
  rw [List.drop_eq_getElem_cons hi', hget', hget]

/-- Nothing is left of a queue behind its end. -/
theorem drop_queue_of_none {i : Nat} {w : Walk} (hq : w.queue[i]? = none) :
    w.queue.drop i = [] := List.drop_eq_nil_of_le (List.getElem?_eq_none_iff.1 hq)

/-- Reading the queue is reading the bodies from its position on, in the order that the queue has in
the end. -/
theorem runQueue_eq_foldl (i : Nat) (w : Walk) (hw : w.QueueResolves) :
    runQueue context i w =
      ((runQueue context i w).queue.drop i).foldl (Walk.visitBody context) w := by
  induction i, w using runQueue.induct context with
  | case1 i w q hq ih =>
    have hres : w.scopes.Resolves q.function.site q.scope := hw q (List.mem_of_getElem? hq)
    -- The rest of the walk only adds to the queue, so its end begins with the same entry.
    have hgrow := (grows_runQueue context i w hw).1
    rw [drop_queue_of_some hgrow hq, runQueue_of_some context hq, List.foldl_cons]
    exact ih (hw.visitBody context hres)
  | case2 i w hq =>
    rw [runQueue_of_none context hq, drop_queue_of_none hq]
    rfl

/-- Reading the queue is a run of the bodies from its position on. -/
theorem run_runQueue (i : Nat) (w : Walk) (hw : w.QueueResolves)
    (values : List Evaluated) (hints : List (Option BindingType)) (definitions : List Definition) :
    Machine.run context
        (((runQueue context i w).queue.drop i).flatMap fun q => q.function.code)
        ⟨w, values, hints, definitions⟩ =
      ⟨runQueue context i w, values, hints, definitions⟩ := by
  -- The induction is that of the queue: the code of one body, then that of the rest.
  induction i, w using runQueue.induct context with
  | case1 i w q hq ih =>
    have hres : w.scopes.Resolves q.function.site q.scope := hw q (List.mem_of_getElem? hq)
    have hgrow := (grows_runQueue context i w hw).1
    rw [drop_queue_of_some hgrow hq, List.flatMap_cons, Machine.run_append,
      Machine.run_functionCode context _ hres, runQueue_of_some context hq]
    exact ih (hw.visitBody context hres)
  | case2 i w hq =>
    rw [runQueue_of_none context hq, drop_queue_of_none hq]
    rfl

end Walk

/-- Reads a module and then the bodies of some functions. -/
def Module.code (m : Module) (bodies : List FunctionBody) : List Action :=
  codeOf .module m.body ++ bodies.flatMap FunctionBody.code

/-- The machine that begins a walk: nothing is logged and nothing lies on the stacks. -/
def Machine.ofWalk (w : Walk) : Machine := ⟨w.clearLog, [], [], []⟩

namespace Walk

variable (context : ImportContext) (m : Module)

/-- The functions in the queue have their scopes behind the code of the module. -/
theorem queueResolves_visitAll {w : Walk} (hw : w.QueueResolves) :
    (visitAll context ScopeTree.moduleScope m.body w.clearLog).QueueResolves := by
  have hresolves := Machine.queueResolves_run context (codeOf .module m.body) (M := .ofWalk w) hw
  rw [Machine.run_codeOf context m.body (s := .module) (.ofWalk w) rfl] at hresolves
  exact hresolves

/-- The functions in the queue have their scopes behind the module. -/
theorem queueResolves_visitModule {w : Walk} (hw : w.QueueResolves) :
    (visitModule context m w).QueueResolves :=
  (grows_runQueue context 0 _ (queueResolves_visitAll context m hw)).2

/-- A walk over a module is a run of its code and of the bodies that are queued in the end. -/
theorem run_code_visitModule {w : Walk} (hw : w.QueueResolves) :
    Machine.run context (m.code (visitModule context m w).queued) (.ofWalk w) =
      ⟨visitModule context m w, [], [], []⟩ := by
  have hrun := run_runQueue context 0 _ (queueResolves_visitAll context m hw) [] [] []
  rw [Module.code, Machine.run_append,
    Machine.run_codeOf context m.body (s := .module) (.ofWalk w) rfl, queued, List.flatMap_map]
  exact hrun

end Walk

/-- What a walk over a module does. -/
def Module.program (m : Module) : List Action := m.code m.bodies

namespace Walk

variable (context : ImportContext) (m : Module)

/-- The state after some walks over a module. -/
def walks : Nat → Walk
  | 0 => start m context.module
  | k + 1 => visitModule context m (walks k)

/-- The functions in the queue have their scopes behind every walk. -/
theorem queueResolves_walks (k : Nat) : (walks context m k).QueueResolves := by
  induction k with
  | zero => exact fun q hq => nomatch hq
  | succ k ih => exact queueResolves_visitModule context m ih

/-- After the first walk the functions of the module are queued. -/
theorem queued_walks_succ (k : Nat) : (walks context m (k + 1)).queued = m.bodies := by
  induction k with
  | zero => exact queued_visitModule_start context m context.module
  | succ k ih => exact queued_visitModule_bodies context m _ ih

/-- Every walk is a run of the program of the module. -/
theorem run_program (k : Nat) :
    Machine.run context m.program (.ofWalk (walks context m k)) =
      ⟨walks context m (k + 1), [], [], []⟩ := by
  have h := run_code_visitModule context m (queueResolves_walks context m k)
  rw [show visitModule context m (walks context m k) = walks context m (k + 1) from rfl,
    queued_walks_succ] at h
  exact h

/-- In every walk the bodies in the queue are read one after the other, behind the module. -/
theorem walks_succ_eq_foldl (k : Nat) :
    walks context m (k + 1) =
      (walks context m (k + 1)).queue.foldl (visitBody context)
        (visitAll context ScopeTree.moduleScope m.body (walks context m k).clearLog) :=
  runQueue_eq_foldl context 0 _ (queueResolves_visitAll context m (queueResolves_walks context m k))

/-- A walk grows into the next one. -/
theorem grows_walks_succ (k : Nat) : (walks context m k).Grows (walks context m (k + 1)) := by
  have h := Machine.grows_run context m.program (.ofWalk (walks context m k))
  rw [run_program] at h
  exact ⟨h.scopes, h.queue, h.symbols⟩

/-- How many walks are made before the last one, if at most `passes` are allowed. -/
def silentWalks : Nat → Walk → Nat
  | 0, _ => 0
  | passes + 1, w =>
    if (visitModule context m w).symbols.types = w.symbols.types then 1
    else silentWalks passes (visitModule context m w) + 1

/-- Settling makes some more silent walks. -/
theorem settle_walks (passes k : Nat) :
    settle context m passes (walks context m k) =
      walks context m (k + silentWalks context m passes (walks context m k)) := by
  induction passes generalizing k with
  | zero => rfl
  | succ passes ih =>
    rw [settle, silentWalks]
    split
    · rfl
    · rw [← Nat.add_assoc, Nat.add_right_comm]
      exact ih (k + 1)

/-- If passes are allowed, there is at least one silent walk. -/
theorem silentWalks_pos {passes : Nat} (h : 0 < passes) (w : Walk) :
    0 < silentWalks context m passes w := by
  obtain ⟨passes, rfl⟩ : ∃ n, passes = n + 1 := ⟨passes - 1, by omega⟩
  rw [silentWalks]
  split <;> omega

end Walk

namespace Machine

variable (context : ImportContext) {P : List Action → Machine → Prop}

/-- What runs one after the other keep, and runs of function bodies have, the run of the bodies in
the queue has. -/
theorem runQueue_induction (hnil : ∀ M, P [] M)
    (happend : ∀ {A B M}, P A M → P B (run context A M) → P (A ++ B) M)
    (hbody : ∀ (f : FunctionBody) M i, M.walk.scopes.Resolves f.site i → P f.code M) (i : Nat) (w : Walk)
    (hw : w.QueueResolves) (values : List Evaluated) (hints : List (Option BindingType))
    (definitions : List Definition) :
    P (((Walk.runQueue context i w).queue.drop i).flatMap fun q => q.function.code)
      ⟨w, values, hints, definitions⟩ := by
  -- The induction is that of the queue: the code of one body, then that of the rest.
  induction i, w using Walk.runQueue.induct context with
  | case1 i w q hq ih =>
    have hres : w.scopes.Resolves q.function.site q.scope := hw q (List.mem_of_getElem? hq)
    have hgrow := (Walk.grows_runQueue context i w hw).1
    rw [Walk.drop_queue_of_some hgrow hq, List.flatMap_cons]
    refine happend (hbody q.function _ _ hres) ?_
    rw [run_functionCode context _ hres, Walk.runQueue_of_some context hq]
    exact ih (hw.visitBody context hres)
  | case2 i w hq =>
    rw [Walk.runQueue_of_none context hq, Walk.drop_queue_of_none hq]
    exact hnil _

/-- What runs one after the other keep, and runs of function bodies have, the bodies that are read
behind the code of a module have in every walk. -/
theorem bodies_induction (m : Module) (k : Nat) (hnil : ∀ M, P [] M)
    (happend : ∀ {A B M}, P A M → P B (run context A M) → P (A ++ B) M)
    (hbody : ∀ (f : FunctionBody) M i, M.walk.scopes.Resolves f.site i → P f.code M) :
    P (m.bodies.flatMap FunctionBody.code)
      (run context (codeOf .module m.body) (.ofWalk (Walk.walks context m k))) := by
  have hqueue := runQueue_induction context hnil happend hbody 0 _
    (Walk.queueResolves_visitAll context m (Walk.queueResolves_walks context m k)) [] [] []
  have hbodies : m.bodies = (Walk.walks context m (k + 1)).queue.map QueuedBody.function :=
    (Walk.queued_walks_succ context m k).symm
  rw [hbodies, List.flatMap_map,
    run_codeOf context m.body (s := .module) (.ofWalk (Walk.walks context m k)) rfl]
  exact hqueue

end Machine

/-- How the imports of a module in a file are resolved. -/
def ImportContext.ofPath (path : String) (module : Fqn) : ImportContext :=
  ⟨module, isPackagePath path⟩

/-- How many walks an analysis makes before the last one. -/
def Module.silentWalks (m : Module) (context : ImportContext) (passes : Nat) : Nat :=
  Walk.silentWalks context m (max 1 passes) (Walk.start m context.module)

/-- There is at least one silent walk over a module. -/
theorem Module.silentWalks_pos (m : Module) (context : ImportContext) (passes : Nat) :
    0 < m.silentWalks context passes :=
  Walk.silentWalks_pos context m (by omega) _

/-- The last walk of an analysis is the one behind the silent walks. -/
theorem finalWalk_eq (path : String) (module : Fqn) (m : Module) (passes : Nat) :
    finalWalk path module m passes =
      Walk.walks (.ofPath path module) m (m.silentWalks (.ofPath path module) passes + 1) := by
  have h := Walk.settle_walks (.ofPath path module) m (max 1 passes) 0
  rw [Nat.zero_add] at h
  exact congrArg (Walk.visitModule (.ofPath path module) m) h

end NameAtlas.Python
