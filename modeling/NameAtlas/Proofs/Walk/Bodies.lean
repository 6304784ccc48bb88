import NameAtlas.Proofs.Reading.Weight
import NameAtlas.Python.Queue
import Mathlib.Data.List.Nodup

/-!
# The functions of a module

A walk over a module queues the functions that it defines and reads their bodies, which may define
more. Which functions that are, and in which order they are read, depends on the module alone
(`Module.bodies`, `queued_visitModule_start`): a look at the queue is enough to know what is added
to it. The list is closed: every function that is defined in the module or in a function of the list
is in the list itself (`closed_bodies`). So a later walk adds nothing (`queued_visitModule_bodies`).

`Module.Reaches` are the functions in the module, those inside others included. If no two
definitions of the module have one node, the list holds each of them (`mem_bodies_iff`), and once
(`nodup_bodies`).
-/

namespace NameAtlas.Python

namespace Walk

/-! ### Adding to the queue -/

/-- True if each of some functions is queued, or another one of its node. -/
def Covers (queued fs : List FunctionBody) : Prop :=
  ∀ f ∈ fs, ∃ g ∈ queued, g.header.node = f.header.node

/-- More functions cover what fewer do. -/
theorem Covers.mono {queued queued' fs : List FunctionBody} (h : Covers queued fs)
    (hsub : queued ⊆ queued') : Covers queued' fs := fun f hf =>
  let ⟨g, hg, heq⟩ := h f hf
  ⟨g, hsub hg, heq⟩

/-- Functions that are covered add nothing. -/
theorem addNew_eq_self {queued fs : List FunctionBody} (h : Covers queued fs) :
    addNew queued fs = queued := by
  induction fs with
  | nil => rfl
  | cons f rest ih =>
    obtain ⟨g, hg, heq⟩ := h f List.mem_cons_self
    have hany : queued.any (fun g => g.header.node = f.header.node) := by
      simpa using ⟨g, hg, heq⟩
    rw [addNew, if_pos hany]
    exact ih fun f' hf' => h f' (List.mem_cons_of_mem f hf')

/-- Functions are added behind those in the queue. -/
theorem prefix_addNew (queued fs : List FunctionBody) : queued <+: addNew queued fs := by
  obtain ⟨new, hnew, -⟩ := exists_addNew_eq queued fs
  rw [hnew]
  exact List.prefix_append _ _

/-- What has been added is there. -/
theorem covers_addNew (queued fs : List FunctionBody) : Covers (addNew queued fs) fs := by
  induction fs generalizing queued with
  | nil => exact fun f hf => nomatch hf
  | cons f rest ih =>
    intro f' hf'
    rw [addNew]
    rcases List.mem_cons.1 hf' with rfl | hrest
    · split
      · rename_i hany
        obtain ⟨g, hg, heq⟩ := List.any_eq_true.1 hany
        exact ⟨g, (prefix_addNew queued rest).subset hg, of_decide_eq_true heq⟩
      · exact ⟨f', (prefix_addNew _ rest).subset (by simp), rfl⟩
    · exact ih _ f' hrest

/-- What is in the queue then was there before or was added. -/
theorem mem_addNew {queued fs : List FunctionBody} {f : FunctionBody} (h : f ∈ addNew queued fs) :
    f ∈ queued ∨ f ∈ fs := by
  induction fs generalizing queued with
  | nil => exact .inl h
  | cons g rest ih =>
    rw [addNew] at h
    rcases ih h with h | h
    · split at h
      · exact .inl h
      · rcases List.mem_append.1 h with h | h
        · exact .inl h
        · exact .inr (List.mem_cons.2 (.inl (List.mem_singleton.1 h)))
    · exact .inr (List.mem_cons_of_mem g h)

/-- No two functions of one node are queued. -/
theorem nodup_addNew {queued : List FunctionBody} (fs : List FunctionBody)
    (h : (queued.map fun f => f.header.node).Nodup) :
    ((addNew queued fs).map fun f => f.header.node).Nodup := by
  induction fs generalizing queued with
  | nil => exact h
  | cons f rest ih =>
    rw [addNew]
    split
    · exact ih h
    -- The function is new, so no function in the queue has its node.
    · rename_i hany
      refine ih ?_
      rw [List.map_append, List.nodup_append]
      refine ⟨h, by simp, ?_⟩
      intro node hnode node' hnode' heq
      obtain ⟨g, hg, rfl⟩ := List.mem_map.1 hnode
      refine hany (List.any_eq_true.2 ⟨g, hg, ?_⟩)
      simpa [heq] using hnode'

variable (context : ImportContext)

/-! ### Reading the queue -/

/-- The queue goes on behind the body of the function at a position. -/
theorem runQueue_of_some {i : Nat} {w : Walk} {q : QueuedBody} (h : w.queue[i]? = some q) :
    runQueue context i w = runQueue context (i + 1) (visitBody context w q) := by
  rw [runQueue]
  split <;> simp_all

/-- The queue ends where it holds no function. -/
theorem runQueue_of_none {i : Nat} {w : Walk} (h : w.queue[i]? = none) :
    runQueue context i w = w := by
  rw [runQueue]
  split <;> simp_all

/-- The function at a position is that of the body there. -/
theorem getElem?_queued (w : Walk) (i : Nat) :
    w.queued[i]? = w.queue[i]?.map QueuedBody.function := by
  simp [queued]

/-- What is queued in the end depends only on what is queued at the beginning. -/
theorem queued_runQueue_congr (context' : ImportContext) (i : Nat) (w w' : Walk)
    (h : w.queued = w'.queued) :
    (runQueue context i w).queued = (runQueue context' i w').queued := by
  -- The induction is that of the queue; the same function stands at each position of both.
  induction i, w using runQueue.induct context generalizing w' with
  | case1 i w q hq ih =>
    have hq' : w'.queued[i]? = some q.function := by rw [← h, getElem?_queued, hq]; rfl
    rw [getElem?_queued, Option.map_eq_some_iff] at hq'
    obtain ⟨q', hq', hfun⟩ := hq'
    rw [runQueue_of_some context hq, runQueue_of_some context' hq']
    exact ih _ (by rw [queued_visitBody, queued_visitBody, h, hfun])
  | case2 i w hq =>
    have hq' : w'.queued[i]? = none := by rw [← h, getElem?_queued, hq]; rfl
    rw [getElem?_queued, Option.map_eq_none_iff] at hq'
    rw [runQueue_of_none context hq, runQueue_of_none context' hq', h]

/-- Which functions are queued depends on those that were queued before alone. -/
theorem queued_visitModule_congr (m : Module) (context' : ImportContext) (w w' : Walk)
    (h : w.queued = w'.queued) :
    (visitModule context m w).queued = (visitModule context' m w').queued := by
  refine queued_runQueue_congr context context' 0 _ _ ?_
  rw [queued_visitAll, queued_visitAll]
  exact congrArg (addNew · _) h

/-- A property of the queue that reading any of its bodies keeps holds of the queue in the end. -/
theorem queued_runQueue_induction {P : List FunctionBody → Prop} (i : Nat) (w : Walk)
    (hstep : ∀ queued f, f ∈ queued → P queued → P (addNew queued (functionsOf f.body)))
    (h : P w.queued) : P (runQueue context i w).queued := by
  induction i, w using runQueue.induct context with
  | case1 i w q hq ih =>
    rw [runQueue_of_some context hq]
    refine ih ?_
    rw [queued_visitBody]
    exact hstep _ _ (List.mem_map_of_mem (List.mem_of_getElem? hq)) h
  | case2 i w hq =>
    rw [runQueue_of_none context hq]
    exact h

/-- If what the bodies in front of a position define is queued, then in the end what any queued body
defines is. -/
theorem covers_runQueue (i : Nat) (w : Walk)
    (h : ∀ f ∈ w.queued.take i, Covers w.queued (functionsOf f.body)) :
    ∀ f ∈ (runQueue context i w).queued,
      Covers (runQueue context i w).queued (functionsOf f.body) := by
  induction i, w using runQueue.induct context with
  | case1 i w q hq ih =>
    have hqueued := queued_visitBody context w q
    have hprefix := prefix_addNew w.queued (functionsOf q.function.body)
    rw [← hqueued] at hprefix
    rw [runQueue_of_some context hq]
    refine ih fun f hf => ?_
    have hget : (visitBody context w q).queued[i]? = some q.function := by
      obtain ⟨hi, heq⟩ := List.getElem?_eq_some_iff.1 hq
      have hi' : i < w.queued.length := by simpa [queued] using hi
      rw [List.prefix_iff_getElem?.1 hprefix i hi']
      simp [queued, heq]
    have htake : (visitBody context w q).queued.take i = w.queued.take i := by
      obtain ⟨hi, -⟩ := List.getElem?_eq_some_iff.1 hq
      obtain ⟨new, hnew⟩ := hprefix
      rw [← hnew, List.take_append_of_le_length (by simp [queued]; omega)]
    -- What is in front stays covered because the queue only grows, and what the body itself defines
    -- has just been queued.
    rw [List.take_add_one, hget, htake] at hf
    rcases List.mem_append.1 hf with hf | hf
    · exact (h f hf).mono hprefix.subset
    · have hf : f = q.function := by simpa using hf
      rw [hf, hqueued]
      exact covers_addNew _ _
  | case2 i w hq =>
    rw [runQueue_of_none context hq]
    intro f hf
    have hlen : w.queued.length ≤ i := by simpa [queued] using hq
    rw [List.take_of_length_le hlen] at h
    exact h f hf

end Walk

namespace Module

/-- The functions whose bodies a walk over a module reads, in the order in which they are read. -/
def bodies (m : Module) : List FunctionBody :=
  (Walk.visitModule default m (Walk.start m .empty)).queued

/-- The functions in a module, those inside other functions included. -/
inductive Reaches (m : Module) : FunctionBody → Prop where
  /-- A function that the code of the module defines. -/
  | here {f : FunctionBody} (h : f ∈ functionsOf m.body) : m.Reaches f
  /-- A function that the body of a function defines. -/
  | within {f g : FunctionBody} (hg : m.Reaches g) (h : f ∈ functionsOf g.body) : m.Reaches f

end Module

namespace Walk

variable (context : ImportContext) (m : Module)

/-- The first walk queues the functions of the module. -/
theorem queued_visitModule_start (module : Fqn) :
    (visitModule context m (start m module)).queued = m.bodies :=
  queued_visitModule_congr context m default _ _ rfl

/-- Every function that the module or one of its queued functions defines is queued. -/
theorem closed_bodies :
    Covers m.bodies (functionsOf m.body) ∧ ∀ f ∈ m.bodies, Covers m.bodies (functionsOf f.body) := by
  have hqueued : (visitAll default ScopeTree.moduleScope m.body (start m .empty).clearLog).queued =
      addNew [] (functionsOf m.body) := queued_visitAll _ _ _ _
  refine ⟨?_, covers_runQueue default 0 _ (by simp)⟩
  refine queued_runQueue_induction default (P := fun queued => Covers queued (functionsOf m.body))
    0 _ (fun queued f _ h => ?_) ?_
  · exact h.mono (prefix_addNew queued _).subset
  · rw [hqueued]
    exact covers_addNew _ _

/-- A walk that finds the functions of the module queued adds none. -/
theorem queued_visitModule_bodies (w : Walk) (h : w.queued = m.bodies) :
    (visitModule context m w).queued = m.bodies := by
  obtain ⟨hmodule, hclosed⟩ := closed_bodies m
  refine queued_runQueue_induction context (P := fun queued => queued = m.bodies) 0 _
    (fun queued f hf hqueued => ?_) ?_
  · subst hqueued
    exact addNew_eq_self (hclosed f hf)
  · rw [queued_visitAll, show w.clearLog.queued = w.queued from rfl, h]
    exact addNew_eq_self hmodule

end Walk

namespace Module

/-- No two of the functions of a module have one node. -/
theorem nodup_bodies (m : Module) : (m.bodies.map fun f => f.header.node).Nodup := by
  refine Walk.queued_runQueue_induction default
    (P := fun queued => (queued.map fun f => f.header.node).Nodup) 0 _ (fun queued f _ h => ?_) ?_
  · exact Walk.nodup_addNew _ h
  · rw [Walk.queued_visitAll]
    exact Walk.nodup_addNew _ List.nodup_nil

/-- A function of the list is one in the module. -/
theorem reaches_of_mem_bodies {m : Module} {f : FunctionBody} (h : f ∈ m.bodies) :
    m.Reaches f := by
  revert f
  refine Walk.queued_runQueue_induction default (P := fun queued => ∀ {f}, f ∈ queued → m.Reaches f)
    0 _ (fun queued g hg h f hf => ?_) ?_
  · rcases Walk.mem_addNew hf with hf | hf
    · exact h hf
    · exact .within (h hg) hf
  · intro f hf
    rw [Walk.queued_visitAll] at hf
    rcases Walk.mem_addNew hf with hf | hf
    · exact nomatch hf
    · exact .here hf

end Module

/-! ### The functions in a module -/

mutual

/-- The functions in a statement, those inside other functions included. -/
def Stmt.allFunctions : Stmt → List FunctionBody
  | .function header body => ⟨header, body⟩ :: allFunctionsOf body
  | .block body | .caught _ body _ | .class _ body => allFunctionsOf body
  | _ => []

/-- The functions in some statements. -/
def allFunctionsOf : List Stmt → List FunctionBody
  | [] => []
  | s :: rest => s.allFunctions ++ allFunctionsOf rest

end

mutual

/-- The functions of a statement are among all functions in it. -/
theorem Stmt.functions_subset : ∀ s : Stmt, s.functions ⊆ s.allFunctions
  | .function header body => by simp [Stmt.functions, Stmt.allFunctions]
  | .block body | .caught _ body _ | .class _ body => functionsOf_subset body
  | .simple _ | .imports _ _ | .returns _ | .globals _ | .nonlocals _ | .unsupported _ _ =>
    List.nil_subset _

/-- What is defined where some statements stand is defined in them. -/
theorem functionsOf_subset : ∀ body : List Stmt, functionsOf body ⊆ allFunctionsOf body
  | [] => List.nil_subset _
  | s :: rest => by
    have hs := Stmt.functions_subset s
    have hrest := functionsOf_subset rest
    rw [functionsOf, allFunctionsOf]
    grind

end

mutual

/-- Functions in a function of a statement are functions in the statement. -/
theorem Stmt.mem_allFunctions_trans {f g : FunctionBody} (hf : f ∈ allFunctionsOf g.body) :
    ∀ s : Stmt, g ∈ s.allFunctions → f ∈ s.allFunctions
  | .function header body, h => by
    rw [Stmt.allFunctions] at h ⊢
    rcases List.mem_cons.1 h with rfl | h
    · exact List.mem_cons_of_mem _ hf
    · exact List.mem_cons_of_mem _ (mem_allFunctionsOf_trans hf body h)
  | .block body, h | .caught _ body _, h | .class _ body, h => mem_allFunctionsOf_trans hf body h
  | .simple _, h | .imports _ _, h | .returns _, h | .globals _, h | .nonlocals _, h
  | .unsupported _ _, h => nomatch h

/-- What is defined in a function of some statements is defined in them. -/
theorem mem_allFunctionsOf_trans {f g : FunctionBody} (hf : f ∈ allFunctionsOf g.body) :
    ∀ body : List Stmt, g ∈ allFunctionsOf body → f ∈ allFunctionsOf body
  | [], h => nomatch h
  | s :: rest, h => by
    rw [allFunctionsOf] at h ⊢
    rcases List.mem_append.1 h with h | h
    · exact List.mem_append_left _ (Stmt.mem_allFunctions_trans hf s h)
    · exact List.mem_append_right _ (mem_allFunctionsOf_trans hf rest h)

end

mutual

/-- The functions in a statement are those of its definitions that are functions. -/
theorem Stmt.map_allFunctions_sublist :
    ∀ s : Stmt, (s.allFunctions.map fun f => f.header.node).Sublist s.definitions
  | .function _ body => (map_allFunctionsOf_sublist body).cons_cons _
  | .class _ body => (map_allFunctionsOf_sublist body).cons _
  | .block body | .caught _ body _ => map_allFunctionsOf_sublist body
  | .simple _ | .imports _ _ | .returns _ | .globals _ | .nonlocals _ | .unsupported _ _ =>
    List.nil_sublist _

/-- The functions in a block are those of its definitions that are functions. -/
theorem map_allFunctionsOf_sublist :
    ∀ body : List Stmt,
      ((allFunctionsOf body).map fun f => f.header.node).Sublist (definitionsOf body)
  | [] => List.nil_sublist _
  | s :: rest => by
    rw [allFunctionsOf, definitionsOf, List.map_append]
    exact (Stmt.map_allFunctions_sublist s).append (map_allFunctionsOf_sublist rest)

end

namespace Module

/-- A function in the module is among all functions of its code. -/
theorem mem_allFunctions_of_reaches {m : Module} {f : FunctionBody} (h : m.Reaches f) :
    f ∈ allFunctionsOf m.body := by
  induction h with
  | here hf => exact functionsOf_subset _ hf
  | within _ hf ih => exact mem_allFunctionsOf_trans (functionsOf_subset _ hf) _ ih

/-- If no two definitions of a module have one node, a function is known by its node. -/
theorem eq_of_node_eq {m : Module} (hm : (definitionsOf m.body).Nodup) {f g : FunctionBody}
    (hf : m.Reaches f) (hg : m.Reaches g) (h : f.header.node = g.header.node) : f = g :=
  List.inj_on_of_nodup_map ((map_allFunctionsOf_sublist m.body).nodup hm)
    (mem_allFunctions_of_reaches hf) (mem_allFunctions_of_reaches hg) h

/-- If no two definitions of a module have one node, the bodies that are read are those of the
functions in the module. -/
theorem mem_bodies_iff {m : Module} (hm : (definitionsOf m.body).Nodup) (f : FunctionBody) :
    f ∈ m.bodies ↔ m.Reaches f := by
  refine ⟨reaches_of_mem_bodies, fun h => ?_⟩
  obtain ⟨hmodule, hclosed⟩ := Walk.closed_bodies m
  -- A node has one function, so another one of the same node is the function itself.
  have hmem : ∀ {f g : FunctionBody}, m.Reaches f → g ∈ m.bodies →
      g.header.node = f.header.node → f ∈ m.bodies := fun {f g} hf hg heq => by
    rw [← eq_of_node_eq hm (reaches_of_mem_bodies hg) hf heq]
    exact hg
  induction h with
  | here hf =>
    obtain ⟨g, hg, heq⟩ := hmodule _ hf
    exact hmem (.here hf) hg heq
  | within hg' hf ih =>
    obtain ⟨g, hg, heq⟩ := hclosed _ ih _ hf
    exact hmem (.within hg' hf) hg heq

end Module

end NameAtlas.Python
