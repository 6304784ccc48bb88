import NameAtlas.Proofs.Analysis.WellFormed
import NameAtlas.Proofs.Reading.Returns
import NameAtlas.Proofs.Walk.Visits

/-!
# The type that a function returns

All functions share one table of noted types, and each body notes its own: the returns of a body are
noted for the function whose body it is, those in nested functions are read with their own bodies,
and what an earlier walk noted is forgotten before the body begins. The end of a body takes the last
type that was noted, if the annotation of the function was not known when the definition was visited
(`Walk.symbols_visitBody`). That visit is one of the same walk, in the code of the module or in a body
that was read earlier (`Walk.exists_records`).

Every walk reads the body of each function of a tree once (`Walk.exists_queue_of_holds`), and visits
its return statements in document order. So behind a body whose annotation is not known the symbol of
the function has the type of the last return statement in its definition
(`Walk.typeOf_visitBody_returns`).
-/

namespace NameAtlas.Python

open Source (Node SourceText)

section

variable (context : ImportContext)

mutual

/-- The values that are returned in a statement are those of its landmarks. -/
theorem Stmt.map_returned?_visits (scope : Nat) :
    ∀ (st : Stmt) (w : Walk),
      ((st.visits context scope w).filterMap Visit.returned?).map Prod.fst =
        st.landmarks.filterMap Landmark.value?
  | .returns none, _ | .returns (some _), _ | .function _ _, _ | .simple _, _ | .imports _ _, _
  | .globals _, _ | .nonlocals _, _ | .unsupported _ _, _ => rfl
  | .block body, _ => map_returned?_visitsOf scope body _
  | .caught _ between _, _ => map_returned?_visitsOf scope between _
  | .class _ body, _ => map_returned?_visitsOf _ body _

/-- The values that are returned while some statements are read are those of their return
statements. -/
theorem map_returned?_visitsOf (scope : Nat) :
    ∀ (body : List Stmt) (w : Walk),
      ((visitsOf context scope body w).filterMap Visit.returned?).map Prod.fst =
        (landmarksOf body).filterMap Landmark.value?
  | [], _ => rfl
  | st :: rest, _ => by
    rw [visitsOf, List.filterMap_append, List.map_append, Stmt.map_returned?_visits scope st,
      map_returned?_visitsOf scope rest, landmarksOf, List.filterMap_append]

end

end

/-! ### What is defined where -/

/-- No function is defined in its own body. -/
theorem FunctionBody.not_mem_functionsOf (f : FunctionBody) : f ∉ functionsOf f.body := by
  -- A function weighs more than all that stands in its body.
  have hweight {fs : List FunctionBody} (h : f ∈ fs) : f.weight ≤ totalWeight fs := by
    induction fs with
    | nil => cases h
    | cons g rest ih =>
      rw [totalWeight]
      rcases List.mem_cons.1 h with rfl | h
      · omega
      · have := ih h
        omega
  intro h
  have hle := hweight h
  rw [totalWeight_functionsOf, FunctionBody.weight] at hle
  omega

namespace Module

variable {m : Module} {f : FunctionBody}

/-- Every function of a module is one of its definitions. -/
theorem exists_opening (hf : m.Reaches f) : ∃ s, f.header.opening s ∈ m.openings := by
  have hfits {body : List Stmt} {s : Site} (hf : f ∈ functionsOf body)
      (hS : openingsOf s body ⊆ m.openings) : ∃ s, f.header.opening s ∈ m.openings := by
    obtain ⟨s', hs'⟩ := exists_enterFunction_mem_codeOf body s hf
    have hfits : (⟨s', .enterFunction f⟩ : Action).Fits m.openings true true :=
      fits_codeOf body s hS (fun _ => rfl) _ hs'
    exact ⟨s', hfits⟩
  cases hf with
  | here hf => exact hfits hf (List.Subset.refl _)
  | within hg hf =>
    exact hfits hf
      (openingsOf_of_mem_allFunctionsOf m.body .module (mem_allFunctions_of_reaches hg))

end Module

namespace Walk

variable (context : ImportContext)

/-! ### Up to a body -/

/-- The walk behind the code of a module and some bodies, begun at `w`. -/
def walkBefore (m : Module) (w : Walk) (front : List QueuedBody) : Walk :=
  front.foldl (visitBody context) (visitAll context ScopeTree.moduleScope m.body w.clearLog)

/-- The visits that are made in some bodies. -/
def bodyVisits : List QueuedBody → Walk → List Visit
  | [], _ => []
  | q :: rest, w =>
    visitsOf context q.scope q.function.body (w.beginBody q.scope) ++
      bodyVisits rest (visitBody context w q)

/-- The visits that are made in the code of a module and in some bodies, by a walk begun at `w`. -/
def visitsBefore (m : Module) (w : Walk) (front : List QueuedBody) : List Visit :=
  visitsOf context ScopeTree.moduleScope m.body w.clearLog ++
    bodyVisits context front (visitAll context ScopeTree.moduleScope m.body w.clearLog)

/-- The functions that some bodies visit are those that they define. -/
theorem filterMap_function?_bodyVisits (front : List QueuedBody) (w : Walk) :
    (bodyVisits context front w).filterMap Visit.function? =
      front.flatMap fun q => functionsOf q.function.body := by
  induction front generalizing w with
  | nil => rfl
  | cons q rest ih =>
    rw [bodyVisits, List.filterMap_append, filterMap_function?_visitsOf, ih, List.flatMap_cons]

/-- The functions that are visited are those of the module and of the bodies in front. -/
theorem filterMap_function?_visitsBefore (m : Module) (w : Walk) (front : List QueuedBody) :
    (visitsBefore context m w front).filterMap Visit.function? =
      functionsOf m.body ++ front.flatMap fun q => functionsOf q.function.body := by
  rw [visitsBefore, List.filterMap_append, filterMap_function?_visitsOf,
    filterMap_function?_bodyVisits]

variable {m : Module}

/-- A walk grows if it begins a body. -/
theorem Grows.beginBody (w : Walk) (scope : Nat) : w.Grows (w.beginBody scope) :=
  ⟨.refl _, List.prefix_refl _, List.prefix_refl _⟩

/-- What the rest of the queue begins with is read next. -/
theorem getElem?_queue_of_drop {i : Nat} {w : Walk} (hw : w.QueueResolves) {q : QueuedBody}
    {back : List QueuedBody} (h : (runQueue context i w).queue.drop i = q :: back) :
    w.queue[i]? = some q := by
  cases hq : w.queue[i]? with
  | none =>
    rw [runQueue_of_none context hq, drop_queue_of_none hq] at h
    cases h
  | some q' =>
    rw [drop_queue_of_some (grows_runQueue context i w hw).1 hq] at h
    rw [(List.cons.inj h).1]

section Bodies

variable (hm : (definitionsOf m.body).Nodup) {w : Walk} (hw : w.scopes.Mirrors m.openings)
  {q : QueuedBody} (hq : q.function ∈ m.bodies) (hscope : w.scopes.Resolves q.function.site q.scope)

include hw hq hscope

/-- A tree still mirrors the definitions if a body is visited. -/
theorem mirrors_visitBody : (visitBody context w q).scopes.Mirrors m.openings := by
  have hrun := Machine.mirrors_run context (P := q.function.code) (M := ⟨w, [], [], []⟩)
    (fun a ha => m.fits_program a (List.mem_append_right _ (List.mem_flatMap.2 ⟨_, hq, ha⟩)))
    ((Machine.compositional_sited context).functionCode q.function _ hscope) hw
  rwa [Machine.run_functionCode context _ hscope] at hrun

include hm

/-- Reading the body of a function visits the definitions and returns in it, which lie in that
function. -/
theorem traced_body :
    Traced context m.openings (some q.scope) (w.beginBody q.scope)
      (visitsOf context q.scope q.function.body (w.beginBody q.scope))
      (visitAll context q.scope q.function.body (w.beginBody q.scope)) := by
  have hS : ∀ d ∈ m.openings, ∀ d' ∈ m.openings, d.node = d'.node → d = d' :=
    fun _ hd _ hd' hnode => Module.opening_eq hm hd hd' hnode
  have hreaches := Module.reaches_of_mem_bodies hq
  obtain ⟨s, hs⟩ := Module.exists_opening hreaches
  have hstands : (w.beginBody q.scope).Stands m.openings q.function.site q.scope (some q.scope) :=
    ⟨hscope, hw, hw.enclosingFunction?_function hS hs rfl hscope⟩
  exact traced_visitAll context hS _ hstands
    (openingsOf_of_mem_allFunctionsOf m.body .module (Module.mem_allFunctions_of_reaches hreaches))

/-- A body defines other functions only, so what is known about its own stays known. -/
theorem function?_body :
    (visitAll context q.scope q.function.body (w.beginBody q.scope)).scopes.function? q.scope =
      w.scopes.function? q.scope := by
  have htraced := traced_body context hm hw hq hscope
  -- If the body had written anything about the function, it would hold a definition of it.
  refine (htraced.recorded.kept q.scope).resolve_right ?_
  rintro ⟨v, hv, g, hrecords⟩
  have hg : g ∈ functionsOf q.function.body := by
    rw [← filterMap_function?_visitsOf]
    exact List.mem_filterMap.2 ⟨v, hv, hrecords.function⟩
  have hmirrors := mirrors_visitBody context hw hq hscope
  rw [visitBody, scopes_endBody] at hmirrors
  have hnode := hmirrors.injective _ _ _ hrecords.resolves
    (hscope.mono htraced.recorded.grows.scopes)
  have hreaches := Module.reaches_of_mem_bodies hq
  obtain rfl := Module.eq_of_node_eq hm (.within hreaches hg) hreaches hnode
  exact q.function.not_mem_functionsOf hg

/-- Behind the statements of a body the type noted for its function is that of the last return. -/
theorem returned_body :
    (visitAll context q.scope q.function.body (w.beginBody q.scope)).returned.get? q.scope =
      ((visitsOf context q.scope q.function.body (w.beginBody q.scope)).filterMap
        Visit.returned?).getLast?.map Prod.snd := by
  have hbegin : (w.beginBody q.scope).returned.get? q.scope = none := by
    rw [beginBody, Table.get?_erase, if_pos rfl]
  rw [(traced_body context hm hw hq hscope).returned, hbegin, Option.or_none]

/-- A visit of a body records the functions that it defines. -/
theorem recorded_visitBody :
    Recorded (visitsOf context q.scope q.function.body (w.beginBody q.scope)) w
      (visitBody context w q) := by
  have hbegin : Recorded [] w (w.beginBody q.scope) := ⟨.beginBody _ _, fun _ => .inl rfl, nofun⟩
  have hend : Recorded [] (visitAll context q.scope q.function.body (w.beginBody q.scope))
      (visitBody context w q) :=
    ⟨.endBody _ _, fun i => .inl (by rw [visitBody, scopes_endBody]), nofun⟩
  have h := (hbegin.append (traced_body context hm hw hq hscope).recorded).append hend
  rwa [List.nil_append, List.append_nil] at h

end Bodies

/-- In front of a body in the queue its function has its scope, and what is known about functions
is what the visits in the bodies before it found. -/
theorem recorded_bodies (hm : (definitionsOf m.body).Nodup) {q : QueuedBody}
    {front back : List QueuedBody} {i : Nat} {w : Walk} (hqueue : w.QueueResolves)
    (hw : w.scopes.Mirrors m.openings)
    (hbodies : ∀ q ∈ (runQueue context i w).queue, q.function ∈ m.bodies)
    (h : (runQueue context i w).queue.drop i = front ++ q :: back) :
    (front.foldl (visitBody context) w).scopes.Mirrors m.openings ∧
      (front.foldl (visitBody context) w).scopes.Resolves q.function.site q.scope ∧
      Recorded (bodyVisits context front w) w (front.foldl (visitBody context) w) := by
  -- The induction is on the bodies in front of this one, for any walk so far.
  induction front generalizing i w with
  | nil =>
    have hq := List.mem_of_getElem? (getElem?_queue_of_drop context hqueue h)
    exact ⟨hw, hqueue q hq, .of_sameFunctions (.refl w)⟩
  | cons q' rest ih =>
    have hget := getElem?_queue_of_drop context hqueue h
    have hscope := hqueue q' (List.mem_of_getElem? hget)
    have hmem : q' ∈ (runQueue context i w).queue.drop i := by
      rw [h]
      exact List.mem_cons_self
    have hq' : q'.function ∈ m.bodies := hbodies q' (List.mem_of_mem_drop hmem)
    rw [drop_queue_of_some (grows_runQueue context i w hqueue).1 hget] at h
    rw [runQueue_of_some context hget] at h hbodies
    obtain ⟨hmirrors, hresolves, hrecorded⟩ := ih (hqueue.visitBody context hscope)
      (mirrors_visitBody context hw hq' hscope) hbodies (List.cons.inj h).2
    exact ⟨hmirrors, hresolves, (recorded_visitBody context hm hw hq' hscope).append hrecorded⟩

/-- The functions that have been visited are those of the module and of the bodies read so far. -/
theorem exists_visit_iff (m : Module) (w : Walk) (front : List QueuedBody) (f : FunctionBody) :
    (∃ v ∈ visitsBefore context m w front, v.function? = some f) ↔
      f ∈ functionsOf m.body ∨ ∃ q ∈ front, f ∈ functionsOf q.function.body := by
  rw [← List.mem_filterMap, filterMap_function?_visitsBefore, List.mem_append, List.mem_flatMap]

section Queue

variable (hm : (definitionsOf m.body).Nodup) {k : Nat} {q : QueuedBody} {front back : List QueuedBody}
  (hqueue : (walks context m (k + 1)).queue = front ++ q :: back)

include hqueue

/-- The bodies of a module are those in the queue. -/
theorem bodies_eq_of_queue : m.bodies = (front ++ q :: back).map QueuedBody.function := by
  rw [← hqueue]
  exact (queued_walks_succ context m k).symm

/-- What is in the queue is the body of a function of the module. -/
theorem mem_bodies_of_queue {q' : QueuedBody} (hq' : q' ∈ front ++ q :: back) :
    q'.function ∈ m.bodies := by
  rw [bodies_eq_of_queue context hqueue]
  exact List.mem_map_of_mem hq'

/-- The definition of a function is visited before its body is read. -/
theorem exists_visit_of_queue :
    ∃ v ∈ visitsBefore context m (walks context m k) front, v.function? = some q.function := by
  have hbodies := bodies_eq_of_queue context hqueue
  rw [List.map_append, List.map_cons] at hbodies
  refine (exists_visit_iff context m _ front q.function).2
    ((m.defined_bodies _ _ _ hbodies).imp_right ?_)
  rintro ⟨g, hg, hf⟩
  obtain ⟨q', hq', rfl⟩ := List.mem_map.1 hg
  exact ⟨q', hq', hf⟩

/-- What has been visited before a body are functions of the module. -/
theorem reaches_of_visit {v : Visit} {f : FunctionBody}
    (hv : v ∈ visitsBefore context m (walks context m k) front) (hf : v.function? = some f) :
    m.Reaches f := by
  rcases (exists_visit_iff context m _ front f).1 ⟨v, hv, hf⟩ with hf | ⟨q', hq', hf⟩
  · exact .here hf
  · have hmem : q' ∈ front ++ q :: back := List.mem_append_left _ hq'
    exact .within (Module.reaches_of_mem_bodies (mem_bodies_of_queue context hqueue hmem)) hf

include hm

/-- In front of a body its function has its scope, and what is known about functions is what the
visits of the same walk found. -/
theorem recorded_walkBefore :
    (walkBefore context m (walks context m k) front).scopes.Mirrors m.openings ∧
      (walkBefore context m (walks context m k) front).scopes.Resolves q.function.site q.scope ∧
      Recorded (visitsBefore context m (walks context m k) front) (walks context m k).clearLog
        (walkBefore context m (walks context m k) front) := by
  have hS : ∀ d ∈ m.openings, ∀ d' ∈ m.openings, d.node = d'.node → d = d' :=
    fun _ hd _ hd' hnode => Module.opening_eq hm hd hd' hnode
  -- The code of the module is read first, and the bodies in front behind it.
  have hstands : (walks context m k).clearLog.Stands m.openings .module ScopeTree.moduleScope
      ((walks context m k).scopes.enclosingFunction? ScopeTree.moduleScope) :=
    ⟨rfl, mirrors_walks context m k, rfl⟩
  have hblock : (Stmt.block m.body).openings .module ⊆ m.openings := List.Subset.refl _
  obtain ⟨hmirrors, hresolves, hfront⟩ := recorded_bodies context (i := 0) hm
    (queueResolves_visitAll context m (queueResolves_walks context m k))
    (hstands.visit context hblock).mirrors
    (fun q' hq' => mem_bodies_of_queue context hqueue (hqueue ▸ hq')) hqueue
  exact ⟨hmirrors, hresolves,
    (traced_visitAll context hS m.body hstands hblock).recorded.append hfront⟩

/-- In front of a body its function is known from a visit of its definition in the same walk. -/
theorem exists_records :
    ∃ v ∈ visitsBefore context m (walks context m k) front,
      v.Records q.function (walkBefore context m (walks context m k) front) q.scope := by
  obtain ⟨hmirrors, hresolves, hrecorded⟩ := recorded_walkBefore context hm hqueue
  obtain ⟨v, hv, hf⟩ := exists_visit_of_queue context hqueue
  obtain ⟨i, hi, v', hv', g, hrecords⟩ := hrecorded.visited v hv _ hf
  obtain rfl := hi.unique hresolves
  -- The scope is that of one function only.
  have hnode := hmirrors.injective _ _ _ hrecords.resolves hresolves
  have hq : m.Reaches q.function := Module.reaches_of_mem_bodies
    (mem_bodies_of_queue context hqueue (List.mem_append_right _ List.mem_cons_self))
  have hg := reaches_of_visit context hqueue hv' hrecords.function
  obtain rfl := Module.eq_of_node_eq hm hg hq hnode
  exact ⟨v', hv', hrecords⟩

end Queue

/-- Behind its body a function without a known annotation has the type of the last return in it. -/
theorem endBody_of_records {w w' : Walk} {v : Visit} {q : QueuedBody}
    (hrecords : v.Records q.function w q.scope) (hunknown : v.annotated q.function = none)
    (hgrow : w.Grows w') (hfunction : w'.scopes.function? q.scope = w.scopes.function? q.scope) :
    (w'.endBody q.scope).symbols =
        w'.symbols.setType (v.symbol q.function) ((w'.returned.get? q.scope).getD .noneType) ∧
      (w'.endBody q.scope).symbols.typeOf (v.symbol q.function) =
        (w'.returned.get? q.scope).getD .noneType := by
  obtain ⟨owner, hinfo⟩ := hrecords.info
  rw [← hfunction, hunknown, ScopeTree.function?] at hinfo
  -- The function has no annotation, so the end of its body sets the type.
  have hsymbols : (w'.endBody q.scope).symbols =
      w'.symbols.setType (v.symbol q.function) ((w'.returned.get? q.scope).getD .noneType) := by
    rw [Walk.endBody, hinfo]
    rfl
  have hdeclared := (Table.mem_keys_iff _ _).1 (hrecords.declares.mono hgrow)
  exact ⟨hsymbols, by rw [hsymbols, SymbolTable.typeOf_setType, if_pos ⟨rfl, hdeclared⟩]⟩

/-- Behind its body a function without a known annotation has the type of the last return that was
visited in it. -/
theorem symbols_visitBody (hm : (definitionsOf m.body).Nodup) {k : Nat} {q : QueuedBody}
    {front back : List QueuedBody} (hqueue : (walks context m (k + 1)).queue = front ++ q :: back) :
    let w := walkBefore context m (walks context m k) front
    let behind := visitAll context q.scope q.function.body (w.beginBody q.scope)
    let returned := (visitsOf context q.scope q.function.body (w.beginBody q.scope)).filterMap
      Visit.returned?
    let type := (returned.getLast?.map Prod.snd).getD .noneType
    ∃ v ∈ visitsBefore context m (walks context m k) front, v.function? = some q.function ∧
      (v.annotated q.function = none →
        (visitBody context w q).symbols = behind.symbols.setType (v.symbol q.function) type ∧
        (visitBody context w q).symbols.typeOf (v.symbol q.function) = type) := by
  intro w behind returned type
  -- The definition was visited before the body, so what is known of the function comes from there.
  obtain ⟨hmirrors, -, -⟩ := recorded_walkBefore context hm hqueue
  obtain ⟨v, hv, hrecords⟩ := exists_records context hm hqueue
  have hbody : q.function ∈ m.bodies :=
    mem_bodies_of_queue context hqueue (List.mem_append_right _ List.mem_cons_self)
  refine ⟨v, hv, hrecords.function, fun hunknown => ?_⟩
  have hgrow : w.Grows behind := (Grows.beginBody w q.scope).trans
    (traced_body context hm hmirrors hbody hrecords.resolves).recorded.grows
  have hend := endBody_of_records hrecords hunknown hgrow
    (function?_body context hm hmirrors hbody hrecords.resolves)
  rwa [returned_body context hm hmirrors hbody hrecords.resolves] at hend

/-- Every walk reads the body of a function of the tree once. -/
theorem exists_queue_of_holds (source : SourceText) {tree d : Node} (hids : tree.DistinctIds)
    (hkind : tree.kind = "module") (htree : tree.Structured) (hd : tree.Holds d) (k : Nat) :
    ∃ front q back, (walks context (.ofTree source tree) (k + 1)).queue = front ++ q :: back ∧
      (Part.ofNode source d).Means q.function ∧
      ∀ q' ∈ front ++ back, ¬(Part.ofNode source d).Means q'.function := by
  let m := Module.ofTree source tree
  obtain ⟨f, hreaches, hmeans⟩ := exists_reaches_of_holds hids hkind htree hd
  have hqueued : (walks context m (k + 1)).queue.map QueuedBody.function = m.bodies :=
    queued_walks_succ context m k
  have hf : f ∈ (walks context m (k + 1)).queue.map QueuedBody.function := by
    rw [hqueued]
    exact (Module.mem_bodies_iff (nodup_definitions source hids) f).2 hreaches
  obtain ⟨q, hq, rfl⟩ := List.mem_map.1 hf
  obtain ⟨front, back, hqueue⟩ := List.append_of_mem hq
  refine ⟨front, q, back, hqueue, hmeans, fun q' hq' hmeans' => ?_⟩
  have hnodup := m.nodup_bodies
  rw [← hqueued, hqueue, List.map_map, List.map_append, List.map_cons, List.nodup_middle,
    ← List.map_append] at hnodup
  -- Both functions have the node of the definition.
  refine (List.nodup_cons.1 hnodup).1 (List.mem_map.2 ⟨q', hq', ?_⟩)
  exact hmeans'.node_eq.trans hmeans.node_eq.symm

/-- In every walk a function of the tree without a known annotation gets the type of the last return
statement in its definition. -/
theorem typeOf_visitBody_returns (source : SourceText) {tree d : Node} (hids : tree.DistinctIds)
    (hkind : tree.kind = "module") (htree : tree.Structured) (hd : tree.Holds d) (k : Nat) :
    let m := Module.ofTree source tree
    ∃ front q back, (walks context m (k + 1)).queue = front ++ q :: back ∧
      (Part.ofNode source d).Means q.function ∧
      (∀ q' ∈ front ++ back, ¬(Part.ofNode source d).Means q'.function) ∧
      let w := walkBefore context m (walks context m k) front
      let behind := visitAll context q.scope q.function.body (w.beginBody q.scope)
      let returned := (visitsOf context q.scope q.function.body (w.beginBody q.scope)).filterMap
        Visit.returned?
      let type := (returned.getLast?.map Prod.snd).getD .noneType
      walks context m (k + 1) = back.foldl (visitBody context) (visitBody context w q) ∧
        returned.map Prod.fst = (d.children.flatMap Node.returns).map (returnValue source) ∧
        ∃ v ∈ visitsBefore context m (walks context m k) front, v.function? = some q.function ∧
          (v.annotated q.function = none →
            (visitBody context w q).symbols = behind.symbols.setType (v.symbol q.function) type ∧
            (visitBody context w q).symbols.typeOf (v.symbol q.function) = type) := by
  intro m
  -- The body is in the queue once, so the walk is split there.
  obtain ⟨front, q, back, hqueue, hmeans, honly⟩ :=
    exists_queue_of_holds context source hids hkind htree hd k
  have hfold := walks_succ_eq_foldl context m k
  rw [hqueue, List.foldl_append, List.foldl_cons] at hfold
  have hlandmarks := Part.landmarksOf_of_means (htree.subtree (mem_subtrees_of_holds hd)) hmeans
  refine ⟨front, q, back, hqueue, hmeans, honly, hfold, ?_,
    symbols_visitBody context (nodup_definitions source hids) hqueue⟩
  rw [map_returned?_visitsOf, hlandmarks, filterMap_value?_landmark]

/-- The text of a function that returns in a loop, and from another function behind it. -/
def loopText : String :=
  "def f():\n    for x in y:\n        return 1\n    def g():\n        return \"a\"\n"

/-- The tree of the function. -/
def loopFunction : Node :=
  wholeNode 1 "function_definition" "" 0 73
    [wholeNode 2 "identifier" "name" 4 5 [], wholeNode 3 "parameters" "parameters" 5 7 [],
      wholeNode 4 "block" "body" 13 73
        [wholeNode 5 "for_statement" "" 13 41
          [wholeNode 6 "identifier" "left" 17 18 [], wholeNode 7 "identifier" "right" 22 23 [],
            wholeNode 8 "block" "body" 33 41
              [wholeNode 9 "return_statement" "" 33 41 [wholeNode 10 "integer" "" 40 41 []]]],
          wholeNode 11 "function_definition" "" 46 73
            [wholeNode 12 "identifier" "name" 50 51 [],
              wholeNode 13 "parameters" "parameters" 51 53 [],
              wholeNode 14 "block" "body" 63 73
                [wholeNode 15 "return_statement" "" 63 73 [wholeNode 16 "string" "" 70 73 []]]]]]

/-- The return in the loop counts, and the one in the other function does not. -/
theorem typeOf_visitBody_loopFunction :
    let source := SourceText.ofString loopText
    let tree := wholeNode 0 "module" "" 0 74 [loopFunction]
    let context : ImportContext := ⟨.root "m", false⟩
    let m := Module.ofTree source tree
    (tree.DistinctIds ∧ tree.kind = "module" ∧ tree.Structured ∧ tree.Holds loopFunction) ∧
      ∃ front q back, (walks context m 2).queue = front ++ q :: back ∧
        (Part.ofNode source loopFunction).Means q.function ∧
        ∃ v ∈ visitsBefore context m (walks context m 1) front, v.function? = some q.function ∧
          (visitBody context (walkBefore context m (walks context m 1) front) q).symbols.typeOf
            (v.symbol q.function) = .primitive "int" := by
  intro source tree context m
  have hids : tree.DistinctIds := by decide +kernel
  have hstructured : tree.Structured := by decide +kernel
  have hholds : tree.Holds loopFunction := .here List.mem_cons_self
  obtain ⟨front, q, back, hqueue, hmeans, -, -, -, v, hv, hfunction, htype⟩ :=
    typeOf_visitBody_returns context source hids rfl hstructured hholds 1
  refine ⟨⟨hids, rfl, hstructured, hholds⟩, front, q, back, hqueue, hmeans, v, hv, hfunction, ?_⟩
  -- The function has no annotation, so its type is that of the last value it returns.
  obtain ⟨hheader, hbody⟩ := Stmt.function.inj hmeans.2.symm
  have hreturns : q.function.header.returns = none := congrArg FunctionHeader.returns hheader
  have hunknown : v.annotated q.function = none := by
    rw [Visit.annotated, hreturns]
    rfl
  rw [(htype hunknown).2, hbody]
  rfl

end Walk

end NameAtlas.Python
