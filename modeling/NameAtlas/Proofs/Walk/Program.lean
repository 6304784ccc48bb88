import NameAtlas.Proofs.Walk.Code
import NameAtlas.Proofs.Walk.Growth

/-!
# The actions of a statement

The actions that read a statement at a site, and the proof that a run of them is a visit of the
statement in the scope of the site (`run_code`). Most statements stay at their site; a class does
its bases and its body at a site of its own, which the walk has opened by then.

The body of a function is read behind everything else, at the site of the function, in the scope
that its entry in the queue gives. That this is the scope of the site holds for every entry
(`Walk.QueueResolves`).
-/

namespace NameAtlas.Python

/-- Binds the target of a caught exception, if it has one. -/
def caughtOps : Option Target → List Op
  | some target => target.assignOps
  | none => []

/-- Reads a class definition up to its body. -/
def ClassHeader.code (s : Site) (h : ClassHeader) : List Action :=
  s.actions (.place h.node h.word :: typeParameterOps h.typeParameters ++ [.enterClass h]) ++
    Site.actions (.body h.node) (h.arguments.flatMap ClassArgument.ops ++ [.setBases])

/-- A function definition up to its annotation, and from its name on. -/
theorem FunctionBody.actions_defineOps (s : Site) (g : FunctionBody) :
    s.actions g.defineOps =
      s.actions (.place g.header.node g.header.word ::
        (typeParameterOps g.header.typeParameters ++ hintOps g.header.returns)) ++
      ⟨s, .enterFunction g⟩ ::
        s.actions (g.header.parameters.flatMap Parameter.ops ++ [.leaveFunction]) := by
  simp [defineOps, Site.actions]

/-- The head of a class up to its name, and from there on. -/
theorem ClassHeader.code_eq (s : Site) (c : ClassHeader) :
    c.code s =
      s.actions (.place c.node c.word :: typeParameterOps c.typeParameters) ++
      ⟨s, .enterClass c⟩ ::
        Site.actions (.body c.node) (c.arguments.flatMap ClassArgument.ops ++ [.setBases]) := by
  simp [code, Site.actions]

mutual

/-- Reads a statement. -/
def Stmt.code (s : Site) : Stmt → List Action
  | .simple items => s.actions (items.flatMap Item.ops)
  | .block body => codeOf s body
  | .caught value between target =>
    s.actions (value.ops ++ [.instantiate]) ++ codeOf s between ++
      s.actions (caughtOps target ++ [.discard])
  | .function header body => s.actions (FunctionBody.defineOps ⟨header, body⟩)
  | .class header body =>
    header.code s ++ codeOf (.body header.node) body ++ s.actions [.leaveClass header.word]
  | .imports wildcard bindings => s.actions (wildcardOps wildcard ++ bindings.map .bindImport)
  | .returns (some value) => s.actions (value.ops ++ [.noteReturn])
  | .returns none => s.actions [.constant .noneType, .noteReturn]
  | .globals names => s.actions (names.map .declareGlobal)
  | .nonlocals names => s.actions (names.map .declareNonlocal)
  | .unsupported kind location =>
    s.actions
      [.report .unsupportedStatement ("`" ++ kind ++ "` statements are not modeled") location]

/-- Reads statements in order. -/
def codeOf (s : Site) : List Stmt → List Action
  | [] => []
  | st :: rest => st.code s ++ codeOf s rest

end

/-- The code of two blocks is that of each. -/
theorem codeOf_append (s : Site) (before after : List Stmt) :
    codeOf s (before ++ after) = codeOf s before ++ codeOf s after := by
  induction before with
  | nil => rfl
  | cons st rest ih => rw [List.cons_append, codeOf, ih, codeOf, List.append_assoc]

/-- The site of the body of a function. -/
def FunctionBody.site (f : FunctionBody) : Site := .body f.header.node

/-- Reads the body of a function. -/
def FunctionBody.code (f : FunctionBody) : List Action :=
  f.site.actions [.beginBody] ++ codeOf f.site f.body ++ f.site.actions [.endBody]

namespace Machine

variable (context : ImportContext)

/-- The operations of what is caught bind the name for it and drop the value. -/
theorem run_caughtOps {s : Site} {i : Nat} (target : Option Target) (M : Machine)
    (h : M.walk.scopes.Resolves s i) :
    run context (s.actions (caughtOps target ++ [.discard])) M =
      M.pop.setWalk (match target with
        | some target => assign i M.value.type target M.walk
        | none => M.walk) := by
  rw [run_actions context _ M h, performAll_append]
  cases target with
  | some target =>
    rw [caughtOps, performAll_assignOps]
    rfl
  | none => rfl

/-- Opening a class gives its site the scope that `enterClass` returns. -/
theorem resolves_enterClass (w : Walk) (scope : Nat) (h : ClassHeader) (place : Nat × Fqn) :
    (w.enterClass scope h place).2.scopes.Resolves (.body h.node) (w.enterClass scope h place).1 :=
  ScopeTree.byNode_openFrame _ _ _ _ _ _

/-- The head of a class definition is read, and the definition stays under way. -/
theorem run_classHead {s : Site} {i : Nat} (h : ClassHeader) (M : Machine)
    (hs : M.walk.scopes.Resolves s i) :
    ∃ d : Definition, d.place = M.walk.bindingPlace i h.word.text ∧
      run context (h.code s) M =
        (M.begin d).setWalk (M.walk.defineClass i h (M.walk.bindingPlace i h.word.text)).2 := by
  -- The class is entered in the scope around it, and what it is given is read in its own scope.
  have hinner := resolves_enterClass (M.walk.reportTypeParameters h.typeParameters) i h
    (M.walk.bindingPlace i h.word.text)
  have henter : performAll context i
      (.place h.node h.word :: typeParameterOps h.typeParameters ++ [.enterClass h]) M =
        (M.begin ⟨h.node, M.walk.bindingPlace i h.word.text, [], none, 0⟩).setWalk
          ((M.walk.reportTypeParameters h.typeParameters).enterClass i h
            (M.walk.bindingPlace i h.word.text)).2 := by
    rw [performAll_append, performAll_cons context i (.place h.node h.word),
      performAll_typeParameterOps, performAll_cons, performAll_nil,
      perform_enterClass context i h rfl rfl]
    rfl
  rw [ClassHeader.code, run_append, run_actions context _ M hs, henter,
    run_actions context _ _ hinner, performAll_append,
    performAll_classArgumentOps context _ h.arguments _
      ⟨h.node, M.walk.bindingPlace i h.word.text, [], none, 0⟩ M.definitions rfl]
  exact ⟨_, rfl, rfl⟩

/-- The scope of a class body is open behind the head of the class. -/
theorem resolves_defineClass (w : Walk) (scope : Nat) (h : ClassHeader) (place : Nat × Fqn) :
    (w.defineClass scope h place).2.scopes.Resolves (.body h.node)
      (w.defineClass scope h place).1 := by
  have hopen := resolves_enterClass (w.reportTypeParameters h.typeParameters) scope h place
  have hgrow := grows_performAll default (w.defineClass scope h place).1
    (h.arguments.flatMap ClassArgument.ops)
    ⟨((w.reportTypeParameters h.typeParameters).enterClass scope h place).2, [], [], [default]⟩
  rw [performAll_classArgumentOps default _ h.arguments _ default [] rfl] at hgrow
  exact hopen.mono hgrow.scopes

/-- Behind the head of a class the body of the class has a scope. -/
theorem exists_resolves_classHead {s : Site} {i : Nat} (h : ClassHeader) (M : Machine)
    (hs : M.walk.scopes.Resolves s i) :
    ∃ j, (run context (h.code s) M).walk.scopes.Resolves (.body h.node) j := by
  obtain ⟨d, -, hhead⟩ := run_classHead context h M hs
  rw [hhead]
  exact ⟨_, resolves_defineClass M.walk i h _⟩

mutual

/-- A run of the actions of a statement is a visit of the statement. -/
theorem run_code :
    ∀ (st : Stmt) {s : Site} {i : Nat} (M : Machine), M.walk.scopes.Resolves s i →
      run context (st.code s) M = M.setWalk (visit context i st M.walk)
  | .simple items, s, i, M, h => by
    rw [Stmt.code, run_actions context _ M h, performAll_flatMap_itemOps]
    rfl
  | .block body, s, i, M, h => run_codeOf body M h
  | .caught value between target, s, i, M, h => by
    have hvalue := grows_performAll context i (value.ops ++ [.instantiate]) M
    have hi := h.mono hvalue.scopes
    have hbetween := grows_run context (codeOf s between)
      (performAll context i (value.ops ++ [.instantiate]) M)
    rw [run_codeOf between _ hi] at hbetween
    rw [Stmt.code, run_append, run_append, run_actions context _ M h, run_codeOf between _ hi,
      run_caughtOps context target _ (hi.mono hbetween.scopes), performAll_append, performAll_ops]
    cases target <;> rfl
  | .function header body, s, i, M, h => by
    rw [Stmt.code, run_actions context _ M h, performAll_defineOps]
    rfl
  | .class header body, s, i, M, h => by
    obtain ⟨d, hplace, hhead⟩ := run_classHead context header M h
    have hinner := resolves_defineClass M.walk i header (M.walk.bindingPlace i header.word.text)
    have hbody := run_codeOf body (run context (header.code s) M) (by rw [hhead]; exact hinner)
    -- The class is left at the scope where it was entered, which is still found behind its body.
    have hgrow := grows_run context (header.code s ++ codeOf (.body header.node) body) M
    rw [run_append, hbody] at hgrow
    rw [Stmt.code, run_append, run_append, hbody,
      run_actions context _ _ (h.mono hgrow.scopes), hhead, visit, ← hplace]
    rfl
  | .imports wildcard bindings, s, i, M, h => by
    rw [Stmt.code, run_actions context _ M h, performAll_append, performAll_wildcardOps,
      performAll_bindImport]
    rfl
  | .returns (some value), s, i, M, h => by
    rw [Stmt.code, run_actions context _ M h, performAll_append, performAll_ops]
    rfl
  | .returns none, s, i, M, h => run_actions context _ M h
  | .globals names, s, i, M, h => by
    rw [Stmt.code, run_actions context _ M h, performAll_declareGlobal]
    rfl
  | .nonlocals names, s, i, M, h => by
    rw [Stmt.code, run_actions context _ M h, performAll_declareNonlocal]
    rfl
  | .unsupported kind location, s, i, M, h => run_actions context _ M h

/-- The code of a block does what visiting it does. -/
theorem run_codeOf :
    ∀ (body : List Stmt) {s : Site} {i : Nat} (M : Machine), M.walk.scopes.Resolves s i →
      run context (codeOf s body) M = M.setWalk (visitAll context i body M.walk)
  | [], s, i, M, h => rfl
  | st :: rest, s, i, M, h => by
    have hst := run_code st M h
    have hgrow := grows_run context (st.code s) M
    rw [hst] at hgrow
    rw [codeOf, run_append, hst, run_codeOf rest _ (h.mono hgrow.scopes)]
    rfl

end

/-! ### Function bodies -/

/-- A run of the actions of a function body is a visit of the body. -/
theorem run_functionCode {q : QueuedBody} (M : Machine)
    (h : M.walk.scopes.Resolves q.function.site q.scope) :
    run context q.function.code M = M.setWalk (Walk.visitBody context M.walk q) := by
  have hbegin := run_actions context [.beginBody] M h
  have hbody := run_codeOf context q.function.body (M.setWalk (M.walk.beginBody q.scope)) h
  have hgrow := grows_run context (codeOf q.function.site q.function.body)
    (M.setWalk (M.walk.beginBody q.scope))
  rw [hbody] at hgrow
  rw [FunctionBody.code, run_append, run_append, hbegin]
  refine (congrArg _ hbody).trans ?_
  rw [run_actions context _ _ (h.mono hgrow.scopes)]
  rfl

end Machine

namespace Walk

/-- Every queued function has its scope. -/
def QueueResolves (w : Walk) : Prop :=
  ∀ q ∈ w.queue, w.scopes.Resolves q.function.site q.scope

/-- A walk that queues no function leaves the queue as it is. -/
theorem Grows.queue_eq {w w' : Walk} (h : w.Grows w') (hq : w'.queued = w.queued) :
    w'.queue = w.queue :=
  (h.queue.eq_of_length (by simpa [queued] using (congrArg List.length hq).symm)).symm

/-- The functions in the queue keep their scopes if the walk grows and the queue stays. -/
theorem QueueResolves.mono {w w' : Walk} (h : w.QueueResolves) (hgrow : w.Grows w')
    (hq : w'.queued = w.queued) : w'.QueueResolves := by
  intro q hmem
  rw [hgrow.queue_eq hq] at hmem
  exact (h q hmem).mono hgrow.scopes

/-- The functions in the queue have their scopes behind another one. -/
theorem QueueResolves.enterFunction {w : Walk} (h : w.QueueResolves) (scope : Nat)
    (f : FunctionBody) (place : Nat × Fqn) (annotated : Option BindingType) :
    (w.enterFunction scope f place annotated).2.QueueResolves := by
  have hgrow := Grows.enterFunction w scope f place annotated
  have hf : (w.enterFunction scope f place annotated).2.scopes.Resolves f.site
      (w.enterFunction scope f place annotated).1 := by
    simp only [Walk.enterFunction, enqueue]
    split <;> exact ScopeTree.byNode_openFrame _ _ _ _ _ _
  intro q hmem
  -- The function that is new has the scope that was opened for it.
  by_cases hold : q ∈ w.queue
  · exact (h q hold).mono hgrow.scopes
  · have hq : q = ⟨f, (w.enterFunction scope f place annotated).1⟩ := by
      simp only [Walk.enterFunction, enqueue] at hmem ⊢
      split at hmem
      · exact absurd hmem hold
      · exact (List.mem_append.1 hmem).elim (fun hmem => absurd hmem hold) List.mem_singleton.1
    rw [hq]
    exact hf

end Walk

namespace Machine

variable (context : ImportContext)

/-- The functions in the queue have their scopes behind every operation. -/
theorem queueResolves_perform (scope : Nat) (op : Op) {M : Machine} (h : M.walk.QueueResolves) :
    (perform context scope op M).walk.QueueResolves := by
  have hgrow := grows_perform context scope op M
  cases op with
  | enterFunction f => exact h.enterFunction _ _ _ _
  | assignMember | keepMember => exact h.mono hgrow (Walk.queued_assignMember _ _ _ _ _)
  | noteReturn => exact h.mono hgrow (Walk.queued_noteReturn _ _ _)
  | endBody => exact h.mono hgrow (Walk.queued_endBody _ _)
  | _ => exact h.mono hgrow rfl

/-- The functions in the queue have their scopes behind a run. -/
theorem queueResolves_run (P : List Action) {M : Machine} (h : M.walk.QueueResolves) :
    (run context P M).walk.QueueResolves := by
  induction P generalizing M with
  | nil => exact h
  | cons a rest ih => exact ih (queueResolves_perform context _ a.op h)

end Machine

end NameAtlas.Python
