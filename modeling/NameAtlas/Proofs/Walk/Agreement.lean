import NameAtlas.Proofs.Walk.Order
import NameAtlas.Proofs.Walk.Reads
import NameAtlas.Proofs.Walk.WellFormed

/-!
# Walks that agree

Two walks that agree on all that a walk reads, and in which all nodes are open, still agree after
the same run (`agrees_run`). There are two things that a walk takes not from the walk before it but
from itself: what is known about a function whose body ends, and the type that the body returned. In
the two walks these need to be the same only for the functions that were met, and for the bodies
that were begun, in the run so far (`Machine.Remembers`), and a program asks for no others
(`Action.IsOrdered`).
-/

namespace NameAtlas.Python.Machine

/-- The machines agree on what their walks read and on what lies on the stacks. -/
structure Agrees (M N : Machine) : Prop where
  /-- The walks agree. -/
  walk : M.walk.Agrees N.walk
  /-- The values are the same. -/
  values : N.values = M.values
  /-- The annotations are the same. -/
  hints : N.hints = M.hints
  /-- The definitions under way are the same. -/
  definitions : N.definitions = M.definitions

namespace Agrees

variable {M N : Machine}

/-- Machines that agree have the same value on top. -/
theorem value (h : M.Agrees N) : N.value = M.value := by
  rw [Machine.value, Machine.value, h.values]

/-- Machines that agree have the same annotation on top. -/
theorem annotation (h : M.Agrees N) : N.annotation = M.annotation := by
  rw [Machine.annotation, Machine.annotation, h.hints]

/-- Machines that agree have the same definition under way. -/
theorem definition (h : M.Agrees N) : N.definition = M.definition := by
  rw [Machine.definition, Machine.definition, h.definitions]

/-- Machines that agree find the same place for a name. -/
theorem placeOf (h : M.Agrees N) (scope node : Nat) (word : Word) :
    N.placeOf scope node word = M.placeOf scope node word := by
  rw [Machine.placeOf, Machine.placeOf, h.definitions, h.walk.bindingPlace]

/-- Machines still agree behind a value that both push. -/
theorem push (h : M.Agrees N) (v : Evaluated) : (M.push v).Agrees (N.push v) :=
  { h with values := congrArg (v :: ·) h.values }

/-- Machines still agree behind a value that both put on top. -/
theorem replace (h : M.Agrees N) (v : Evaluated) : (M.replace v).Agrees (N.replace v) :=
  { h with values := congrArg (fun vs : List Evaluated => v :: vs.tail) h.values }

/-- Machines still agree if both drop a value. -/
theorem pop (h : M.Agrees N) : M.pop.Agrees N.pop :=
  { h with values := congrArg List.tail h.values }

/-- Machines still agree behind a hint that both push. -/
theorem pushHint (h : M.Agrees N) (hint : Option BindingType) :
    (M.pushHint hint).Agrees (N.pushHint hint) :=
  { h with hints := congrArg (hint :: ·) h.hints }

/-- Machines still agree if both drop a hint. -/
theorem popHint (h : M.Agrees N) : M.popHint.Agrees N.popHint :=
  { h with hints := congrArg List.tail h.hints }

/-- Machines still agree behind a definition that both begin. -/
theorem begin (h : M.Agrees N) (d : Definition) : (M.begin d).Agrees (N.begin d) :=
  { h with definitions := congrArg (d :: ·) h.definitions }

/-- Machines still agree if both change the definition under way in the same way. -/
theorem redefine (h : M.Agrees N) (g : Definition → Definition) :
    (M.redefine g).Agrees (N.redefine g) :=
  { h with definitions := congrArg (List.modifyHead g) h.definitions }

/-- Machines still agree if both leave a definition. -/
theorem leave (h : M.Agrees N) : M.leave.Agrees N.leave :=
  { h with definitions := congrArg List.tail h.definitions }

/-- Machines agree behind walks that agree. -/
theorem setWalk (h : M.Agrees N) {w w' : Walk} (hw : w.Agrees w') :
    (M.setWalk w).Agrees (N.setWalk w') :=
  { h with walk := hw }

end Agrees

variable (context : ImportContext)

/-- The same operation keeps two machines in agreement if it opens no new node, and if it does not
end a body of which the two know different things. -/
theorem agrees_perform (scope : Nat) {op : Op} {M N : Machine} (h : M.Agrees N)
    (hopen : ∀ node, op.opens = some node → (M.walk.scopes.byNode.get? node).isSome)
    (hend : op = .endBody → N.walk.scopes.function? scope = M.walk.scopes.function? scope ∧
      N.walk.returned.get? scope = M.walk.returned.get? scope) :
    (perform context scope op M).Agrees (perform context scope op N) := by
  -- What the machines do not share are the functions of the scopes and the types returned so far, and
  -- only `endBody` reads these. A node that is open is entered again without a change of the layout.
  cases op with
  | report | beginBody => exact h.setWalk (h.walk.congr rfl rfl rfl rfl rfl rfl)
  | constant type => exact h.push _
  | readName word =>
    simp only [perform, h.walk.readName]
    exact (h.push _).setWalk (h.walk.congr rfl rfl rfl rfl rfl rfl)
  | readMember word =>
    simp only [perform, h.value, h.walk.readMember]
    exact (h.replace _).setWalk (h.walk.congr rfl rfl rfl rfl rfl rfl)
  | call written =>
    simp only [perform, h.value, h.walk.typeOfCall]
    exact h.replace _
  | combine outcome =>
    simp only [perform, h.value]
    exact h.replace _
  | instantiate =>
    simp only [perform, h.value, h.walk.symbols.instanceType]
    exact h.replace _
  | discard => exact h.pop
  | hint form =>
    simp only [perform, form.type_congr h.walk.scopes h.walk.symbols]
    exact h.pushHint _
  | noHint => exact h.pushHint none
  | discardHint => exact h.popHint
  | annotate =>
    simp only [perform, h.annotation, h.value]
    exact (h.replace _).popHint
  | bindName word =>
    simp only [perform, h.value]
    exact h.setWalk (h.walk.bindName _ _ _)
  | assignMember word =>
    simp only [perform, h.value, h.pop.value]
    exact h.pop.setWalk (h.walk.assignMember _ _ _ _)
  | keepMember word =>
    simp only [perform, h.value]
    exact h.pop.setWalk (h.walk.assignMember _ _ _ _)
  | place node word =>
    simp only [perform, h.walk.bindingPlace]
    exact h.begin _
  | enterFunction f =>
    obtain ⟨hinner, hwalk⟩ := h.walk.enterFunction scope (hopen _ rfl)
      (M.placeOf scope f.header.node f.header.word) M.annotation
    simp only [perform, h.placeOf, h.annotation, hinner, hwalk.methodOwner?]
    exact (h.popHint.redefine _).setWalk hwalk
  | parameter word =>
    simp only [perform, h.definition, h.annotation]
    exact (h.popHint.redefine _).setWalk (h.walk.declareParameter _ _ _)
  | leaveFunction => exact h.leave
  | enterClass c =>
    simp only [perform, h.placeOf]
    exact h.setWalk (h.walk.enterClass scope (hopen _ rfl) _)
  | base =>
    simp only [perform, h.value]
    exact h.pop.redefine _
  | setBases =>
    simp only [perform, h.definition]
    exact h.setWalk { h.walk with symbols := h.walk.symbols.setBases _ _ }
  | leaveClass word =>
    simp only [perform, h.definition]
    exact h.leave.setWalk (h.walk.bind _ _ _)
  | bindImport b => exact h.setWalk (h.walk.bindImport _ _ _)
  | declareGlobal name =>
    exact h.setWalk { h.walk with scopes := h.walk.scopes.declareGlobal _ _ }
  | declareNonlocal name =>
    exact h.setWalk { h.walk with scopes := h.walk.scopes.declareNonlocal _ _ }
  | noteReturn =>
    refine h.pop.setWalk (h.walk.congr ?_ ?_ ?_ ?_ ?_ ?_) <;> simp
  | endBody => exact h.setWalk (h.walk.endBody (hend rfl).1 (hend rfl).2)

/-! ### What a walk takes from itself -/


/-- The machines know the same about the functions that were met, and have the same types returned
by the bodies that were begun, in the actions done so far. The scopes are those of `t`. -/
structure Remembers (t : ScopeTree) (done : List Action) (M N : Machine) : Prop where
  /-- The functions are known. -/
  functions : ∀ s f, ⟨s, .enterFunction f⟩ ∈ done →
    N.walk.scopes.function? (t.resolve f.site) = M.walk.scopes.function? (t.resolve f.site)
  /-- The returned types are known. -/
  returned : ∀ s, ⟨s, .beginBody⟩ ∈ done →
    N.walk.returned.get? (t.resolve s) = M.walk.returned.get? (t.resolve s)

/-- Only meeting a function changes what is known about functions. -/
theorem function?_perform (scope : Nat) {op : Op} (M : Machine) (h : ∀ f, op ≠ .enterFunction f)
    (i : Nat) :
    (perform context scope op M).walk.scopes.function? i = M.walk.scopes.function? i := by
  cases op with
  | enterFunction f => exact absurd rfl (h f)
  | bindName | parameter | leaveClass | bindImport => exact ScopeTree.function?_bind _ _ _ _ _
  | enterClass c => exact ScopeTree.function?_openFrame _ _ _ _ _ _ _
  | declareGlobal => exact ScopeTree.function?_declareGlobal _ _ _ _
  | declareNonlocal => exact ScopeTree.function?_declareNonlocal _ _ _ _
  | assignMember | keepMember => simp [perform, setWalk]
  | noteReturn => simp [perform, setWalk]
  | endBody => simp [perform, setWalk]
  | _ => rfl

/-- Only the beginnings, the returns and the ends of bodies change what has been returned. -/
theorem returned_perform (scope : Nat) {op : Op} (M : Machine)
    (h : op ≠ .beginBody ∧ op ≠ .noteReturn ∧ op ≠ .endBody) :
    (perform context scope op M).walk.returned = M.walk.returned := by
  cases op with
  | beginBody => exact absurd rfl h.1
  | noteReturn => exact absurd rfl h.2.1
  | endBody => exact absurd rfl h.2.2
  | assignMember | keepMember =>
    simp only [perform, setWalk, Walk.assignMember]
    split <;> rfl
  | enterFunction => exact Walk.returned_enqueue _ _ _
  | _ => rfl

section Remembers

variable {t : ScopeTree} {done : List Action} {M N : Machine}

/-- What is not the meeting of a function adds none to those that were met. -/
theorem Remembers.functions_cons (h : Remembers t done M N) {s s' : Site} {op : Op}
    {f : FunctionBody} (hop : op ≠ .enterFunction f)
    (hf : (⟨s', .enterFunction f⟩ : Action) ∈ ⟨s, op⟩ :: done) :
    N.walk.scopes.function? (t.resolve f.site) = M.walk.scopes.function? (t.resolve f.site) := by
  rcases List.mem_cons.1 hf with heq | hf
  · exact absurd (Action.mk.inj heq).2.symm hop
  · exact h.functions s' f hf

/-- What is not the beginning of a body adds none to those that were begun. -/
theorem Remembers.returned_cons (h : Remembers t done M N) {s s' : Site} {op : Op}
    (hop : op ≠ .beginBody) (hs' : (⟨s', .beginBody⟩ : Action) ∈ ⟨s, op⟩ :: done) :
    N.walk.returned.get? (t.resolve s') = M.walk.returned.get? (t.resolve s') := by
  rcases List.mem_cons.1 hs' with heq | hs'
  · exact absurd (Action.mk.inj heq).2.symm hop
  · exact h.returned s' hs'

/-- An operation that changes neither what is known about functions nor what has been returned. -/
theorem Remembers.other (h : Remembers t done M N) (s : Site) (scope : Nat) {op : Op}
    (hop : (∀ f, op ≠ .enterFunction f) ∧ op ≠ .beginBody ∧ op ≠ .noteReturn ∧ op ≠ .endBody) :
    Remembers t (⟨s, op⟩ :: done) (perform context scope op M) (perform context scope op N) := by
  refine ⟨fun s' f hf => ?_, fun s' hs' => ?_⟩
  · rw [function?_perform context scope M hop.1, function?_perform context scope N hop.1]
    exact h.functions_cons (hop.1 f) hf
  · rw [returned_perform context scope M hop.2, returned_perform context scope N hop.2]
    exact h.returned_cons hop.2.1 hs'

/-- Meeting a function that both know the same about. -/
theorem Remembers.enterFunction (h : Remembers t done M N) (hMN : M.Agrees N)
    (ht : t.SameLayout M.walk.scopes) {f : FunctionBody} (hlt : t.resolve f.site < t.size)
    (hopen : (t.byNode.get? f.header.node).isSome) (s : Site) (scope : Nat) :
    Remembers t (⟨s, .enterFunction f⟩ :: done)
      (perform context scope (.enterFunction f) M)
      (perform context scope (.enterFunction f) N) := by
  let place := M.placeOf scope f.header.node f.header.word
  have hM : (M.walk.scopes.byNode.get? f.header.node).isSome := by rwa [ht.byNode]
  obtain ⟨hinner, hwalk⟩ := hMN.walk.enterFunction scope hM place M.annotation
  have hinfo := hMN.walk.definedInfo scope hM place M.annotation
  have hlayout : t.SameLayout (perform context scope (.enterFunction f) M).walk.scopes :=
    ht.trans (sameLayout_perform context scope fun node hnode => Option.some.inj hnode ▸ hM)
  -- Both machines enter the scope that `t` has for the function.
  have hresolve : (M.walk.enterFunction scope f place M.annotation).1 = t.resolve f.site := by
    have hnode := Walk.byNode_enterFunction M.walk scope f place M.annotation
    rw [show (M.walk.enterFunction scope f place M.annotation).2.scopes.byNode = t.byNode from
      hlayout.byNode] at hnode
    rw [FunctionBody.site, ScopeTree.resolve, hnode]
    rfl
  have hreturned (L : Machine) :
      (perform context scope (.enterFunction f) L).walk.returned = L.walk.returned :=
    returned_perform context scope L ⟨Op.noConfusion, Op.noConfusion, Op.noConfusion⟩
  refine ⟨fun s' g hg => ?_, fun s' hs' => ?_⟩
  · simp only [perform, setWalk, hMN.placeOf, hMN.annotation]
    rw [Walk.function?_enterFunction, Walk.function?_enterFunction, hinner, hinfo,
      hwalk.scopes.layout.size]
    rcases List.mem_cons.1 hg with heq | hg
    · obtain ⟨-, heq⟩ := Action.mk.inj heq
      obtain rfl := Op.enterFunction.inj heq
      have hsize : t.resolve g.site < (M.walk.enterFunction scope g place M.annotation).2.scopes.size :=
        Nat.lt_of_lt_of_eq hlt hlayout.size.symm
      rw [if_pos ⟨hresolve, hsize⟩, if_pos ⟨hresolve, hsize⟩]
    · split
      · rfl
      · exact h.functions s' g hg
  · rw [hreturned, hreturned]
    exact h.returned_cons Op.noConfusion hs'

/-- Beginning a body in one scope: nothing has been returned there. -/
theorem Remembers.beginBody (h : Remembers t done M N) (s : Site) :
    Remembers t (⟨s, .beginBody⟩ :: done)
      (perform context (t.resolve s) .beginBody M) (perform context (t.resolve s) .beginBody N) := by
  refine ⟨fun s' f hf => ?_, fun s' hs' => ?_⟩
  · exact h.functions_cons Op.noConfusion hf
  · simp only [perform, setWalk, Walk.beginBody, Table.get?_erase]
    rcases List.mem_cons.1 hs' with heq | hs'
    · rw [(Action.mk.inj heq).1, if_pos rfl, if_pos rfl]
    · split
      · rfl
      · exact h.returned s' hs'

/-- Returning the same type from the same function. -/
theorem Remembers.noteReturn (h : Remembers t done M N) (hMN : M.Agrees N) (s : Site)
    (scope : Nat) :
    Remembers t (⟨s, .noteReturn⟩ :: done)
      (perform context scope .noteReturn M) (perform context scope .noteReturn N) := by
  refine ⟨fun s' f hf => ?_, fun s' hs' => ?_⟩
  · simp only [perform, setWalk, Walk.scopes_noteReturn]
    exact h.functions_cons Op.noConfusion hf
  · have hold := h.returned_cons Op.noConfusion hs'
    simp only [perform, setWalk, Walk.noteReturn, hMN.walk.scopes.enclosingFunction?, hMN.value]
    split
    · simp only [Table.get?_insert, hold]
    · exact hold

/-- Ending a body of which both know the same. -/
theorem Remembers.endBody (h : Remembers t done M N) (s : Site) {scope : Nat}
    (hfunction : N.walk.scopes.function? scope = M.walk.scopes.function? scope) :
    Remembers t (⟨s, .endBody⟩ :: done)
      (perform context scope .endBody M) (perform context scope .endBody N) := by
  refine ⟨fun s' f hf => ?_, fun s' hs' => ?_⟩
  · simp only [perform, setWalk, Walk.scopes_endBody]
    exact h.functions_cons Op.noConfusion hf
  -- What the body returned is taken away in both walks or in neither.
  · have hold := h.returned_cons Op.noConfusion hs'
    have heq : (N.walk.scopes.frame? scope).bind Frame.function =
        (M.walk.scopes.frame? scope).bind Frame.function := hfunction
    simp only [perform, setWalk, Walk.endBody, heq]
    split
    · split
      · exact hold
      · simp only [Table.get?_erase, hold]
    · exact hold

/-- The same action keeps what two machines remember, if it is ordered behind those done. -/
theorem remembers_step (h : Remembers t done M N) (hMN : M.Agrees N)
    (ht : t.SameLayout M.walk.scopes) (hlt : ∀ s, t.resolve s < t.size) {a : Action}
    (hopen : ∀ node, a.op.opens = some node → (t.byNode.get? node).isSome)
    (hend : a.op = .endBody → N.walk.scopes.function? (t.resolve a.site) =
      M.walk.scopes.function? (t.resolve a.site)) :
    Remembers t (a :: done) (step context M a) (step context N a) := by
  -- The site has one scope in both walks, that of `t`.
  have hM : M.walk.scopes.resolve a.site = t.resolve a.site := ht.resolve a.site
  have hN : N.walk.scopes.resolve a.site = t.resolve a.site :=
    (hMN.walk.scopes.layout.resolve a.site).trans hM
  rw [step, step, hM, hN]
  obtain ⟨s, op⟩ := a
  cases op with
  | enterFunction f => exact h.enterFunction context hMN ht (hlt _) (hopen _ rfl) s _
  | beginBody => exact h.beginBody context s
  | noteReturn => exact h.noteReturn context hMN s _
  | endBody => exact h.endBody context s (hend rfl)
  | _ =>
    exact h.other context s _
      ⟨fun _ => Op.noConfusion, Op.noConfusion, Op.noConfusion, Op.noConfusion⟩

end Remembers

section

variable {t : ScopeTree} (hlt : ∀ s, t.resolve s < t.size)

include hlt

/-- The same action keeps two machines in agreement, if the node that it opens is open, and if it is
ordered behind those done. -/
theorem agrees_step {done : List Action} {M N : Machine} (h : M.Agrees N)
    (ht : t.SameLayout M.walk.scopes) (hdone : Remembers t done M N) {a : Action}
    (hordered : a.IsOrdered done)
    (hopen : ∀ node, a.op.opens = some node → (t.byNode.get? node).isSome) :
    (step context M a).Agrees (step context N a) ∧
      t.SameLayout (step context M a).walk.scopes ∧
      Remembers t (a :: done) (step context M a) (step context N a) := by
  have hM : M.walk.scopes.resolve a.site = t.resolve a.site := ht.resolve a.site
  have hN : N.walk.scopes.resolve a.site = t.resolve a.site :=
    (h.walk.scopes.layout.resolve a.site).trans hM
  have hopenM : ∀ node, a.op.opens = some node → (M.walk.scopes.byNode.get? node).isSome := by
    rw [ht.byNode]
    exact hopen
  -- A body that ends was begun, and its function was met, so both are remembered.
  have hend (ha : a.op = .endBody) :
      N.walk.scopes.function? (t.resolve a.site) = M.walk.scopes.function? (t.resolve a.site) ∧
        N.walk.returned.get? (t.resolve a.site) = M.walk.returned.get? (t.resolve a.site) := by
    obtain ⟨hbegun, s, f, hf, hsite⟩ := hordered ha
    rw [← hsite] at hbegun ⊢
    exact ⟨hdone.functions s f hf, hdone.returned _ hbegun⟩
  refine ⟨?_, ht.trans (sameLayout_perform context _ hopenM),
    remembers_step context hdone h ht hlt hopen fun ha => (hend ha).1⟩
  rw [step, step, hM, hN]
  exact agrees_perform context _ h hopenM hend

/-- The same run keeps two machines in agreement, if all nodes that it opens are open. -/
theorem agrees_run {P done : List Action} {M N : Machine} (h : M.Agrees N)
    (ht : t.SameLayout M.walk.scopes) (hdone : Remembers t done M N) (hordered : Ordered done P)
    (hopen : ∀ a ∈ P, ∀ node, a.op.opens = some node → (t.byNode.get? node).isSome) :
    (run context P M).Agrees (run context P N) := by
  induction P generalizing done M N with
  | nil => exact h
  | cons a rest ih =>
    obtain ⟨hstep, hlayout, hremembers⟩ :=
      agrees_step context hlt h ht hdone hordered.1 (hopen a List.mem_cons_self)
    exact ih hstep hlayout hremembers hordered.2 fun a' ha' => hopen a' (List.mem_cons_of_mem a ha')

end

/-- Before anything is done there is nothing to remember. -/
theorem Remembers.nil (t : ScopeTree) (M N : Machine) : Remembers t [] M N := ⟨nofun, nofun⟩

/-- Machines that begin with walks that agree. -/
theorem Agrees.ofWalk {w w' : Walk} (h : w.Agrees w') : (Machine.ofWalk w).Agrees (.ofWalk w') :=
  ⟨h.congr rfl rfl rfl rfl rfl rfl, rfl, rfl, rfl⟩

end NameAtlas.Python.Machine

namespace NameAtlas.Python.Walk

variable (context : ImportContext) (m : Module)

/-- Walks behind walks that agree agree. -/
theorem agrees_walks_succ {k l : Nat} (hk : 1 ≤ k)
    (h : (walks context m k).Agrees (walks context m l)) :
    (walks context m (k + 1)).Agrees (walks context m (l + 1)) := by
  have hrun := Machine.agrees_run context (wellFormed_walks context m k).scopes.resolve_lt
    (Machine.Agrees.ofWalk h) (.refl _) (.nil _ _ _) m.ordered_program
    fun a ha node hnode => isSome_byNode_walks context m hk ha hnode
  rw [run_program, run_program] at hrun
  exact hrun.walk

/-- If a walk behind the first one has left what is read in a walk as it was, then all further walks
do so too. -/
theorem agrees_walks {k l : Nat} (hk : 1 ≤ k) (hl : k ≤ l)
    (h : (walks context m k).Agrees (walks context m (k + 1))) :
    (walks context m l).Agrees (walks context m (l + 1)) := by
  induction hl with
  | refl => exact h
  | step hl ih => exact agrees_walks_succ context m (Nat.le_trans hk hl) ih

end NameAtlas.Python.Walk
