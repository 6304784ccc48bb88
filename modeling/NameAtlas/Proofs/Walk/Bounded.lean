import Mathlib.Algebra.Order.BigOperators.Group.List
import Mathlib.Algebra.Order.Group.Nat
import NameAtlas.Proofs.Walk.Limits

/-!
# Names in walks do not grow for ever

All that the walks over a module hold stays within limits that are the same for every walk
(`Walk.within_limits`). Owners of scopes are opened in the first walk and no more behind it, and what
is imported gets longer only on the stack of values, once with each operation at most, and values do
not live longer than the walk. The invariant therefore counts the operations done so far
(`Machine.Within`): a value may be as much longer than a binding as there were operations.
-/

namespace NameAtlas.Python

variable {ℓ : Limits} {n : Nat}

/-! ### Machines -/

namespace Machine

namespace Within

variable {M : Machine}

/-- What is within the limits behind some operations is so behind more. -/
theorem mono (h : M.Within ℓ n) {n' : Nat} (hn : n ≤ n') : M.Within ℓ n' :=
  { h with
    values := fun v hv => (h.values v hv).mono hn
    definitions := fun d hd => (h.definitions d hd).mono hn }

/-- The value on top is within the limits. -/
theorem value (h : M.Within ℓ n) : M.value.Within ℓ n := by
  rw [Machine.value]
  cases hvalues : M.values with
  | nil => exact Evaluated.within_ofType trivial
  | cons v rest => exact h.values v (by rw [hvalues]; exact List.mem_cons_self)

/-- The annotation on top is within the limits. -/
theorem annotation (h : M.Within ℓ n) {type : BindingType} (ht : M.annotation = some type) :
    TypeWithin ℓ type := by
  rw [Machine.annotation] at ht
  cases hhints : M.hints with
  | nil =>
    rw [hhints] at ht
    cases ht
  | cons hint rest =>
    rw [hhints] at ht
    exact h.hints type (by rw [hhints, ← ht]; exact List.mem_cons_self)

/-- The definition under way is within the limits. -/
theorem definition (h : M.Within ℓ n) : M.definition.Within ℓ n := by
  rw [Machine.definition]
  cases hdefinitions : M.definitions with
  | nil => exact ⟨Limits.allows_empty, Nat.zero_le n, nofun, nofun⟩
  | cons d rest => exact h.definitions d (by rw [hdefinitions]; exact List.mem_cons_self)

/-- The symbol for a name is one segment longer than an owner at most. -/
theorem placeOf (h : M.Within ℓ n) (scope node : Nat) {word : Word} (hword : word.text ∈ ℓ.words) :
    ℓ.Allows (ℓ.depth + 1) (M.placeOf scope node word).2 := by
  have hnew := h.walk.bindingPlace scope hword
  rw [Machine.placeOf]
  split
  · rename_i d rest hdefinitions
    split
    · exact (h.definitions d (by rw [hdefinitions]; exact List.mem_cons_self)).place
    · exact hnew
  · exact hnew

/-- A machine is within the limits behind a walk that is. -/
theorem setWalk (h : M.Within ℓ n) {w : Walk} (hw : w.Within ℓ) : (M.setWalk w).Within ℓ n :=
  { h with walk := hw }

/-- A machine stays within the limits behind a value that is. -/
theorem push (h : M.Within ℓ n) {v : Evaluated} (hv : v.Within ℓ n) : (M.push v).Within ℓ n :=
  { h with values := List.forall_mem_cons.2 ⟨hv, h.values⟩ }

/-- A machine stays within the limits if it drops a value. -/
theorem pop (h : M.Within ℓ n) : M.pop.Within ℓ n :=
  { h with values := fun v hv => h.values v (List.mem_of_mem_tail hv) }

/-- A machine stays within the limits with a value on top that is. -/
theorem replace (h : M.Within ℓ n) {v : Evaluated} (hv : v.Within ℓ n) :
    (M.replace v).Within ℓ n := h.pop.push hv

/-- A machine stays within the limits behind a hint that is. -/
theorem pushHint (h : M.Within ℓ n) {hint : Option BindingType}
    (hhint : ∀ type, hint = some type → TypeWithin ℓ type) : (M.pushHint hint).Within ℓ n :=
  { h with
    hints := fun type ht => by
      rcases List.mem_cons.1 ht with ht | ht
      · exact hhint type ht.symm
      · exact h.hints type ht }

/-- A machine stays within the limits if it drops a hint. -/
theorem popHint (h : M.Within ℓ n) : M.popHint.Within ℓ n :=
  { h with hints := fun type ht => h.hints type (List.mem_of_mem_tail ht) }

/-- A machine stays within the limits behind a definition that is. -/
theorem begin (h : M.Within ℓ n) {d : Definition} (hd : d.Within ℓ n) : (M.begin d).Within ℓ n :=
  { h with definitions := List.forall_mem_cons.2 ⟨hd, h.definitions⟩ }

/-- A machine stays within the limits if it leaves a definition. -/
theorem leave (h : M.Within ℓ n) : M.leave.Within ℓ n :=
  { h with definitions := fun d hd => h.definitions d (List.mem_of_mem_tail hd) }

/-- A machine stays within the limits if its definitions do. -/
theorem redefine (h : M.Within ℓ n) {g : Definition → Definition}
    (hg : ∀ d ∈ M.definitions, (g d).Within ℓ n) : (M.redefine g).Within ℓ n := by
  refine { h with definitions := fun d hd => ?_ }
  rcases exists_of_mem_redefine hd with hd | ⟨d', hd', rfl⟩
  · exact h.definitions d hd
  · exact hg d' hd'

end Within

variable {M : Machine} {context : ImportContext}

/-- A name that is read has a value within the limits. -/
theorem within_readName (h : M.Within ℓ n) (scope : Nat) {word : Word}
    (hword : word.text ∈ ℓ.words) : (M.walk.readName scope word).1.Within ℓ n := by
  refine ⟨?_, fun t ht => (h.walk.scopes.lookup hword ht).mono (Nat.le_add_right _ _)⟩
  rw [Walk.readName]
  split
  · exact h.walk.symbols.typeOf _
  · trivial

/-- A member may be a segment longer than the value, and there is an operation more. -/
theorem within_readMember (h : M.Within ℓ n) (scope : Nat) {word : Word}
    (hword : word.text ∈ ℓ.words) :
    (M.walk.readMember scope M.value word).1.Within ℓ (n + 1) := by
  have hmember {member : Member} (hm : memberOf? M.walk.symbols M.value word.text = some member) :=
    h.walk.memberOf? h.value hword hm
  rw [Walk.readMember]
  split
  · rename_i f hm
    exact ⟨h.walk.symbols.typeOf f, fun t ht => Option.some.inj ht ▸ hmember hm⟩
  · rename_i f hm
    exact ⟨trivial, fun t ht => Option.some.inj ht ▸ hmember hm⟩
  · exact Evaluated.within_ofType trivial

/-- What is combined from values is within the limits. -/
theorem within_combine (h : M.Within ℓ n) (scope : Nat) {outcome : Outcome}
    (hop : (Op.words context (.combine outcome)).Sublist ℓ.words) :
    (perform context scope (.combine outcome) M).Within ℓ n := by
  refine h.replace (Evaluated.within_ofType ?_)
  cases outcome with
  | unknown => trivial
  | fixed type => exact typeWithin_of_sublist hop
  | ofFirst => exact h.value.type

/-- Entering a function stays within the limits if no owner gets too long. -/
theorem within_enterFunction (h : M.Within ℓ n) (scope : Nat) {f : FunctionBody}
    (hword : f.header.word.text ∈ ℓ.words)
    (hcovered : ℓ.Covers (perform context scope (.enterFunction f) M).walk) :
    (perform context scope (.enterFunction f) M).Within ℓ n := by
  let entered := M.walk.enterFunction scope f (M.placeOf scope f.header.node f.header.word)
    M.annotation
  have hwalk : entered.2.Within ℓ := h.walk.enterFunction scope f hword
    (h.placeOf scope f.header.node hword) (fun t ht => h.annotation ht) hcovered
  -- The receiver is the class of a method, which the walk knows as the owner of a scope.
  let receiver := if f.header.isStatic then none else entered.2.methodOwner? scope
  have hreceiver (c : Fqn) (hc : receiver = some c) : ℓ.Allows ℓ.depth c := by
    dsimp only [receiver] at hc
    split at hc
    · cases hc
    · exact hwalk.methodOwner? hc
  exact Within.setWalk (h.popHint.redefine (g := fun d => { d with inner := entered.1, receiver })
    fun d hd => { h.definitions d hd with receiver := hreceiver }) hwalk

/-- Declaring a parameter stays within the limits. -/
theorem within_parameter (h : M.Within ℓ n) (scope : Nat) {word : Word}
    (hword : word.text ∈ ℓ.words) : (perform context scope (.parameter word) M).Within ℓ n := by
  refine Within.setWalk (h.popHint.redefine (g := fun d => { d with receiver := none })
    fun d hd => { h.definitions d hd with receiver := nofun }) (h.walk.declareParameter _ hword ?_)
  split
  · rename_i c hc
    refine (h.definition.receiver c hc).mono ?_
    rw [Limits.height, Limits.reach]
    omega
  · exact typeWithin_getD (fun t ht => h.annotation ht) trivial

/-- A class gets at most one base more, and there is an operation more. -/
theorem within_base (h : M.Within ℓ n) (hn : n ≤ ℓ.steps) (scope : Nat) :
    (perform context scope .base M).Within ℓ (n + 1) := by
  refine Within.redefine (h.mono (Nat.le_succ n)).pop fun d hd => ?_
  have hd := h.definitions d hd
  refine { hd with length_bases := ?_, bases := fun b hb => ?_ }
  -- One base is added at most, so there are no more of them than operations.
  · have hlength := hd.length_bases
    rw [List.length_append]
    cases M.value.target with
    | none => exact Nat.le_succ_of_le hlength
    | some t => exact Nat.succ_le_succ hlength
  · rcases List.mem_append.1 hb with hb | hb
    · exact hd.bases b hb
    · obtain ⟨t, ht, rfl⟩ := Option.map_eq_some_iff.1 (Option.mem_toList.1 hb)
      exact typeWithin_resolved (h.value.target t ht) hn

/-- Every operation of the program keeps a machine within the limits. -/
theorem within_perform {scope : Nat} {op : Op} (hop : (op.words context).Sublist ℓ.words)
    (h : M.Within ℓ n) (hn : n < ℓ.steps) (hcovered : ℓ.Covers (perform context scope op M).walk) :
    (perform context scope op M).Within ℓ (n + 1) := by
  have hnext : M.Within ℓ (n + 1) := h.mono (Nat.le_succ n)
  have hle : n ≤ ℓ.steps := Nat.le_of_lt hn
  -- `n` counts the operations done. One more is the room in which an operation may add a base to the
  -- class that is under way; what else it writes is made of its words and of what is there.
  cases op with
  | report code message location => exact hnext.setWalk (h.walk.congr rfl rfl rfl rfl)
  | constant type => exact hnext.push (Evaluated.within_ofType (typeWithin_of_sublist hop))
  | readName word =>
    exact (hnext.push (within_readName hnext scope (hop.subset List.mem_cons_self))).setWalk
      (h.walk.congr rfl rfl rfl rfl)
  | readMember word =>
    exact (hnext.replace (within_readMember h scope (hop.subset List.mem_cons_self))).setWalk
      (h.walk.congr rfl rfl rfl rfl)
  | call written =>
    exact hnext.replace (Evaluated.within_ofType
      (h.walk.typeOfCall hle scope h.value (hop.subset List.mem_cons_self)))
  | combine outcome => exact within_combine hnext scope hop
  | instantiate =>
    exact hnext.replace (Evaluated.within_ofType (Walk.Within.instanceType M.walk hle h.value))
  | discard => exact hnext.pop
  | hint form =>
    exact hnext.pushHint fun type ht => typeWithin_known? (h.walk.formType scope hop) ht
  | noHint => exact hnext.pushHint nofun
  | discardHint => exact hnext.popHint
  | annotate =>
    refine (hnext.replace (Evaluated.within_ofType ?_)).popHint
    exact typeWithin_getD (fun t ht => h.annotation ht) h.value.type
  | bindName word =>
    exact hnext.setWalk (h.walk.bindName scope (hop.subset List.mem_cons_self) h.value.type)
  | assignMember word =>
    refine hnext.pop.setWalk (h.walk.assignMember scope _ (hop.subset List.mem_cons_self) ?_)
    exact fun t ht => Option.some.inj ht ▸ h.pop.value.type
  | keepMember word =>
    exact hnext.pop.setWalk (h.walk.assignMember scope _ (hop.subset List.mem_cons_self) nofun)
  | place node word =>
    exact hnext.begin ⟨h.walk.bindingPlace scope (hop.subset List.mem_cons_self), Nat.zero_le _,
      nofun, nofun⟩
  | enterFunction f =>
    exact within_enterFunction hnext scope (hop.subset List.mem_cons_self) hcovered
  | parameter word => exact within_parameter hnext scope (hop.subset List.mem_cons_self)
  | leaveFunction => exact hnext.leave
  | enterClass c =>
    exact hnext.setWalk (h.walk.enterClass scope c
      (h.placeOf scope c.node (hop.subset List.mem_cons_self)) hcovered)
  | base => exact within_base h hle scope
  | setBases =>
    have hd := h.definition
    exact hnext.setWalk { h.walk with
      symbols := h.walk.symbols.setBases hd.place (Nat.le_trans hd.length_bases hle) hd.bases }
  | leaveClass word =>
    refine hnext.leave.setWalk (h.walk.bind _ (hop.subset List.mem_cons_self) ?_)
    refine h.definition.place.mono ?_
    rw [Limits.reach]
    omega
  | bindImport b =>
    obtain ⟨hname, htarget⟩ : b.name ∈ ℓ.words ∧
        (b.target context.module context.isPackage).segments.Sublist ℓ.words :=
      ⟨hop.subset List.mem_cons_self, (List.sublist_cons_self _ _).trans hop⟩
    refine hnext.setWalk (h.walk.bind _ hname ((Limits.allows_of_sublist htarget).mono ?_))
    rw [Limits.reach]
    omega
  | declareGlobal name =>
    exact hnext.setWalk { h.walk with
      scopes := h.walk.scopes.declareGlobal scope (hop.subset List.mem_cons_self) }
  | declareNonlocal name =>
    exact hnext.setWalk { h.walk with
      scopes := h.walk.scopes.declareNonlocal scope (hop.subset List.mem_cons_self) }
  | noteReturn => exact hnext.pop.setWalk (h.walk.noteReturn scope h.value.type)
  | beginBody =>
    exact hnext.setWalk { h.walk with returned := fun i t ht => h.walk.returned_erase ht }
  | endBody => exact hnext.setWalk (h.walk.endBody scope)

/-- A run of operations of the program keeps a machine within the limits. -/
theorem within_run {P : List Action} (hP : ∀ a ∈ P, (a.op.words context).Sublist ℓ.words)
    (hn : n + P.length ≤ ℓ.steps) (h : M.Within ℓ n) (hcovered : ℓ.Covers (run context P M).walk) :
    (run context P M).Within ℓ (n + P.length) := by
  induction P generalizing n M with
  | nil => exact h
  | cons a rest ih =>
    rw [List.length_cons] at hn ⊢
    have hstep : ℓ.Covers (step context M a).walk := hcovered.of_grows (grows_run context rest _)
    have hfirst := within_perform (hP a List.mem_cons_self) h (by omega) hstep
    have hrest := ih (fun a' ha' => hP a' (List.mem_cons_of_mem a ha')) (by omega) hfirst hcovered
    rw [show n + (rest.length + 1) = n + 1 + rest.length by omega]
    exact hrest

end Machine

/-! ### Walks over a module -/

/-- The walk that a module starts with is within the limits. -/
theorem Walk.Within.start {m : Module} {module : Fqn} (hmodule : ∀ s ∈ module.segments, s ∈ ℓ.words)
    (hcovered : ℓ.Covers (start m module)) : (Walk.start m module).Within ℓ := by
  have howner : ℓ.Allows ℓ.depth module :=
    ⟨hcovered ScopeTree.moduleScope ⟨.module, module, none, m.location.span⟩ rfl, hmodule⟩
  have htype : TypeWithin ℓ (.resolved module) := howner.mono (by
    rw [Limits.height, Limits.reach]
    omega)
  have hfirst : (⟨.ofModule module m.location.span, .empty, .empty, [], .empty, #[], #[]⟩ :
      Walk).Within ℓ := by
    -- There is one scope and nothing is bound, so only the owner of the scope is left.
    refine ⟨⟨fun i s hs => ?_, fun i name t ht => ?_, fun i name ht => ?_, fun i name ht => ?_,
      fun i c hc => ?_⟩, ⟨fun f d hd => ?_, fun c hc => absurd rfl hc, fun c => Nat.zero_le _,
      fun c b hb => ?_⟩, fun c i hc => ?_, fun i type htype => ?_⟩
    · rw [ScopeTree.scope?, ScopeTree.frame?_ofModule] at hs
      split at hs
      · obtain rfl := Option.some.inj hs
        exact howner
      · cases hs
    · rw [ScopeTree.binding?, ScopeTree.frame?_ofModule] at ht
      split at ht <;> cases ht
    · rw [ScopeTree.declaresGlobal, ScopeTree.frame?_ofModule] at ht
      split at ht <;> cases ht
    · rw [ScopeTree.declaresNonlocal, ScopeTree.frame?_ofModule] at ht
      split at ht <;> cases ht
    · rw [ScopeTree.methodClass?, ScopeTree.function?_ofModule] at hc
      cases hc
    · cases hd
    · cases hb
    · cases hc
    · cases htype
  exact hfirst.declare (howner.mono (by omega)) htype

/-- Every walk over a module is within limits that cover it. -/
theorem Walk.within_walks {context : ImportContext} {m : Module}
    (hm : ∀ a ∈ m.program, (a.op.words context).Sublist ℓ.words)
    (hmodule : ∀ s ∈ context.module.segments, s ∈ ℓ.words) (hsteps : m.program.length ≤ ℓ.steps)
    (k : Nat) (hcovered : ℓ.Covers (walks context m k)) : (walks context m k).Within ℓ := by
  induction k with
  | zero => exact .start hmodule hcovered
  | succ k ih =>
    have hbegin := ih (hcovered.of_grows (grows_walks_succ context m k))
    have hrun := Machine.within_run (M := .ofWalk (walks context m k)) (n := 0) hm
      (by omega) ⟨hbegin.congr rfl rfl rfl rfl, nofun, nofun, nofun⟩
    rw [run_program] at hrun
    exact (hrun hcovered).walk

/-! ### Limits for all walks -/

/-- The limits of a module: the texts of its program, the owners of the scopes that the first walk
has opened, and the length of the program. -/
def Module.limits (m : Module) (context : ImportContext) : Limits where
  words := Fqn.builtinsModule :: "None" ::
    (context.module.segments ++ m.program.flatMap fun a => a.op.words context)
  depth := ((Walk.walks context m 1).scopes.scopes.map fun s => s.owner.length).sum
  steps := m.program.length
  builtins_mem := List.mem_cons_self
  none_mem := List.mem_cons_of_mem _ List.mem_cons_self

/-- The first walk opens all scopes, so the limits cover every walk. -/
theorem Module.limits_covers (m : Module) (context : ImportContext) (k : Nat) :
    (m.limits context).Covers (Walk.walks context m k) := by
  intro i s hs
  have hfirst : (Walk.walks context m 1).scopes.scope? i = some s := by
    rcases Nat.eq_zero_or_pos k with rfl | hk
    · exact (Walk.grows_walks_succ context m 0).scopes.scope? i s hs
    · rw [← (Walk.sameLayout_walks context m (Nat.le_refl 1) hk).scope?]
      exact hs
  have hmem : s ∈ (Walk.walks context m 1).scopes.scopes := by
    rw [← ScopeTree.getElem?_scopes] at hfirst
    exact List.mem_of_getElem? hfirst
  exact List.le_sum_of_mem (List.mem_map.2 ⟨s, hmem, rfl⟩)

/-- All walks over a module stay within its limits. -/
theorem Walk.within_limits (context : ImportContext) (m : Module) (k : Nat) :
    (walks context m k).Within (m.limits context) := by
  refine within_walks (fun a ha => ?_) (fun s hs => ?_) (Nat.le_refl _) k
    (m.limits_covers context k)
  · have hwords : (a.op.words context).Sublist (m.program.flatMap fun a => a.op.words context) :=
      List.sublist_flatten_of_mem (List.mem_map.2 ⟨a, ha, rfl⟩)
    refine hwords.trans ((List.sublist_append_right context.module.segments _).trans ?_)
    exact (List.sublist_cons_self _ _).trans (List.sublist_cons_self _ _)
  · exact List.mem_cons_of_mem _ (List.mem_cons_of_mem _ (List.mem_append_left _ hs))

end NameAtlas.Python
