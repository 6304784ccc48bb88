import NameAtlas.Proofs.Walk.Finite
import NameAtlas.Proofs.Walk.Outline

/-!
# Walks run in a cycle

From some walk on, walks that are one period apart agree on all that is read in a walk
(`Walk.exists_period`). Walks behind walks that agree log the same references
(`Walk.references_walks`), and because a walk never moves a symbol or a class
(`SymbolTable.Continues`), they have the same declarations, and list the same bases, in the same
order.
-/

namespace NameAtlas

/-- The entries of a table, by its keys. -/
theorem Table.entries_eq_filterMap {α β : Type} [DecidableEq α] (t : Table α β) :
    t.entries = t.keys.filterMap fun k => (t.get? k).map (k, ·) := by
  have hentry (e : α × β) (he : e ∈ t.entries) : (t.get? e.1).map (e.1, ·) = some e := by
    rw [(t.get?_eq_some_iff e.1 e.2).2 he, Option.map_some]
  calc t.entries = t.entries.filterMap some := List.filterMap_some.symm
    _ = t.entries.filterMap ((fun k => (t.get? k).map (k, ·)) ∘ Prod.fst) :=
        List.filterMap_congr fun e he => (hentry e he).symm
    _ = t.keys.filterMap fun k => (t.get? k).map (k, ·) := List.filterMap_map.symm

/-- A table is known from the list of its keys and its values. -/
theorem Table.entries_congr {α β : Type} [DecidableEq α] {t u : Table α β} (hkeys : u.keys = t.keys)
    (hget : ∀ k, u.get? k = t.get? k) : u.entries = t.entries := by
  rw [entries_eq_filterMap, entries_eq_filterMap, hkeys]
  exact List.filterMap_congr fun k _ => by rw [hget]

namespace Python

/-! ### What a symbol table keeps -/

/-- The table `u` has the symbols of `t` at their old places, and the classes of `t` in their old
order in front of others. -/
structure SymbolTable.Continues (t u : SymbolTable) : Prop where
  /-- Symbols do not move. -/
  places : ∀ f d, t.get? f = some d →
    ∃ d', u.get? f = some d' ∧ d'.fqn = d.fqn ∧ d'.scope = d.scope ∧ d'.location = d.location
  /-- Classes with bases do not move. -/
  bases : t.bases.keys <+: u.bases.keys

namespace SymbolTable.Continues

/-- A table continues itself. -/
theorem refl (t : SymbolTable) : t.Continues t :=
  ⟨fun _ d hd => ⟨d, hd, rfl, rfl, rfl⟩, List.prefix_refl _⟩

/-- Tables that continue one another do so from the first to the last. -/
theorem trans {t u v : SymbolTable} (h : t.Continues u) (h' : u.Continues v) : t.Continues v := by
  refine ⟨fun f d hd => ?_, h.bases.trans h'.bases⟩
  obtain ⟨d', hd', hfqn, hscope, hlocation⟩ := h.places f d hd
  obtain ⟨d'', hd'', hfqn', hscope', hlocation'⟩ := h'.places f d' hd'
  exact ⟨d'', hd'', hfqn'.trans hfqn, hscope'.trans hscope, hlocation'.trans hlocation⟩

/-- Declaring a symbol continues a table. -/
theorem declare (t : SymbolTable) (d : Declaration) : t.Continues (t.declare d) := by
  refine ⟨fun f old hold => ?_, List.prefix_refl _⟩
  rw [get?_declare]
  split
  · rename_i heq
    rw [← heq, hold]
    exact ⟨redeclare old d, rfl, rfl, rfl, rfl⟩
  · exact ⟨old, hold, rfl, rfl, rfl⟩

/-- Setting a type continues a table. -/
theorem setType (t : SymbolTable) (fqn : Fqn) (type : BindingType) :
    t.Continues (t.setType fqn type) := by
  refine ⟨fun f d hd => ?_, List.prefix_refl _⟩
  rw [get?_setType]
  split
  · rename_i heq
    rw [← heq, hd]
    exact ⟨_, rfl, rfl, rfl, rfl⟩
  · exact ⟨d, hd, rfl, rfl, rfl⟩

/-- Setting bases continues a table. -/
theorem setBases (t : SymbolTable) (c : Fqn) (bases : List Fqn) :
    t.Continues (t.setBases c bases) := by
  refine ⟨fun f d hd => ⟨d, hd, rfl, rfl, rfl⟩, ?_⟩
  rw [SymbolTable.setBases, Table.keys_insert]
  split
  · exact List.prefix_refl _
  · exact List.prefix_append _ _

/-- A table that continues one with the same types and kinds has the same declarations. -/
theorem toDeclarations_eq {t u : SymbolTable} (h : t.Continues u) (hagree : t.Agrees u) :
    u.toDeclarations = t.toDeclarations := by
  -- A symbol has its old place, and kind and type are agreed upon, so nothing of it is left.
  have hget (f : Fqn) : u.get? f = t.get? f := by
    have hkind := hagree.kinds f
    have htype := hagree.typeOf f
    cases hd : t.get? f with
    | none =>
      rw [kindOf?, kindOf?, hd, Option.map_none, Option.map_eq_none_iff] at hkind
      exact hkind
    | some d =>
      obtain ⟨d', hd', hfqn, hscope, hlocation⟩ := h.places f d hd
      rw [kindOf?, kindOf?, hd, hd'] at hkind
      rw [typeOf, typeOf, hd, hd'] at htype
      rw [hd', Option.some.injEq]
      cases d; cases d'
      simp_all
  have hkeys : u.declarations.keys = t.declarations.keys := by
    rw [keys_eq, keys_eq, hagree.types]
  exact congrArg (List.map Prod.snd) (Table.entries_congr hkeys hget)

/-- A table that continues one with the same bases lists the same bases: what it has more are
classes without bases. -/
theorem toInheritances_eq {t u : SymbolTable} (h : t.Continues u) (hagree : t.Agrees u) :
    u.toInheritances = t.toInheritances := by
  obtain ⟨new, hnew⟩ := h.bases
  have hnodup : (t.bases.keys ++ new).Nodup := hnew ▸ u.bases.nodup_keys
  -- A class that only the later table lists has no bases there, as the earlier one gives it none.
  have hempty (c : Fqn) (hc : c ∈ new) : (u.basesOf c).map (Inheritance.mk c) = [] := by
    have hnot : c ∉ t.bases.keys := fun hmem => (List.nodup_append.1 hnodup).2.2 c hmem c hc rfl
    rw [hagree.bases, basesOf, Hierarchy.basesOf]
    rw [Table.mem_keys_iff, Bool.not_eq_true, Option.isSome_eq_false_iff,
      Option.isNone_iff_eq_none] at hnot
    rw [hnot]
    rfl
  rw [toInheritances_eq_flatMap, toInheritances_eq_flatMap, ← hnew, List.flatMap_append,
    List.flatMap_eq_nil_iff.2 hempty, List.append_nil]
  exact List.flatMap_congr fun c _ => by rw [hagree.bases]

end SymbolTable.Continues

namespace Machine

variable (context : ImportContext)

/-- Performing an operation continues the table of symbols. -/
theorem continues_perform (scope : Nat) (op : Op) (M : Machine) :
    M.walk.symbols.Continues (perform context scope op M).walk.symbols := by
  -- Declarations, types and bases are all that an operation writes.
  cases op with
  | bindName | parameter | enterClass => exact .declare _ _
  | enterFunction f =>
    rw [show (perform context scope (.enterFunction f) M).walk.symbols = _ from
      Walk.symbols_enterFunction _ _ _ _ _]
    exact .declare _ _
  | assignMember | keepMember =>
    simp only [perform, setWalk, Walk.assignMember]
    split
    · exact .declare _ _
    · exact .refl _
  | setBases => exact .setBases _ _ _
  | noteReturn =>
    simp only [perform, setWalk, Walk.symbols_noteReturn]
    exact .refl _
  | endBody =>
    simp only [perform, setWalk, Walk.endBody]
    split
    · split
      · exact .refl _
      · exact .setType _ _ _
    · exact .refl _
  | _ => exact .refl _

/-- A run continues the table of symbols. -/
theorem continues_run (P : List Action) (M : Machine) :
    M.walk.symbols.Continues (run context P M).walk.symbols := by
  induction P generalizing M with
  | nil => exact .refl _
  | cons a rest ih => exact (continues_perform context _ a.op M).trans (ih _)

/-! ### What is logged -/

/-- The same operation logs the same reference in machines that agree. -/
theorem references_perform (scope : Nat) (op : Op) {M N : Machine} (h : M.Agrees N)
    (hlog : N.walk.references = M.walk.references) :
    (perform context scope op N).walk.references = (perform context scope op M).walk.references := by
  -- A reference is made of what the machines agree on; most operations make none.
  cases op with
  | readName word =>
    simp only [perform, setWalk, Walk.readName, Walk.referName, Walk.refer, h.walk.scopes.lookup,
      hlog]
  | readMember word =>
    simp only [perform, setWalk, Walk.readMember, Walk.referMember, Walk.refer, h.value,
      h.walk.symbols.memberOf?, hlog]
  | assignMember | keepMember =>
    simp only [perform, setWalk, Walk.assignMember, h.value, h.walk.ownerOf?,
      h.walk.symbols.memberOf?]
    split <;> simp only [Walk.referMember, Walk.refer, Walk.declare, hlog]
  | enterFunction f =>
    simp only [perform, setWalk, Walk.enterFunction, Walk.references_enqueue]
    exact hlog
  | noteReturn => simpa only [perform, setWalk, Walk.references_noteReturn] using hlog
  | endBody => simpa only [perform, setWalk, Walk.references_endBody] using hlog
  | _ => exact hlog

/-- The same run logs the same references in machines that agree. -/
theorem references_run {t : ScopeTree} (hlt : ∀ s, t.resolve s < t.size) {P done : List Action}
    {M N : Machine} (h : M.Agrees N) (ht : t.SameLayout M.walk.scopes)
    (hdone : Remembers t done M N) (hordered : Ordered done P)
    (hopen : ∀ a ∈ P, ∀ node, a.op.opens = some node → (t.byNode.get? node).isSome)
    (hlog : N.walk.references = M.walk.references) :
    (run context P N).walk.references = (run context P M).walk.references := by
  -- The induction is on the run, with all that keeps the machines in agreement.
  induction P generalizing done M N with
  | nil => exact hlog
  | cons a rest ih =>
    obtain ⟨hstep, hlayout, hremembers⟩ :=
      agrees_step context hlt h ht hdone hordered.1 (hopen a List.mem_cons_self)
    have hscope : N.walk.scopes.resolve a.site = M.walk.scopes.resolve a.site :=
      h.walk.scopes.layout.resolve a.site
    refine ih hstep hlayout hremembers hordered.2
      (fun a' ha' => hopen a' (List.mem_cons_of_mem a ha')) ?_
    rw [step, step, hscope]
    exact references_perform context _ a.op h hlog

end Machine

namespace Walk

variable (context : ImportContext) (m : Module)

/-- Later walks continue the table of symbols. -/
theorem continues_walks {k l : Nat} (h : k ≤ l) :
    (walks context m k).symbols.Continues (walks context m l).symbols := by
  induction h with
  | refl => exact .refl _
  | @step l _ ih =>
    have hrun := Machine.continues_run context m.program (.ofWalk (walks context m l))
    rw [run_program] at hrun
    exact ih.trans hrun

/-- Walks behind walks that agree log the same references. -/
theorem references_walks {k l : Nat} (hk : 1 ≤ k)
    (h : (walks context m k).Agrees (walks context m l)) :
    (walks context m (l + 1)).references = (walks context m (k + 1)).references := by
  have hrun := Machine.references_run context (wellFormed_walks context m k).scopes.resolve_lt
    (Machine.Agrees.ofWalk h) (.refl _) (.nil _ _ _) m.ordered_program
    (fun a ha node hnode => isSome_byNode_walks context m hk ha hnode) rfl
  rw [run_program, run_program] at hrun
  exact hrun

/-- Walks as far behind walks that agree agree. -/
theorem agrees_walks_add {k l : Nat} (hk : 1 ≤ k)
    (h : (walks context m k).Agrees (walks context m l)) (j : Nat) :
    (walks context m (k + j)).Agrees (walks context m (l + j)) := by
  induction j with
  | zero => exact h
  | succ j ih => exact agrees_walks_succ context m (Nat.le_add_right_of_le hk) ih

/-- From some walk on, walks that are one period apart agree. -/
theorem exists_period : ∃ n p, 1 ≤ n ∧ 1 ≤ p ∧
    ∀ k, n ≤ k → (walks context m k).Agrees (walks context m (k + p)) := by
  obtain ⟨n, l, hn, hnl, hagree⟩ := exists_agrees context m
  refine ⟨n, l - n, hn, by omega, fun k hk => ?_⟩
  have hshift := agrees_walks_add context m hn hagree (k - n)
  rw [show n + (k - n) = k by omega, show l + (k - n) = k + (l - n) by omega] at hshift
  exact hshift

end Walk

end Python

end NameAtlas
