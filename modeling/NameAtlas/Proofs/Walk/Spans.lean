import NameAtlas.Proofs.Walk.Openings
import NameAtlas.Proofs.Walk.Outline
import NameAtlas.Proofs.Walk.Sites

/-!
# The spans of scopes and references

In code whose parts lie within one another, what is done at a site lies within the span of the code
that defines the site (`Module.within_program`). A scope is opened with the span of its definition,
so a run keeps each scope within the scope around it and each reference within its scope
(`Outline.Nested`). Both is a matter of the outline of the walk alone.
-/

namespace NameAtlas.Python

/-- True if the code of a site covers a span; that of the module covers `root`. -/
def SpanAt (S : List Opening) (root : Span) : Site → Span → Prop
  | .module, sp => sp = root
  | .body node, sp => ∃ o ∈ S, o.node = node ∧ o.span = sp

/-- The span of the scope that an operation opens. -/
def Op.span? : Op → Option Span
  | .enterFunction f => some f.header.span
  | .enterClass h => some h.span
  | _ => none

/-- True if what an action refers to and what it opens lie within the code of its site. -/
def Action.Within (S : List Opening) (root : Span) (a : Action) : Prop :=
  ∃ sp, SpanAt S root a.site sp ∧ (∀ w, a.op.word? = some w → w.Within sp) ∧
    ∀ inner, a.op.span? = some inner → sp.contains inner

section Within

variable {S : List Opening} {root : Span}

/-- Plain operations of words within the span of their site lie within it. -/
theorem within_of_plain {s : Site} {e : Span} (hs : SpanAt S root s e) {v : List Word}
    {ops : List Op} (h : PlainAll v ops) (hwords : ∀ w ∈ v, w.Within e) :
    ∀ a ∈ s.actions ops, a.Within S root := by
  intro a ha
  obtain ⟨op, hop, rfl⟩ := List.mem_map.1 ha
  obtain ⟨hplain, hword⟩ := h op hop
  refine ⟨e, hs, fun w hw => hwords w (hword w hw), fun inner hinner => ?_⟩
  cases op <;> simp_all [Op.isPlain, Op.span?]

/-- An operation that refers to nothing lies within every span that holds what it opens. -/
theorem within_of_opens {s : Site} {sp : Span} (hs : SpanAt S root s sp) {op : Op}
    (hword : op.word? = none) (hspan : ∀ inner, op.span? = some inner → sp.contains inner) :
    Action.Within S root ⟨s, op⟩ := by
  refine ⟨sp, hs, fun w hw => ?_, hspan⟩
  rw [hword] at hw
  cases hw

/-- An operation that refers to nothing and opens nothing lies within every span. -/
theorem within_of_spanless {s : Site} {sp : Span} (hs : SpanAt S root s sp) {op : Op}
    (hword : op.word? = none) (hspan : op.span? = none) : Action.Within S root ⟨s, op⟩ :=
  within_of_opens hs hword fun inner hinner => by
    rw [hspan] at hinner
    cases hinner

/-- The definition of a function lies within the span of its site. -/
theorem within_defineOps {s : Site} {sp : Span} (hs : SpanAt S root s sp) {f : FunctionBody}
    (hwords : ∀ w ∈ f.header.words, w.Within sp) (hspan : sp.contains f.header.span) :
    ∀ a ∈ s.actions f.defineOps, a.Within S root := by
  -- The annotations and parameters are read at the site of the definition.
  obtain ⟨hreturns, hparameters⟩ := List.forall_mem_append.1 hwords
  have hhints : ∀ a ∈ s.actions (typeParameterOps f.header.typeParameters ++
      hintOps f.header.returns), a.Within S root :=
    within_of_plain hs (.append (plain_typeParameterOps _ _) (plain_hintOps _)) hreturns
  have hparameters : ∀ a ∈ s.actions (f.header.parameters.flatMap Parameter.ops ++
      [.leaveFunction]), a.Within S root :=
    within_of_plain hs (.append (.flatMap fun p _ => p.plain_ops) (.silent rfl rfl)) hparameters
  have henter : (⟨s, .enterFunction f⟩ : Action).Within S root :=
    within_of_opens hs rfl fun inner hinner => Option.some.inj hinner ▸ hspan
  rw [f.actions_defineOps]
  exact List.forall_mem_append.2
    ⟨List.forall_mem_cons.2 ⟨within_of_spanless hs rfl rfl, hhints⟩,
      List.forall_mem_cons.2 ⟨henter, hparameters⟩⟩

/-- The head of a class lies within the span of its site. -/
theorem within_classHead {s : Site} {sp : Span} (hs : SpanAt S root s sp) {h : ClassHeader}
    (hopening : h.opening s ∈ S) (hwords : ∀ w ∈ h.words, w.Within h.span)
    (hspan : sp.contains h.span) : ∀ a ∈ h.code s, a.Within S root := by
  -- What a class is given is read in the scope of the class.
  have harguments : ∀ a ∈ Site.actions (.body h.node)
      (h.arguments.flatMap ClassArgument.ops ++ [.setBases]), a.Within S root :=
    within_of_plain (s := .body h.node) (e := h.span) ⟨_, hopening, rfl, rfl⟩
      (.append (.flatMap fun a _ => a.plain_ops) (.silent rfl rfl)) hwords
  have henter : (⟨s, .enterClass h⟩ : Action).Within S root :=
    within_of_opens hs rfl fun inner hinner => Option.some.inj hinner ▸ hspan
  have hparameters : ∀ a ∈ s.actions (typeParameterOps h.typeParameters), a.Within S root :=
    within_of_plain hs (plain_typeParameterOps h.typeParameters []) nofun
  rw [h.code_eq]
  exact List.forall_mem_append.2
    ⟨List.forall_mem_cons.2 ⟨within_of_spanless hs rfl rfl, hparameters⟩,
      List.forall_mem_cons.2 ⟨henter, harguments⟩⟩

mutual

/-- The code of a statement lies within the spans of its sites. -/
theorem within_code :
    ∀ (st : Stmt) {s : Site} {sp : Span}, SpanAt S root s sp → st.openings s ⊆ S → st.Within sp →
      ∀ a ∈ st.code s, a.Within S root
  | .simple items, _, _, hs, _, h =>
    within_of_plain hs (.flatMap fun item _ => item.plain_ops) h
  | .block body, _, _, hs, hS, h => within_codeOf body hs hS h
  | .caught value between target, _, _, hs, hS, h =>
    List.forall_mem_append.2 ⟨List.forall_mem_append.2
      ⟨within_of_plain hs (plain_caughtOps value target).1 h.1, within_codeOf between hs hS h.2⟩,
      within_of_plain hs (plain_caughtOps value target).2 h.1⟩
  -- The body of a function is no code of the statement, so only its header is looked at.
  | .function header body, _, _, hs, _, h => within_defineOps hs h.1 h.2.1
  | .class header body, _, _, hs, hS, h =>
    List.forall_mem_append.2 ⟨List.forall_mem_append.2
      ⟨within_classHead hs (hS List.mem_cons_self) h.2.1 h.1,
        within_codeOf body ⟨_, hS List.mem_cons_self, rfl, rfl⟩
          (fun o ho => hS (List.mem_cons_of_mem _ ho)) h.2.2⟩,
      within_of_plain hs (v := []) (.silent rfl rfl) nofun⟩
  | .imports wildcard bindings, _, _, hs, _, _ =>
    within_of_plain hs (plain_imports wildcard bindings) nofun
  | .returns (some value), _, _, hs, _, h =>
    within_of_plain hs (.append value.plain_ops (.silent rfl rfl)) h
  | .returns none, _, _, hs, _, _ =>
    within_of_plain hs (v := []) (.append (.silent rfl rfl) (.silent rfl rfl)) nofun
  | .globals names, _, _, hs, _, _ | .nonlocals names, _, _, hs, _, _ => by
    intro a ha
    obtain ⟨op, hop, rfl⟩ := List.mem_map.1 ha
    obtain ⟨name, -, rfl⟩ := List.mem_map.1 hop
    exact within_of_spanless hs rfl rfl
  | .unsupported _ _, _, _, hs, _, _ => within_of_plain hs (v := []) (.silent rfl rfl) nofun

/-- The code of a block lies within the spans of its sites. -/
theorem within_codeOf :
    ∀ (body : List Stmt) {s : Site} {sp : Span}, SpanAt S root s sp → openingsOf s body ⊆ S →
      WithinAll sp body → ∀ a ∈ codeOf s body, a.Within S root
  | [], _, _, _, _, _ => fun _ h => nomatch h
  | st :: rest, _, _, hs, hS, h =>
    List.forall_mem_append.2
      ⟨within_code st hs (fun _ ho => hS (List.mem_append_left _ ho)) h.1,
        within_codeOf rest hs (fun _ ho => hS (List.mem_append_right _ ho)) h.2⟩

end

end Within

mutual

/-- The body of a function in a statement lies within the function, which is defined there. -/
theorem Stmt.within_of_mem_allFunctions {f : FunctionBody} :
    ∀ (st : Stmt) (s : Site) {sp : Span}, f ∈ st.allFunctions → st.Within sp →
      WithinAll f.header.span f.body ∧ ∃ t, f.header.opening t ∈ st.openings s
  -- Functions inside this one are looked for in its body.
  | .function header body, s, _, h, hst => by
    rcases List.mem_cons.1 h with rfl | h
    · exact ⟨hst.2.2, s, List.mem_cons_self⟩
    · obtain ⟨hf, t, ht⟩ := withinAll_of_mem_allFunctionsOf body (.body header.node) h hst.2.2
      exact ⟨hf, t, List.mem_cons_of_mem _ ht⟩
  | .class header body, _, _, h, hst =>
    let ⟨hf, t, ht⟩ := withinAll_of_mem_allFunctionsOf body (.body header.node) h hst.2.2
    ⟨hf, t, List.mem_cons_of_mem _ ht⟩
  | .block body, s, _, h, hst => withinAll_of_mem_allFunctionsOf body s h hst
  | .caught _ body _, s, _, h, hst => withinAll_of_mem_allFunctionsOf body s h hst.2
  | .simple _, _, _, h, _ | .imports _ _, _, _, h, _ | .returns _, _, _, h, _
  | .globals _, _, _, h, _ | .nonlocals _, _, _, h, _ | .unsupported _ _, _, _, h, _ => nomatch h

/-- The body of a function in some statements lies within the function if they lie within their
spans, and the function opens one of their scopes. -/
theorem withinAll_of_mem_allFunctionsOf {f : FunctionBody} :
    ∀ (body : List Stmt) (s : Site) {sp : Span}, f ∈ allFunctionsOf body → WithinAll sp body →
      WithinAll f.header.span f.body ∧ ∃ t, f.header.opening t ∈ openingsOf s body
  | [], _, _, h, _ => nomatch h
  | st :: rest, s, _, h, hb => by
    rcases List.mem_append.1 h with h | h
    · obtain ⟨hf, t, ht⟩ := Stmt.within_of_mem_allFunctions st s h hb.1
      exact ⟨hf, t, List.mem_append_left _ ht⟩
    · obtain ⟨hf, t, ht⟩ := withinAll_of_mem_allFunctionsOf rest s h hb.2
      exact ⟨hf, t, List.mem_append_right _ ht⟩

end

/-- What a walk over a module refers to and opens lies within the code of the site where it
happens. -/
theorem Module.within_program {m : Module} (hm : WithinAll m.location.span m.body) :
    ∀ a ∈ m.program, a.Within m.openings m.location.span := by
  refine List.forall_mem_append.2 ⟨within_codeOf m.body (s := .module) rfl (List.Subset.refl _) hm,
    fun a ha => ?_⟩
  obtain ⟨f, hf, ha⟩ := List.mem_flatMap.1 ha
  -- A function in the module has a site of its own, with the span of its definition.
  have hf := mem_allFunctions_of_reaches (reaches_of_mem_bodies hf)
  obtain ⟨hwithin, t, ht⟩ := withinAll_of_mem_allFunctionsOf m.body .module hf hm
  have hsite : SpanAt m.openings m.location.span f.site f.header.span := ⟨_, ht, rfl, rfl⟩
  have hbody := within_codeOf f.body hsite (openingsOf_of_mem_allFunctionsOf m.body .module hf)
    hwithin
  rcases List.mem_append.1 ha with ha | ha
  · rcases List.mem_append.1 ha with ha | ha
    · obtain rfl := List.mem_singleton.1 ha
      exact within_of_spanless hsite rfl rfl
    · exact hbody a ha
  · obtain rfl := List.mem_singleton.1 ha
    exact within_of_spanless hsite rfl rfl

/-! ### Nested outlines -/

/-- An outline in which scopes and references lie within the scopes around them. -/
structure Outline.Nested (S : List Opening) (root : Span) (o : Outline) : Prop where
  /-- The first scope is that of the module. -/
  first : ∃ s, o.scopes[0]? = some s ∧ s.span = root
  /-- The scope of a node has the span of its definition. -/
  byNode : ∀ node i, o.byNode.get? node = some i →
    ∃ d ∈ S, d.node = node ∧ ∃ s, o.scopes[i]? = some s ∧ s.span = d.span
  /-- Each scope lies within the one around it. -/
  scopes : ∀ s ∈ o.scopes, ∀ p, s.parent = some p →
    ∃ outer, o.scopes[p]? = some outer ∧ outer.span.contains s.span
  /-- Each reference lies within its scope. -/
  references : ∀ r ∈ o.references,
    ∃ s, o.scopes[r.scope]? = some s ∧ s.span.contains r.location.span

namespace Outline.Nested

variable {S : List Opening} {root : Span} {o : Outline}

/-- The outline stays nested behind a reference within its scope. -/
theorem refer (h : o.Nested S root) {r : ReferenceShape}
    (hr : ∃ s, o.scopes[r.scope]? = some s ∧ s.span.contains r.location.span) :
    (o.refer r).Nested S root :=
  { h with
    references := List.forall_mem_append.2 ⟨h.references, List.forall_mem_singleton.2 hr⟩ }

/-- The outline stays nested if a scope is opened within another one. -/
theorem openScope (h : o.Nested S root) {d : Opening} (hd : d ∈ S) (kind : ScopeKind)
    {parent : Nat} (hparent : ∃ s, o.scopes[parent]? = some s ∧ s.span.contains d.span) :
    (o.openScope d.node kind parent d.span).Nested S root := by
  rw [Outline.openScope]
  split
  · exact h
  have hold : ∀ {i s}, o.scopes[i]? = some s →
      (o.scopes ++ [⟨kind, some parent, d.span⟩])[i]? = some s := fun {i s} hs => by
    obtain ⟨hi, -⟩ := List.getElem?_eq_some_iff.1 hs
    rw [List.getElem?_append_left hi]
    exact hs
  -- What was there keeps its position, and the new scope is the last.
  refine ⟨?_, fun node i hi => ?_, ?_, fun r hr => ?_⟩
  · obtain ⟨s, hs, hspan⟩ := h.first
    exact ⟨s, hold hs, hspan⟩
  · rw [Table.get?_insert] at hi
    split at hi
    · rename_i hnode
      obtain rfl := Option.some.inj hi
      exact ⟨d, hd, hnode.symm, ⟨kind, some parent, d.span⟩, by simp, rfl⟩
    · obtain ⟨d', hd', hnode, s, hs, hspan⟩ := h.byNode node i hi
      exact ⟨d', hd', hnode, s, hold hs, hspan⟩
  · refine List.forall_mem_append.2 ⟨fun s hs p hp => ?_, List.forall_mem_singleton.2 fun p hp => ?_⟩
    · obtain ⟨outer, houter, hspan⟩ := h.scopes s hs p hp
      exact ⟨outer, hold houter, hspan⟩
    · obtain rfl := Option.some.inj hp
      obtain ⟨outer, houter, hspan⟩ := hparent
      exact ⟨outer, hold houter, hspan⟩
  · obtain ⟨s, hs, hspan⟩ := h.references r hr
    exact ⟨s, hold hs, hspan⟩

/-- The scope of a site covers the code of the site. -/
theorem spanAt (h : o.Nested S root) (hS : ∀ d ∈ S, ∀ d' ∈ S, d.node = d'.node → d = d')
    {t : ScopeTree} (ht : o.byNode = t.byNode) {site : Site} {sp : Span}
    (hsp : SpanAt S root site sp) {i : Nat} (hi : t.Resolves site i) :
    ∃ s, o.scopes[i]? = some s ∧ s.span = sp := by
  -- The first scope is that of the module; any other is found by its node.
  cases site with
  | module =>
    obtain rfl : i = 0 := hi
    obtain rfl : sp = root := hsp
    exact h.first
  | body node =>
    obtain ⟨d, hd, hnode, hspan⟩ := hsp
    obtain ⟨d', hd', hnode', s, hs, hspan'⟩ := h.byNode node i (by rw [ht]; exact hi)
    obtain rfl := hS d hd d' hd' (hnode.trans hnode'.symm)
    exact ⟨s, hs, hspan'.trans hspan⟩

end Outline.Nested

namespace Machine

variable (context : ImportContext) {S : List Opening} {root : Span}

/-- An action that lies within the code of its site keeps the outline nested. -/
theorem nested_step (hS : ∀ d ∈ S, ∀ d' ∈ S, d.node = d'.node → d = d') {a : Action} {M : Machine}
    (ha : a.Within S root) {declares bodies : Bool} (hfits : a.Fits S declares bodies)
    (hsite : ∃ i, M.walk.scopes.Resolves a.site i) (h : M.walk.outline.Nested S root) :
    (step context M a).walk.outline.Nested S root := by
  obtain ⟨sp, hsp, hword, hspan⟩ := ha
  obtain ⟨i, hi⟩ := hsite
  obtain ⟨s, hs, rfl⟩ := h.spanAt hS rfl hsp hi
  obtain ⟨site, op⟩ := a
  rw [step, outline_perform, hi.resolve_eq]
  -- References need their word within the scope, and scopes their definition.
  cases op with
  | readName word | readMember word | assignMember word | keepMember word =>
    exact h.refer ⟨s, hs, hword word rfl⟩
  | enterFunction f => exact h.openScope hfits _ ⟨s, hs, hspan _ rfl⟩
  | enterClass c => exact h.openScope hfits _ ⟨s, hs, hspan _ rfl⟩
  | _ => exact ⟨h.first, h.byNode, h.scopes, h.references⟩

/-- A run keeps the outline nested if its actions lie within the spans of their sites. -/
theorem nested_run (hS : ∀ d ∈ S, ∀ d' ∈ S, d.node = d'.node → d = d') {declares bodies : Bool}
    {P : List Action} {M : Machine} (hP : ∀ a ∈ P, a.Within S root ∧ a.Fits S declares bodies)
    (hsited : Sited context P M) (h : M.walk.outline.Nested S root) :
    (run context P M).walk.outline.Nested S root := by
  induction P generalizing M with
  | nil => exact h
  | cons a rest ih =>
    obtain ⟨hwithin, hfits⟩ := hP a List.mem_cons_self
    exact ih (fun a' ha' => hP a' (List.mem_cons_of_mem a ha')) hsited.2
      (nested_step context hS hwithin hfits hsited.1 h)

end Machine

/-- If the code of a module lies within its spans, so do the scopes and references of every walk. -/
theorem Walk.nested_walks (context : ImportContext) {m : Module}
    (hnodup : (definitionsOf m.body).Nodup) (hwithin : WithinAll m.location.span m.body) (k : Nat) :
    (walks context m k).outline.Nested m.openings m.location.span := by
  -- The scopes stay from walk to walk, and the references start anew.
  induction k with
  | zero =>
    refine ⟨⟨_, rfl, rfl⟩, fun _ _ hi => (nomatch hi), fun s hs p hp => ?_, nofun⟩
    obtain rfl := List.mem_singleton.1 hs
    cases hp
  | succ k ih =>
    have hclear : (walks context m k).clearLog.outline.Nested m.openings m.location.span :=
      ⟨ih.first, ih.byNode, ih.scopes, fun r hr => nomatch hr⟩
    have hrun := Machine.nested_run context
      (fun d hd d' hd' hnode => Module.opening_eq hnodup hd hd' hnode)
      (fun a ha => ⟨Module.within_program hwithin a ha, m.fits_program a ha⟩)
      (Machine.sited_program context m k) hclear
    rw [run_program] at hrun
    exact hrun

end NameAtlas.Python
