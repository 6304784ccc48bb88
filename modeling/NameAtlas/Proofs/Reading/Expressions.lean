import NameAtlas.Proofs.Reading.Coverage

/-!
# Nothing of an expression is left out

In a tree of the grammar every meaning of a node covers the identifiers of the node (`Covered`):
reading it logs each identifier that is due a reference, or reports that something is not modeled.
This module is about nodes that are evaluated, assigned to or annotations, given that everything
below them is covered (`Ready`). Each proof goes through the kinds of nodes; the children that hold
identifiers are found by their fields, or all children are read.
-/

namespace NameAtlas

namespace Python

open Source

/-- A node whose meanings all cover its identifiers. -/
structure Covered (source : SourceText) (n : Node) : Prop where
  /-- Where it is evaluated. -/
  expr : Covers source (Part.ofNode source n).meaning.expr.ops (n.identifiers .value)
  /-- Where it is assigned to. -/
  target : Covers source (Part.ofNode source n).meaning.target.assignOps (n.identifiers .target)
  /-- Where it is combined with a value and assigned to. -/
  augmented : Covers source (Part.ofNode source n).meaning.augmented.augmentOps (n.identifiers .value)
  /-- Between the literal parts of a string. -/
  interpolations : n.kind = "string" ∨ n.kind = "concatenated_string" →
    Covers source ((Part.ofNode source n).meaning.interpolations.flatMap Expr.ops)
      (n.identifiers .value)
  /-- Where it is an annotation. -/
  hintReads : Covers source ((Part.ofNode source n).meaning.hintReads.flatMap Expr.ops)
    (n.identifiers .hint)
  /-- In a sequence of values. -/
  sequence : ∀ values, (Part.ofNode source n).meaning.sequence = some values →
    Covers source (values.flatMap fun v => v.2.ops) (n.identifiers .value)
  /-- Where it is an assignment. -/
  assignment : n.kind = "assignment" →
    Covers source (Part.ofNode source n).meaning.assignment.ops (n.identifiers .value)
  /-- Where it is a statement. -/
  stmt : Covers source (Part.ofNode source n).meaning.stmt.operations (n.identifiers .value)

/-- A node of the grammar above nodes that are covered. -/
structure Ready (source : SourceText) (n : Node) : Prop where
  /-- The node itself. -/
  regular : n.Regular
  /-- The nodes below it. -/
  below : ∀ c ∈ n.children, ∀ d ∈ c.subtrees, d.Regular ∧ Covered source d

variable {source : SourceText} {n c : Node} {ops : List Op} {r : Role}

/-- Each of some expressions adds its operations. -/
theorem ops_subset_flatMap {e : Expr} {es : List Expr} (h : e ∈ es) :
    e.ops ⊆ es.flatMap Expr.ops := fun _ hop => List.mem_flatMap.2 ⟨e, h, hop⟩

/-- Fewer members give fewer results. -/
theorem flatMap_subset_flatMap {α β : Type} {l l' : List α} {f : α → List β}
    (h : l ⊆ l') : l.flatMap f ⊆ l'.flatMap f := fun b hb => by
  obtain ⟨a, ha, hb⟩ := List.mem_flatMap.1 hb
  exact List.mem_flatMap.2 ⟨a, h ha, hb⟩

namespace Part

/-- The interpolations of a string are those of the strings that it is written in. -/
theorem interpolations_subset_of_string {p c : Part} (hc : c ∈ p.named) (hkind : c.kind = "string") :
    c.meaning.interpolations ⊆ p.interpolations :=
  fun e he => List.mem_flatMap.2 ⟨c, hc, by simpa [hkind] using he⟩

/-- The expression of an interpolation is one of the interpolations. -/
theorem exprField_mem_interpolations {p c : Part} (hc : c ∈ p.named)
    (hkind : c.kind = "interpolation") : c.exprField "expression" ∈ p.interpolations :=
  List.mem_flatMap.2 ⟨c, hc, by simp [hkind]⟩

end Part

/-- A compound expression has the operations of its parts. -/
theorem flatMap_subset_compound (es : List Expr) (outcome : Outcome) :
    es.flatMap Expr.ops ⊆ (Expr.compound es outcome).ops := by
  intro op hop
  obtain ⟨e, he, hop⟩ := List.mem_flatMap.1 hop
  exact ops_subset_compound he hop

/-- An expression that is not modeled covers anything. -/
theorem covers_unsupportedExpr {ids : List (Role × NodeInfo)} (kind : String) (location : Location) :
    Covers source (Expr.unsupported kind location).ops ids := covers_of_report List.mem_cons_self

/-- A target that is not modeled covers anything. -/
theorem covers_unsupportedTarget {ids : List (Role × NodeInfo)} (kind : String)
    (location : Location) : Covers source (Target.unsupported kind location).assignOps ids :=
  covers_of_report List.mem_cons_self

namespace Ready

/-- A child of a ready node is covered. -/
theorem child (h : Ready source n) (hc : c ∈ n.children) : Covered source c :=
  (h.below c hc c (Node.self_mem_subtrees c)).2

/-- The nodes below a ready node are ready. -/
theorem ready (h : Ready source n) (hc : c ∈ n.children) : Ready source c where
  regular := (h.below c hc c (Node.self_mem_subtrees c)).1
  below _ hd _ he := h.below c hc _ (Node.subtrees_subset_of_mem_children hd he)

/-! ### Children that are found by their fields, and children in order -/

/-- In a node with a shape it is enough that the children in its slots are covered. -/
theorem covers_slots (h : Ready source n) {kind : String} {s : Shape} (hkind : n.kind = kind)
    (hs : shapeOf kind = some s) (hne : kind ≠ "identifier")
    (honce : ∀ slot ∈ s.once, ∀ c ∈ n.children, slot.accepts c →
      n.children.find? (fun d => d.field = slot.field) = some c →
      Covers source ops (c.identifiers (r.child kind slot.field c.kind)))
    (hmany : ∀ slot ∈ s.many, ∀ c ∈ n.children, slot.accepts c → c.isListed →
      Covers source ops (c.identifiers (r.child kind slot.field c.kind)))
    (hkinds : ∀ childKind ∈ s.kinds, ∀ c ∈ n.children, c.kind = childKind → c.isListed →
      Covers source ops (c.identifiers (r.child kind c.field childKind))) :
    Covers source ops (n.identifiers r) := by
  subst hkind
  exact h.regular.covers_slots hs hne honce hmany hkinds

/-- Where every child stands in a slot that is filled once. -/
theorem covers_once (h : Ready source n) {kind : String} {slots : List Slot} (hkind : n.kind = kind)
    (hs : shapeOf kind = some ⟨slots, [], []⟩) (hne : kind ≠ "identifier")
    (honce : ∀ slot ∈ slots, ∀ c ∈ n.children, slot.accepts c →
      n.children.find? (fun d => d.field = slot.field) = some c →
      Covers source ops (c.identifiers (r.child kind slot.field c.kind))) :
    Covers source ops (n.identifiers r) :=
  h.covers_slots hkind hs hne honce (List.forall_mem_nil _) (List.forall_mem_nil _)

/-- Where no child stands in a slot. -/
theorem covers_kinds (h : Ready source n) {kind : String} {kinds : List String}
    (hkind : n.kind = kind) (hs : shapeOf kind = some ⟨[], [], kinds⟩) (hne : kind ≠ "identifier")
    (hkinds : ∀ childKind ∈ kinds, ∀ c ∈ n.children, c.kind = childKind → c.isListed →
      Covers source ops (c.identifiers (r.child kind c.field childKind))) :
    Covers source ops (n.identifiers r) :=
  h.covers_slots hkind hs hne (List.forall_mem_nil _) (List.forall_mem_nil _) hkinds

/-- Where all children are read alike it is enough that those are covered that are listed. -/
theorem covers_listed (h : Ready source n) {kind : String} (hkind : n.kind = kind)
    (hne : kind ≠ "identifier") (r' : Role)
    (hrole : ∀ field childKind, r.child kind field childKind = r')
    (hlisted : ∀ c ∈ n.children, c.isListed → Covers source ops (c.identifiers r')) :
    Covers source ops (n.identifiers r) := by
  subst hkind
  refine Node.covers_children hne fun c hc => ?_
  rcases h.regular.isListed_or_isNameless hc with hl | hnameless
  · exact hrole c.field c.kind ▸ hlisted c hc hl
  · exact Node.covers_of_isNameless hnameless

/-- A child that is found by its field and evaluated. -/
theorem exprField (h : Ready source n) (name : String) (hc : c ∈ n.children)
    (hfind : n.children.find? (fun d => d.field = name) = some c)
    (hsub : ((Part.ofNode source n).exprField name).ops ⊆ ops) :
    Covers source ops (c.identifiers .value) := by
  rw [Part.exprField_of_find? hfind] at hsub
  exact (h.child hc).expr.mono hsub

/-- A child that is listed and evaluated. -/
theorem part (h : Ready source n) {outcome : Outcome} (hc : c ∈ n.children) (hlisted : c.isListed) :
    Covers source (Expr.compound (Part.ofNode source n).parts outcome).ops
      (c.identifiers .value) :=
  (h.child hc).expr.mono (ops_subset_compound (Part.expr_mem_parts hc hlisted))

/-- A line continuation holds no identifiers. -/
theorem covers_lineContinuation (h : Ready source n) (hline : n.kind = "line_continuation") :
    Covers source ops (n.identifiers r) :=
  h.regular.covers_leaf (by rw [hline]; rfl) (by simp [hline])

/-- Around one node all but its first listed child hold no identifiers, or that one is a line
continuation. -/
theorem covers_wrapped (h : Ready source n) {kind : String} (hkind : n.kind = kind)
    (hwrapper : kind ∈ wrapperKinds) {r' : Role}
    (hrole : ∀ field childKind, r.child kind field childKind = r')
    (hhead : ∀ c ∈ n.children, (n.children.filter Node.isListed).head? = some c →
      Covers source ops (c.identifiers r') ∧
        (c.kind = "line_continuation" → ∃ op ∈ ops, op.isReport)) :
    Covers source ops (n.identifiers r) := by
  have hne : kind ≠ "identifier" := by
    rintro rfl
    simp [wrapperKinds] at hwrapper
  refine h.covers_listed hkind hne _ hrole fun c hc hlisted => ?_
  -- Only the first listed child is looked at: it is `c`, or a line continuation in front of `c`.
  by_cases hline : c.kind = "line_continuation"
  · exact (h.ready hc).covers_lineContinuation hline
  · obtain ⟨d, hd, hfirst, rfl | hline⟩ :=
      h.regular.head?_of_wrapper (hkind ▸ hwrapper) hc hlisted hline
    · exact (hhead d hd hfirst).1
    · exact .inl ((hhead d hd hfirst).2 hline)

/-- A line continuation that is evaluated is reported. -/
theorem report_of_lineContinuation (source : SourceText) {c : Node} (hline : c.kind = "line_continuation") :
    ∃ op ∈ (Part.ofNode source c).meaning.expr.ops, op.isReport := by
  rw [Part.expr_ofNode, Part.toExpr, Part.kind_ofNode, hline]
  exact ⟨_, List.mem_cons_self, rfl⟩

/-- Around one node that is evaluated. -/
theorem covers_wrappedExpr (h : Ready source n) {kind : String} (hkind : n.kind = kind)
    (hwrapper : kind ∈ wrapperKinds) (hrole : ∀ field childKind, r.child kind field childKind = .value)
    (hops : ∀ e, (Part.ofNode source n).parts.head? = some e → e.ops ⊆ ops) :
    Covers source ops (n.identifiers r) := by
  refine h.covers_wrapped hkind hwrapper hrole fun c hc hfirst => ?_
  have hsub := hops (Part.ofNode source c).meaning.expr (by
    rw [Part.parts, List.head?_map, Part.head?_named_ofNode, hfirst]
    rfl)
  refine ⟨(h.child hc).expr.mono hsub, fun hline => ?_⟩
  obtain ⟨op, hop, hreport⟩ := report_of_lineContinuation source hline
  exact ⟨op, hsub hop, hreport⟩

/-! ### Expressions -/

/-- The operations of the arguments cover the names in them. -/
theorem callArguments (h : Ready source n) (hc : c ∈ n.children)
    (hfind : n.children.find? (fun d => d.field = "arguments") = some c)
    (hsub : (Part.ofNode source n).callArguments.flatMap Expr.ops ⊆ ops) :
    Covers source ops (c.identifiers .value) := by
  rw [Part.callArguments, Part.field?_of_find? hfind] at hsub
  dsimp only at hsub
  split at hsub
  · rename_i hkind
    rw [Part.kind_ofNode] at hkind
    refine (h.ready hc).covers_listed hkind (by decide) .value (fun _ _ => rfl) fun d hd hlisted => ?_
    refine ((h.ready hc).child hd).expr.mono (List.Subset.trans ?_ hsub)
    exact ops_subset_flatMap (Part.expr_mem_parts hd hlisted)
  · exact (h.child hc).expr.mono (List.Subset.trans (ops_subset_flatMap List.mem_cons_self) hsub)

/-- The parts of a string are other strings and interpolations; the format of an interpolation is
quoted. -/
theorem interpolations (h : Ready source n)
    (hkind : n.kind = "string" ∨ n.kind = "concatenated_string") :
    Covers source ((Part.ofNode source n).interpolations.flatMap Expr.ops)
      (n.identifiers .value) := by
  -- A string may stand in a concatenation, and its interpolations are found there.
  have hstring {c : Node} (hc : c ∈ n.children) (hck : c.kind = "string") (hlisted : c.isListed) :
      Covers source ((Part.ofNode source n).interpolations.flatMap Expr.ops)
        (c.identifiers .value) := by
    refine ((h.child hc).interpolations (.inl hck)).mono (flatMap_subset_flatMap ?_)
    exact Part.interpolations_subset_of_string (Part.mem_named hc hlisted) (by simpa using hck)
  have hinterpolation {c : Node} (hc : c ∈ n.children) (hck : c.kind = "interpolation")
      (hlisted : c.isListed) :
      Covers source ((Part.ofNode source n).interpolations.flatMap Expr.ops)
        (c.identifiers .value) := by
    refine (h.ready hc).covers_once hck rfl (by decide) ?_
    rintro slot (_ | ⟨_, _ | ⟨_, ⟨⟩⟩⟩) d hd - hfind
    · exact (h.ready hc).exprField "expression" hd hfind (ops_subset_flatMap
        (Part.exprField_mem_interpolations (Part.mem_named hc hlisted) (by simpa using hck)))
    · exact Node.covers_of_bound (r := .quoted) (fun _ _ _ => rfl) rfl
  rcases hkind with hkind | hkind
  all_goals
    refine h.covers_kinds hkind rfl (by decide) ?_
    rintro childKind (_ | ⟨_, _ | ⟨_, ⟨⟩⟩⟩) c hc hck hlisted
    · exact hstring hc hck hlisted
    · exact hinterpolation hc hck hlisted

/-- An attribute has an object, which is evaluated, and a member, to which something refers. -/
theorem covers_attribute (h : Ready source n) (hkind : n.kind = "attribute")
    (hrole : ∀ field childKind,
      r.child "attribute" field childKind = .ofField "attribute" field childKind)
    (hops : ∀ o a, (Part.ofNode source n).field? "object" = some o →
      (Part.ofNode source n).field? "attribute" = some a →
      o.meaning.expr.ops ⊆ ops ∧ ∃ op ∈ ops, op.Refers .attr a.word.location) :
    Covers source ops (n.identifiers r) := by
  -- Both fields are there, as the grammar requires them.
  obtain ⟨o, ho⟩ := h.regular.required "object" (by rw [hkind]; decide)
  obtain ⟨a, ha⟩ := h.regular.required "attribute" (by rw [hkind]; decide)
  obtain ⟨hobject, op, hop, hrefers⟩ := hops _ _ (Part.field?_of_find? ho) (Part.field?_of_find? ha)
  refine h.covers_once hkind rfl (by decide) ?_
  rintro slot (_ | ⟨_, _ | ⟨_, ⟨⟩⟩⟩) c hc haccepts hfind
  · obtain rfl := Option.some.inj (ho.symm.trans hfind)
    rw [hrole]
    exact (h.child hc).expr.mono hobject
  · obtain rfl := Option.some.inj (ha.symm.trans hfind)
    rw [hrole, Node.identifiers_of_eq (Slot.kind_of_accepts haccepts)]
    rw [Part.location_ofNode] at hrefers
    exact covers_singleton rfl hop hrefers

/-- A call has a callee and maybe arguments, all of which are evaluated. -/
theorem covers_call (h : Ready source n) (hkind : n.kind = "call")
    (hops : ∀ f, (Part.ofNode source n).field? "function" = some f → f.meaning.expr.ops ⊆ ops ∧
      (Part.ofNode source n).callArguments.flatMap Expr.ops ⊆ ops) :
    Covers source ops (n.identifiers .value) := by
  obtain ⟨f, hf⟩ := h.regular.required "function" (by rw [hkind]; decide)
  obtain ⟨hcallee, harguments⟩ := hops _ (Part.field?_of_find? hf)
  refine h.covers_once hkind rfl (by decide) ?_
  rintro slot (_ | ⟨_, _ | ⟨_, ⟨⟩⟩⟩) c hc - hfind
  · obtain rfl := Option.some.inj (hf.symm.trans hfind)
    exact (h.child hc).expr.mono hcallee
  · exact h.callArguments hc hfind harguments

/-- The operations of an expression cover the names in it. -/
theorem toExpr (h : Ready source n) :
    Covers source (Part.ofNode source n).toExpr.ops (n.identifiers .value) := by
  rw [Part.toExpr, Part.kind_ofNode]
  split
  -- A name is read where it stands.
  case h_1 hkind =>
    rw [Node.identifiers_of_eq hkind]
    exact covers_singleton rfl List.mem_cons_self ⟨rfl, Part.location_ofNode source n⟩
  case h_2 hkind =>
    refine h.covers_attribute hkind (fun _ _ => rfl) fun o a ho ha => ?_
    rw [ha, Part.exprField, ho]
    exact ⟨List.subset_append_left _ _, _, List.mem_append_right _ List.mem_cons_self, rfl, rfl⟩
  case h_3 hkind =>
    refine h.covers_call hkind fun f hf => ?_
    rw [hf]
    refine ⟨fun op hop => by simp [Expr.ops, hop], fun op hop => ?_⟩
    obtain ⟨e, he, hop⟩ := List.mem_flatMap.1 hop
    simp [Expr.ops, ops_subset_partsOps he hop]
  case h_4 hkind => exact (h.interpolations (.inl hkind)).mono (flatMap_subset_compound _ _)
  case h_5 hkind => exact (h.interpolations (.inr hkind)).mono (flatMap_subset_compound _ _)
  -- Literals hold no identifiers.
  case h_6 hkind | h_7 hkind | h_8 hkind | h_9 hkind | h_10 hkind | h_33 hkind =>
    exact h.regular.covers_leaf (by rw [hkind]; rfl) (by simp [hkind])
  -- Operators with two operands and with one; here and below, one case for each slot of the shape.
  case h_11 hkind | h_12 hkind =>
    refine h.covers_once hkind rfl (by decide) ?_
    rintro slot (_ | ⟨_, _ | ⟨_, ⟨⟩⟩⟩) c hc - hfind
    · exact h.exprField "left" hc hfind (ops_subset_compound (by simp))
    · exact h.exprField "right" hc hfind (ops_subset_compound (by simp))
  case h_13 hkind | h_14 hkind =>
    refine h.covers_once hkind rfl (by decide) ?_
    rintro slot (_ | ⟨_, ⟨⟩⟩) c hc - hfind
    exact h.exprField "argument" hc hfind (ops_subset_compound (by simp))
  -- Parentheses, annotations and `await` stand around one expression.
  case h_17 hkind | h_18 hkind =>
    refine h.covers_wrappedExpr hkind (by decide) (fun _ _ => rfl) fun e he => ?_
    rw [he]
    exact List.Subset.refl _
  case h_19 hkind =>
    refine h.covers_wrappedExpr hkind (by decide) (fun _ _ => rfl) fun e he => ?_
    exact ops_subset_compound (List.mem_of_head? (by rw [List.head?_take]; simpa using he))
  -- What stands in front of `:=` is bound, what stands in front of a keyword's `=` is a name.
  case h_20 hkind =>
    refine h.covers_once hkind rfl (by decide) ?_
    rintro slot (_ | ⟨_, _ | ⟨_, ⟨⟩⟩⟩) c hc haccepts hfind
    · rw [Node.identifiers_of_eq (Slot.kind_of_accepts haccepts)]
      exact covers_bound rfl
    · refine h.exprField "value" hc hfind ?_
      split
      · exact List.subset_append_left _ _
      · exact ops_subset_compound List.mem_cons_self
  case h_32 hkind =>
    refine h.covers_once hkind rfl (by decide) ?_
    rintro slot (_ | ⟨_, _ | ⟨_, ⟨⟩⟩⟩) c hc haccepts hfind
    · exact Node.covers_of_bound (r := .name) (fun _ _ _ => rfl) rfl
    · exact h.exprField "value" hc hfind (ops_subset_compound (by simp))
  -- Errors are excluded, and other kinds are reported.
  case h_34 hkind =>
    exact absurd (by simp [NodeInfo.isBroken, NodeInfo.isError, show n.info.kind = "ERROR" from hkind])
      h.regular.whole
  case h_35 => exact covers_unsupportedExpr _ _
  -- In all other kinds of nodes every child is evaluated.
  all_goals
    rename_i hkind
    exact h.covers_listed hkind (by decide) .value (fun _ _ => rfl) fun c hc hl => h.part hc hl

/-! ### Targets -/

/-- A line continuation that is assigned to is reported. -/
theorem report_of_lineContinuationTarget (h : Ready source c) (hline : c.kind = "line_continuation") :
    ∃ op ∈ (Part.ofNode source c).meaning.target.assignOps, op.isReport := by
  rw [Part.target_ofNode, Part.toTarget, Part.kind_ofNode, hline, Part.info_ofNode]
  simp [h.regular.unmarked, Target.assignOps, reportTargetOp, Op.isReport]

/-- Around one node that is assigned to. -/
theorem covers_wrappedTarget (h : Ready source n) {kind : String} (hkind : n.kind = kind)
    (hwrapper : kind ∈ wrapperKinds)
    (hrole : ∀ field childKind, r.child kind field childKind = .target)
    (hops : ∀ p, (Part.ofNode source n).named.head? = some p → p.meaning.target.assignOps ⊆ ops) :
    Covers source ops (n.identifiers r) := by
  refine h.covers_wrapped hkind hwrapper hrole fun c hc hfirst => ?_
  have hsub := hops (Part.ofNode source c) (by rw [Part.head?_named_ofNode, hfirst]; rfl)
  refine ⟨(h.child hc).target.mono hsub, fun hline => ?_⟩
  obtain ⟨op, hop, hreport⟩ := (h.ready hc).report_of_lineContinuationTarget hline
  exact ⟨op, hsub hop, hreport⟩

/-- The targets of a sequence are the listed children. -/
theorem covers_targets (h : Ready source n) {kind : String} (hkind : n.kind = kind)
    (hgroup : kind ∈ Role.targetGroups)
    (hops : ∀ t ∈ (Part.ofNode source n).named, t.meaning.target.assignOps ⊆ ops) :
    Covers source ops (n.identifiers .target) := by
  have hne : kind ≠ "identifier" := by
    rintro rfl
    simp [Role.targetGroups] at hgroup
  refine h.covers_listed hkind hne .target (fun _ _ => ?_) fun c hc hlisted => ?_
  · exact if_pos (List.contains_iff_mem.2 hgroup)
  · exact (h.child hc).target.mono (hops _ (Part.mem_named hc hlisted))

/-- The operations of a target cover the names in it. -/
theorem toTarget (h : Ready source n) :
    Covers source (Part.ofNode source n).toTarget.assignOps (n.identifiers .target) := by
  rw [Part.toTarget, Part.kind_ofNode]
  split
  case h_1 hkind =>
    rw [Node.identifiers_of_eq hkind]
    exact covers_bound rfl
  case h_2 hkind =>
    refine h.covers_attribute hkind (fun _ _ => rfl) fun o a ho ha => ?_
    rw [Part.attributeTarget, ho, ha]
    exact ⟨List.subset_append_left _ _, _, List.mem_append_right _ List.mem_cons_self, rfl, rfl⟩
  -- The parts of a subscript are evaluated, also where it is assigned to.
  case h_3 hkind =>
    rw [Node.identifiers_congr .value (by simp [hkind]) (by rw [hkind]; exact fun _ _ => rfl)]
    exact h.toExpr.mono (ops_subset_readOps _)
  case h_4 hkind =>
    refine h.covers_wrappedTarget hkind (by decide) (fun _ _ => rfl) fun p hp => ?_
    rw [hp]
    exact List.Subset.refl _
  case h_11 =>
    rw [Part.info_ofNode, if_neg h.regular.unmarked]
    exact covers_unsupportedTarget _ _
  -- The others are patterns.
  all_goals
    rename_i hkind
    refine h.covers_targets hkind (by decide) fun t ht op hop => ?_
    have htargets := List.mem_map_of_mem (f := fun c : Part => c.meaning.target) ht
    simp [Target.assignOps, assignOps_subset_assignEachOps htargets hop]

/-- The operations of an augmented target cover the names in it. -/
theorem toAugmented (h : Ready source n) :
    Covers source (Part.ofNode source n).toAugmented.augmentOps (n.identifiers .value) := by
  rw [Part.toAugmented, Part.kind_ofNode]
  -- A name refers to itself, a member to its object and itself, and anything else is read or
  -- reported.
  split
  · rename_i hkind
    rw [Node.identifiers_of_eq hkind]
    exact covers_singleton rfl List.mem_cons_self ⟨rfl, Part.location_ofNode source n⟩
  · rename_i hkind
    refine h.covers_attribute hkind (fun _ _ => rfl) fun o a ho ha => ?_
    rw [Part.attributeTarget, ho, ha]
    exact ⟨List.subset_append_left _ _, _, List.mem_append_right _ List.mem_cons_self, rfl, rfl⟩
  · exact h.toExpr.mono (ops_subset_readOps _)
  · exact covers_of_report List.mem_cons_self

/-! ### Annotations and sequences -/

/-- The reads of a hint cover the names in it. -/
theorem toHintReads (h : Ready source n) :
    Covers source ((Part.ofNode source n).toHintReads.flatMap Expr.ops)
      (n.identifiers .hint) := by
  rw [Part.toHintReads, Part.kind_ofNode]
  split
  -- Between quotes no identifier is due a reference.
  case h_1 hkind =>
    refine h.covers_listed hkind (by decide) .quoted (fun _ _ => rfl) fun c hc hl => ?_
    exact Node.covers_of_bound (fun _ _ _ => rfl) rfl
  -- Any other node is evaluated; below it the roles are those of a value.
  case h_6 hstring htype hgeneric hunion hparameter =>
    have hread : (Part.ofNode source n).toExpr.ops ⊆
        [(Part.ofNode source n).toExpr].flatMap Expr.ops := ops_subset_flatMap List.mem_cons_self
    by_cases hkind : n.kind = "identifier"
    · have hop : .readName (Part.ofNode source n).word ∈ (Part.ofNode source n).toExpr.ops := by
        rw [Part.toExpr, Part.kind_ofNode, hkind]
        exact List.mem_cons_self
      rw [Node.identifiers_of_eq hkind]
      exact covers_singleton rfl (hread hop) ⟨rfl, Part.location_ofNode source n⟩
    · rw [Node.identifiers_congr .value hkind fun field childKind => ?_]
      · exact h.toExpr.mono hread
      · simp only [imp_false] at hstring htype hgeneric hunion hparameter
        simp [Role.child, Role.annotationGroups, hstring, htype, hgeneric, hunion, hparameter]
  all_goals
    rename_i hkind
    refine h.covers_listed hkind (by decide) .hint (fun _ _ => rfl) fun c hc hl => ?_
    refine (h.child hc).hintReads.mono (flatMap_subset_flatMap fun e he => ?_)
    exact List.mem_flatMap.2 ⟨_, Part.mem_named hc hl, he⟩

/-- The values of a sequence cover the names in it. -/
theorem toSequence (h : Ready source n) {values : List (Bool × Expr)}
    (hvalues : (Part.ofNode source n).toSequence = some values) :
    Covers source (values.flatMap fun v => v.2.ops) (n.identifiers .value) := by
  rw [Part.toSequence, Part.kind_ofNode] at hvalues
  split at hvalues
  -- A line continuation is no sequence, so it is not what stands in the parentheses.
  case h_1 hkind | h_2 hkind =>
    refine h.covers_wrapped hkind (by decide) (fun _ _ => rfl) fun c hc hfirst => ?_
    rw [Part.head?_named_ofNode, hfirst, Option.map_some, Option.bind_some] at hvalues
    refine ⟨(h.child hc).sequence values hvalues, fun hline => ?_⟩
    rw [Part.sequence_ofNode, Part.toSequence, Part.kind_ofNode, hline] at hvalues
    cases hvalues
  case h_6 => cases hvalues
  all_goals
    rename_i hkind
    obtain rfl := Option.some.inj hvalues
    refine h.covers_listed hkind (by decide) .value (fun _ _ => rfl) fun c hc hl => ?_
    refine (h.child hc).expr.mono fun op hop => List.mem_flatMap.2 ?_
    exact ⟨_, List.mem_map_of_mem (Part.mem_named hc hl), hop⟩

end Ready

end Python

end NameAtlas
