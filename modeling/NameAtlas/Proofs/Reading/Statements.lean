import NameAtlas.Proofs.Reading.Expressions

/-!
# Nothing of a tree is left out

Statements cover the identifiers of their nodes as expressions do: `Ready.toStmt` goes through the
kinds of statements, with a lemma for each kind of clause. With that every node above covered nodes
is covered, so by induction every node of a tree of the grammar is (`covered_of_mem_subtrees`), and
the operations of a module cover the identifiers of its tree (`covers_operationsOf_ofTree`).

The parts of an `except` clause are not found by their fields but by counting, and `exceptBody`
keeps some of them for later; what it does with each part is the content of `exceptBody_covers`.
-/

namespace NameAtlas

namespace Python

open Source

/-! ### Operations of the parts -/

/-- The operations of a pair are among those of the pairs. -/
theorem ops_subset_pairsOps {pair : Target × Expr} {pairs : List (Target × Expr)} (h : pair ∈ pairs) :
    pair.1.assignOps ⊆ pairsOps pairs ∧ pair.2.ops ⊆ pairsOps pairs := by
  induction pairs with
  | nil => cases h
  | cons pair' rest ih =>
    obtain ⟨target, value⟩ := pair'
    rw [pairsOps]
    rcases List.mem_cons.1 h with rfl | h
    · exact ⟨fun op hop => by simp [hop], fun op hop => by simp [hop]⟩
    · exact ⟨fun op hop => by simp [(ih h).1 hop], fun op hop => by simp [(ih h).2 hop]⟩

/-- Of targets and values in equal number all are assigned and evaluated. -/
theorem ops_subset_pairsOps_zip (targets : List Target) (values : List Expr)
    (h : targets.length = values.length) :
    (∀ t ∈ targets, t.assignOps ⊆ pairsOps (targets.zip values)) ∧
      ∀ v ∈ values, v.ops ⊆ pairsOps (targets.zip values) := by
  constructor
  · intro t ht
    rw [← List.map_fst_zip (Nat.le_of_eq h)] at ht
    obtain ⟨pair, hpair, rfl⟩ := List.mem_map.1 ht
    exact (ops_subset_pairsOps hpair).1
  · intro v hv
    rw [← List.map_snd_zip (Nat.le_of_eq h.symm)] at hv
    obtain ⟨pair, hpair, rfl⟩ := List.mem_map.1 hv
    exact (ops_subset_pairsOps hpair).2

namespace Part

/-- Where targets and values belong together, the targets are those of a pattern, and there are as
many values. -/
theorem unpackPairs?_eq_some {left right : Part} {pairs : List (Target × Expr)}
    (h : unpackPairs? left right = some pairs) :
    left.kind ∈ ["pattern_list", "tuple_pattern", "list_pattern"] ∧
      ∃ values, right.meaning.sequence = some values ∧ left.named.length = values.length ∧
        pairs = (left.named.map fun c => c.meaning.target).zip (values.map Prod.snd) := by
  -- The guards of an unpacking are read off one by one.
  rw [unpackPairs?] at h
  split at h
  · rename_i hkind
    split at h
    · rename_i values hvalues
      dsimp only at h
      split at h
      · rename_i hlength
        simp only [Bool.and_eq_true, decide_eq_true_eq] at hlength
        exact ⟨by simpa [or_assoc] using hkind, values, hvalues, hlength.1.1,
          (Option.some.inj h).symm⟩
      · cases h
    · cases h
  · cases h

/-- An assignment unpacks its values into its targets, or assigns the value of another assignment, or
assigns the value of its right side. -/
theorem toAssignment_cases (p : Part) :
    (∃ left right values, p.field? "left" = some left ∧ p.field? "right" = some right ∧
      left.kind ∈ ["pattern_list", "tuple_pattern", "list_pattern"] ∧
      right.meaning.sequence = some values ∧ left.named.length = values.length ∧
      p.toAssignment = .unpack (p.hintField? "type")
        ((left.named.map fun c => c.meaning.target).zip (values.map Prod.snd))) ∨
    (∃ right, p.field? "right" = some right ∧ right.kind = "assignment" ∧
      p.toAssignment = .chained (p.hintField? "type")
        (((p.field? "left").map fun c => c.meaning.target).getD .absent)
        right.meaning.assignment) ∨
    ((∀ right, p.field? "right" = some right → right.kind ≠ "assignment") ∧
      p.toAssignment = .plain (p.hintField? "type")
        (((p.field? "left").map fun c => c.meaning.target).getD .absent) (p.exprField "right")) := by
  rw [toAssignment]
  split
  -- The targets and values belong together; or there is no telling, and the right side decides.
  · rename_i pairs hpairs
    obtain ⟨left, hleft, hpairs⟩ := Option.bind_eq_some_iff.1 hpairs
    obtain ⟨right, hright, hpairs⟩ := Option.bind_eq_some_iff.1 hpairs
    obtain ⟨hkind, values, hvalues, hlength, rfl⟩ := unpackPairs?_eq_some hpairs
    exact .inl ⟨left, right, values, hleft, hright, hkind, hvalues, hlength, rfl⟩
  · right
    rw [exprField]
    split
    · rename_i right hright
      split
      · exact .inl ⟨right, hright, ‹_›, rfl⟩
      · refine .inr ⟨fun right' hright' => ?_, by rw [hright]; rfl⟩
        obtain rfl := Option.some.inj (hright.symm.trans hright')
        assumption
    · rename_i hright
      exact .inr ⟨fun _ hright' => absurd hright' (by simp [hright]), by rw [hright]; rfl⟩

/-- The operations of the hint are among those of the assignment. -/
theorem hintOps_subset_toAssignment (p : Part) :
    hintOps (p.hintField? "type") ⊆ p.toAssignment.ops := by
  intro op hop
  rcases p.toAssignment_cases with ⟨_, _, _, -, -, -, -, -, heq⟩ | ⟨_, -, -, heq⟩ | ⟨-, heq⟩
  all_goals simp [heq, Assignment.ops, hop]

/-- An assignment assigns to its left side, or to each part of it. -/
theorem left_subset_toAssignment {p left : Part} (hleft : p.field? "left" = some left) :
    left.meaning.target.assignOps ⊆ p.toAssignment.ops ∨
      left.kind ∈ ["pattern_list", "tuple_pattern", "list_pattern"] ∧
        ∀ t ∈ left.named, t.meaning.target.assignOps ⊆ p.toAssignment.ops := by
  rcases p.toAssignment_cases with
    ⟨left', _, values, hleft', -, hkind, -, hlength, heq⟩ | ⟨_, -, -, heq⟩ | ⟨-, heq⟩
  · obtain rfl := Option.some.inj (hleft.symm.trans hleft')
    refine .inr ⟨hkind, fun t ht op hop => ?_⟩
    have htargets := (ops_subset_pairsOps_zip (left.named.map fun c => c.meaning.target)
      (values.map Prod.snd) (by simpa using hlength)).1
    simp [heq, Assignment.ops, htargets _ (List.mem_map_of_mem ht) hop]
  all_goals exact .inl fun op hop => by simp [heq, hleft, Assignment.ops, hop]

/-- An assignment evaluates its right side, or performs it if it is an assignment, or evaluates each
of its values. -/
theorem right_subset_toAssignment {p right : Part} (hright : p.field? "right" = some right) :
    (∃ values, right.meaning.sequence = some values ∧
        (values.flatMap fun v => v.2.ops) ⊆ p.toAssignment.ops) ∨
      (right.kind = "assignment" ∧ right.meaning.assignment.ops ⊆ p.toAssignment.ops) ∨
      right.meaning.expr.ops ⊆ p.toAssignment.ops := by
  -- The right side is unpacked, is an assignment itself, or is evaluated.
  rcases p.toAssignment_cases with
    ⟨left, right', values, -, hright', -, hvalues, hlength, heq⟩ |
    ⟨right', hright', hkind, heq⟩ | ⟨-, heq⟩
  · obtain rfl := Option.some.inj (hright.symm.trans hright')
    refine .inl ⟨values, hvalues, fun op hop => ?_⟩
    obtain ⟨v, hv, hop⟩ := List.mem_flatMap.1 hop
    have hvalues := (ops_subset_pairsOps_zip (left.named.map fun c => c.meaning.target)
      (values.map Prod.snd) (by simpa using hlength)).2
    simp [heq, Assignment.ops, hvalues _ (List.mem_map_of_mem hv) hop]
  · obtain rfl := Option.some.inj (hright.symm.trans hright')
    exact .inr (.inl ⟨hkind, fun op hop => by simp [heq, Assignment.ops, hop]⟩)
  · exact .inr (.inr fun op hop => by simp [heq, exprField, hright, Assignment.ops, hop])

/-- The expression of a decorator is among the decorators. -/
theorem mem_decorators {p c : Part} {e : Expr} (hc : c ∈ p.named) (hkind : c.kind = "decorator")
    (he : c.parts.head? = some e) : ∃ text, (text, e) ∈ p.decorators := by
  rw [parts, List.head?_map] at he
  obtain ⟨d, hd, rfl⟩ := Option.map_eq_some_iff.1 he
  refine ⟨d.text, List.mem_filterMap.2 ⟨c, List.mem_filter.2 ⟨hc, by simp [hkind]⟩, ?_⟩⟩
  rw [hd, Option.map_some]

/-! ### The parts of an `except` clause -/

/-- What an `except` clause does with a part of it that is the second of a pair or not. -/
def exceptOps (p : Part) (second : Bool) : List Op :=
  match p.exceptStmt? with
  | some st => st.operations
  | none => if second then p.meaning.target.assignOps else p.meaning.expr.ops

/-- A part of an `except` clause that makes a statement is told by its kind. -/
theorem isSome_exceptStmt? (source : SourceText) (c : Node) :
    (ofNode source c).exceptStmt?.isSome = c.isExceptPart := by
  rw [exceptStmt?, kind_ofNode, Node.isExceptPart]
  split
  · rename_i hkind
    simp [hkind]
  · rename_i hkind
    simp [hkind]
  · rename_i hblock hpattern
    simp only [imp_false] at hblock hpattern
    simp [hblock, hpattern]

/-- What is kept for later is done in the end. -/
theorem pending_subset_exceptBody (value : Expr) (between : List Stmt) (ps : List Part) :
    value.ops ⊆ operationsOf (exceptBody (some (value, between)) ps) ∧
      operationsOf between ⊆ operationsOf (exceptBody (some (value, between)) ps) := by
  -- The induction is on the parts that are left, for whatever stands between already.
  induction ps generalizing between with
  | nil =>
    exact ⟨fun op hop => by simp [exceptBody, operationsOf, Stmt.operations, hop],
      fun op hop => by simp [exceptBody, operationsOf, Stmt.operations, hop]⟩
  | cons c rest ih =>
    cases hst : c.exceptStmt? with
    | some st =>
      simp only [exceptBody, hst]
      obtain ⟨hvalue, hbetween⟩ := ih (between ++ [st])
      refine ⟨hvalue, List.Subset.trans (fun op hop => ?_) hbetween⟩
      rw [operationsOf_eq_flatMap] at hop ⊢
      rw [List.flatMap_append]
      exact List.mem_append_left _ hop
    | none =>
      simp only [exceptBody, hst]
      exact ⟨fun op hop => by simp [operationsOf, Stmt.operations, hop],
        fun op hop => by simp [operationsOf, Stmt.operations, hop]⟩

/-- The first part of what is left of an `except` clause is done: as the second of a pair just if
another part is kept. -/
theorem exceptOps_subset_exceptBody (pending : Option (Expr × List Stmt)) (p : Part)
    (ps : List Part) :
    p.exceptOps pending.isSome ⊆ operationsOf (exceptBody pending (p :: ps)) := by
  cases hst : p.exceptStmt? with
  -- A statement is done where it stands, or behind the part that is kept.
  | some st =>
    rcases pending with _ | ⟨value, between⟩
    · simp only [exceptBody, exceptOps, hst]
      exact List.subset_append_left _ _
    · simp only [exceptBody, exceptOps, hst]
      exact List.Subset.trans (operations_subset_operationsOf (by simp))
        (pending_subset_exceptBody value (between ++ [st]) ps).2
  | none =>
    rcases pending with _ | ⟨value, between⟩
    · simp only [exceptBody, exceptOps, hst]
      exact (pending_subset_exceptBody _ [] ps).1
    · intro op hop
      simp only [exceptOps, hst, Option.isSome_some, if_true] at hop
      simp [exceptBody, hst, operationsOf, Stmt.operations, caughtOps, hop]

/-- Behind its first part an `except` clause goes on, with another part kept or none: statements
change nothing about that, and the parts of pairs take turns. -/
theorem exists_exceptBody_subset (pending : Option (Expr × List Stmt)) (p : Part)
    (ps : List Part) :
    ∃ pending', Option.isSome pending' =
        (if p.exceptStmt?.isSome then pending.isSome else !pending.isSome) ∧
      operationsOf (exceptBody pending' ps) ⊆ operationsOf (exceptBody pending (p :: ps)) := by
  -- A statement leaves the exception waiting or not; any other part changes that.
  cases hst : p.exceptStmt? with
  | some st =>
    rcases pending with _ | ⟨value, between⟩
    · simp only [exceptBody, hst]
      exact ⟨none, rfl, List.subset_append_right _ _⟩
    · simp only [exceptBody, hst]
      exact ⟨_, rfl, List.Subset.refl _⟩
  | none =>
    rcases pending with _ | ⟨value, between⟩
    · simp only [exceptBody, hst]
      exact ⟨_, rfl, List.Subset.refl _⟩
    · simp only [exceptBody, hst]
      exact ⟨none, rfl, List.subset_append_right _ _⟩

/-- Each part of an `except` clause is done, and where exceptions and targets take turns each part is
done as what it is. -/
theorem exceptBody_covers (source : SourceText) (cs : List Node)
    (pending : Option (Expr × List Stmt)) :
    ∀ c ∈ cs, ∃ second : Bool,
      (c.isExceptPart = false → Node.alternate pending.isSome (cs.filter fun d => !d.isExceptPart) →
        decide (c.field = "alias") = second) ∧
      (ofNode source c).exceptOps second ⊆
        operationsOf (exceptBody pending (cs.map (ofNode source))) := by
  induction cs generalizing pending with
  | nil => nofun
  | cons d rest ih =>
    intro c hc
    rw [List.map_cons]
    rcases List.mem_cons.1 hc with rfl | hc
    · refine ⟨pending.isSome, fun hpart halternate => ?_, exceptOps_subset_exceptBody _ _ _⟩
      simp only [List.filter_cons, hpart, Bool.not_false, if_true, Node.alternate,
        Bool.and_eq_true, beq_iff_eq] at halternate
      exact halternate.1
    · obtain ⟨pending', hpending, hsub⟩ :=
        exists_exceptBody_subset pending (ofNode source d) (rest.map (ofNode source))
      obtain ⟨second, hfield, hops⟩ := ih pending' c hc
      refine ⟨second, fun hpart halternate => hfield hpart ?_, List.Subset.trans hops hsub⟩
      -- The parts of pairs behind `d` go on taking turns, with `d` or without it.
      rw [hpending, isSome_exceptStmt?]
      cases hd : d.isExceptPart with
      | true => simpa [hd] using halternate
      | false =>
        simp only [List.filter_cons, hd, Bool.not_false, if_true, Node.alternate,
          Bool.and_eq_true] at halternate
        exact halternate.2

end Part

variable {source : SourceText} {n c : Node} {ops : List Op} {r : Role}

namespace Ready

/-! ### Annotations and assignments -/

/-- An annotation in a field. -/
theorem hintField (h : Ready source n) (name : String) (hc : c ∈ n.children)
    (hfind : n.children.find? (fun d => d.field = name) = some c)
    (hsub : hintOps ((Part.ofNode source n).hintField? name) ⊆ ops) :
    Covers source ops (c.identifiers .hint) := by
  rw [Part.hintField?, Part.field?_of_find? hfind, Option.bind_some, Part.hint?,
    Part.info_ofNode, if_neg (h.ready hc).regular.unmarked] at hsub
  split at hsub
  · refine (h.child hc).hintReads.mono (List.Subset.trans (fun op hop => ?_) hsub)
    obtain ⟨e, he, hop⟩ := List.mem_flatMap.1 hop
    simp [hintOps, ops_subset_partsOps he hop]
  · exact covers_of_report (hsub List.mem_cons_self)

/-- The operations of an assignment cover its identifiers. -/
theorem toAssignment (h : Ready source n) (hkind : n.kind = "assignment") :
    Covers source (Part.ofNode source n).toAssignment.ops (n.identifiers .value) := by
  refine h.covers_once hkind rfl (by decide) ?_
  rintro slot (_ | ⟨_, _ | ⟨_, _ | ⟨_, ⟨⟩⟩⟩⟩) c hc - hfind
  -- The left side, the annotation and the right side.
  · rcases Part.left_subset_toAssignment (Part.field?_of_find? hfind) with hsub | ⟨hgroup, hsub⟩
    · exact (h.child hc).target.mono hsub
    · rw [Part.kind_ofNode] at hgroup
      exact (h.ready hc).covers_targets rfl (List.mem_of_mem_take (i := 3) hgroup) hsub
  · exact h.hintField "type" hc hfind (Part.hintOps_subset_toAssignment _)
  · rcases Part.right_subset_toAssignment (Part.field?_of_find? hfind) with
      ⟨values, hvalues, hsub⟩ | ⟨hassign, hsub⟩ | hsub
    · exact ((h.child hc).sequence values hvalues).mono hsub
    · rw [Part.kind_ofNode] at hassign
      exact ((h.child hc).assignment hassign).mono hsub
    · exact (h.child hc).expr.mono hsub

/-- A part of an expression statement. -/
theorem toItem (h : Ready source n) :
    Covers source (Part.ofNode source n).toItem.ops (n.identifiers .value) := by
  rw [Part.toItem, Part.kind_ofNode]
  split
  -- An assignment in a statement, then one with an operator, then a value.
  · rename_i hkind
    rw [Part.assignment_ofNode]
    exact (h.toAssignment hkind).mono (List.subset_append_left _ _)
  · rename_i hkind
    refine h.covers_once hkind rfl (by decide) ?_
    rintro slot (_ | ⟨_, _ | ⟨_, ⟨⟩⟩⟩) c hc - hfind
    · have hleft : (Part.ofNode source n).field? "left" = some (Part.ofNode source c) :=
        Part.field?_of_find? hfind
      rw [hleft]
      exact (h.child hc).augmented.mono (List.subset_append_right _ _)
    · refine h.exprField "right" hc hfind fun op hop => ?_
      simp [Item.ops, Expr.readOps, hop]
  · rw [Part.expr_ofNode]
    exact h.toExpr.mono (ops_subset_readOps _)

/-! ### Bodies -/

/-- Where all children are statements it is enough that their operations are among some. -/
theorem covers_body (h : Ready source n) {kind : String} (hkind : n.kind = kind)
    (hne : kind ≠ "identifier") (hrole : ∀ field childKind, r.child kind field childKind = .value)
    (hsub : operationsOf (Part.ofNode source n).body ⊆ ops) :
    Covers source ops (n.identifiers r) := by
  refine h.covers_listed hkind hne _ hrole fun c hc hlisted => ?_
  refine (h.child hc).stmt.mono (List.Subset.trans ?_ hsub)
  exact operations_subset_operationsOf (List.mem_map_of_mem (Part.mem_named hc hlisted))

/-- A block of statements. -/
theorem block (h : Ready source n) (hkind : n.kind = "block")
    (hsub : operationsOf (Part.ofNode source n).body ⊆ ops) :
    Covers source ops (n.identifiers .value) :=
  h.covers_body hkind (by decide) (fun _ _ => rfl) hsub

/-- A block of statements in a field. -/
theorem bodyField (h : Ready source n) (name : String) (hc : c ∈ n.children)
    (hkind : c.kind = "block") (hfind : n.children.find? (fun d => d.field = name) = some c)
    (hsub : operationsOf ((Part.ofNode source n).bodyField name) ⊆ ops) :
    Covers source ops (c.identifiers .value) := by
  rw [Part.bodyField_of_find? hfind] at hsub
  exact (h.ready hc).block hkind hsub

/-! ### Definitions -/

/-- A list of type parameters is reported. -/
theorem covers_typeParameters
    (hfind : n.children.find? (fun d => d.field = "type_parameters") = some c)
    (hsub : typeParameterOps (Part.ofNode source n).typeParameters? ⊆ ops) :
    Covers source ops (c.identifiers r) := by
  rw [Part.typeParameters?, Part.field?_of_find? hfind] at hsub
  exact covers_of_report (hsub List.mem_cons_self)

/-- A parameter whose annotation and default are known. -/
theorem namedParameter (h : Ready source n) (name : Option Part) {hint : Option TypeHint}
    {default : Option Expr}
    (hops : ∀ q, (Part.ofNode source n).namedParameter name hint default = some q → q.ops ⊆ ops) :
    (∃ op ∈ ops, op.isReport) ∨ hintOps hint ⊆ ops ∧ defaultOps default ⊆ ops := by
  rw [Part.namedParameter, Part.info_ofNode, if_neg h.regular.unmarked] at hops
  split at hops
  · have hsub := hops _ rfl
    exact .inr ⟨fun op hop => hsub (by simp [Parameter.ops, hop]),
      fun op hop => hsub (by simp [Parameter.ops, hop])⟩
  · exact .inl ⟨_, hops _ rfl List.mem_cons_self, rfl⟩

/-- A parameter whose name may be followed by an annotation only. -/
theorem typedParameter (h : Ready source n) (hkind : n.kind = "typed_parameter")
    (hops : ∀ q, (Part.ofNode source n).parameter? = some q → q.ops ⊆ ops) :
    Covers source ops (n.identifiers .value) := by
  simp only [Part.parameter?, Part.info_ofNode, if_neg h.regular.whole, Part.kind_ofNode, hkind]
    at hops
  -- What is no plain name, such as a starred one, is reported.
  have hhint : (∃ op ∈ ops, op.isReport) ∨
      hintOps ((Part.ofNode source n).hintField? "type") ⊆ ops := by
    split at hops
    · split at hops
      · exact (h.namedParameter _ hops).imp_right And.left
      · rw [if_neg h.regular.unmarked] at hops
        exact .inl ⟨_, hops _ rfl List.mem_cons_self, rfl⟩
    · rw [if_neg h.regular.unmarked] at hops
      exact .inl ⟨_, hops _ rfl List.mem_cons_self, rfl⟩
  refine h.covers_slots hkind rfl (by decide) ?_ ?_ (List.forall_mem_nil _)
  · rintro slot (_ | ⟨_, ⟨⟩⟩) c hc - hfind
    exact hhint.elim .inl fun hsub => h.hintField "type" hc hfind hsub
  · rintro slot (_ | ⟨_, ⟨⟩⟩) c - - -
    exact Node.covers_of_bound (r := .name) (fun _ _ _ => rfl) rfl

/-- A parameter with a default. -/
theorem defaultParameter (h : Ready source n)
    (hkind : n.kind = "default_parameter" ∨ n.kind = "typed_default_parameter")
    (hops : ∀ q, (Part.ofNode source n).parameter? = some q → q.ops ⊆ ops) :
    Covers source ops (n.identifiers .value) := by
  -- A parameter whose name is not taken is reported, and so it is covered.
  have hnamed : (∃ op ∈ ops, op.isReport) ∨
      hintOps ((Part.ofNode source n).hintField? "type") ⊆ ops ∧
        defaultOps (((Part.ofNode source n).field? "value").map fun c => c.meaning.expr) ⊆ ops := by
    refine h.namedParameter ((Part.ofNode source n).field? "name") fun q hq => hops q ?_
    rw [Part.parameter?, Part.info_ofNode, if_neg h.regular.whole, Part.kind_ofNode]
    rcases hkind with hkind | hkind
    all_goals
      rw [hkind]
      exact hq
  have hdefault {c : Node} (hc : c ∈ n.children)
      (hfind : n.children.find? (fun d => d.field = "value") = some c) :
      Covers source ops (c.identifiers .value) := by
    refine hnamed.elim .inl fun hsub => (h.child hc).expr.mono (List.Subset.trans ?_ hsub.2)
    rw [Part.field?_of_find? hfind]
    exact ops_subset_readOps _
  rcases hkind with hkind | hkind
  · refine h.covers_once hkind rfl (by decide) ?_
    rintro slot (_ | ⟨_, _ | ⟨_, ⟨⟩⟩⟩) c hc - hfind
    · exact Node.covers_of_bound (r := .name) (fun _ _ _ => rfl) rfl
    · exact hdefault hc hfind
  · refine h.covers_once hkind rfl (by decide) ?_
    rintro slot (_ | ⟨_, _ | ⟨_, _ | ⟨_, ⟨⟩⟩⟩⟩) c hc - hfind
    · exact Node.covers_of_bound (r := .name) (fun _ _ _ => rfl) rfl
    · exact hnamed.elim .inl fun hsub => h.hintField "type" hc hfind hsub.1
    · exact hdefault hc hfind

/-- A list of parameters; the names in it are bound. -/
theorem parameters (h : Ready source n) (hkind : n.kind = "parameters")
    (hops : ∀ q ∈ (Part.ofNode source n).named.filterMap Part.parameter?, q.ops ⊆ ops) :
    Covers source ops (n.identifiers .value) := by
  refine Node.covers_children (by simp [hkind]) fun c hc => ?_
  rw [hkind]
  rcases h.regular.isListed_or_isNameless hc with hlisted | hnameless
  · have hops (q) (hq : (Part.ofNode source c).parameter? = some q) : q.ops ⊆ ops :=
      hops q (List.mem_filterMap.2 ⟨_, Part.mem_named hc hlisted, hq⟩)
    -- Only parameters with an annotation or a default hold identifiers that are not bound.
    have hrole : Role.child .value "parameters" c.field c.kind =
        if Role.compoundParameters.contains c.kind then .value else .name := rfl
    rw [hrole]
    split
    · rename_i hcompound
      simp only [List.contains_iff_mem, Role.compoundParameters, List.mem_cons, List.not_mem_nil,
        or_false] at hcompound
      rcases hcompound with hck | hck
      · exact (h.ready hc).typedParameter hck hops
      · exact (h.ready hc).defaultParameter hck hops
    · exact Node.covers_of_bound (fun _ _ _ => rfl) rfl
  · exact Node.covers_of_isNameless hnameless

/-- A function definition. -/
theorem functionStmt (h : Ready source n) (hkind : n.kind = "function_definition") :
    Covers source (Part.ofNode source n).functionStmt.operations (n.identifiers .value) := by
  obtain ⟨name, hname⟩ := h.regular.required "name" (by rw [hkind]; decide)
  rw [Part.functionStmt, Part.field?_of_find? hname]
  refine h.covers_once hkind rfl (by decide) ?_
  -- The name, the type parameters, the parameters, the annotation and the body.
  rintro slot (_ | ⟨_, _ | ⟨_, _ | ⟨_, _ | ⟨_, _ | ⟨_, ⟨⟩⟩⟩⟩⟩⟩) c hc haccepts hfind
  · exact Node.covers_of_bound (r := .name) (fun _ _ _ => rfl) rfl
  · refine covers_typeParameters hfind fun op hop => ?_
    simp [Stmt.operations, FunctionBody.defineOps, hop]
  · rw [Slot.kind_of_accepts haccepts]
    have hparameters : (Part.ofNode source n).field? "parameters" = some (Part.ofNode source c) :=
      Part.field?_of_find? hfind
    refine (h.ready hc).parameters (Slot.kind_of_accepts haccepts) fun q hq op hop => ?_
    have hop : op ∈ ((Part.ofNode source c).named.filterMap Part.parameter?).flatMap Parameter.ops :=
      List.mem_flatMap.2 ⟨q, hq, hop⟩
    simp [Stmt.operations, FunctionBody.defineOps, hparameters, hop]
  · refine h.hintField "return_type" hc hfind fun op hop => ?_
    simp [Stmt.operations, FunctionBody.defineOps, hop]
  · refine h.bodyField "body" hc (Slot.kind_of_accepts haccepts) hfind fun op hop => ?_
    simp [Stmt.operations, hop]

/-- An entry of the list of bases. -/
theorem classArgument (h : Ready source n) :
    Covers source (Part.ofNode source n).classArgument.ops (n.identifiers .value) := by
  rw [Part.classArgument, Part.kind_ofNode]
  split
  · rename_i hkind
    refine h.covers_once hkind rfl (by decide) ?_
    rintro slot (_ | ⟨_, _ | ⟨_, ⟨⟩⟩⟩) c hc - hfind
    · exact Node.covers_of_bound (r := .name) (fun _ _ _ => rfl) rfl
    · exact h.exprField "value" hc hfind (ops_subset_readOps _)
  · rw [Part.expr_ofNode]
    exact h.toExpr.mono (List.subset_append_left _ _)

/-- A class definition. -/
theorem classStmt (h : Ready source n) (hkind : n.kind = "class_definition") :
    Covers source (Part.ofNode source n).classStmt.operations (n.identifiers .value) := by
  obtain ⟨name, hname⟩ := h.regular.required "name" (by rw [hkind]; decide)
  rw [Part.classStmt, Part.field?_of_find? hname]
  refine h.covers_once hkind rfl (by decide) ?_
  -- The name, the type parameters, the bases and the body.
  rintro slot (_ | ⟨_, _ | ⟨_, _ | ⟨_, _ | ⟨_, ⟨⟩⟩⟩⟩⟩) c hc haccepts hfind
  · exact Node.covers_of_bound (r := .name) (fun _ _ _ => rfl) rfl
  · refine covers_typeParameters hfind fun op hop => ?_
    simp [Stmt.operations, ClassHeader.ops, hop]
  · have hsuperclasses :
        (Part.ofNode source n).field? "superclasses" = some (Part.ofNode source c) :=
      Part.field?_of_find? hfind
    refine (h.ready hc).covers_listed (Slot.kind_of_accepts haccepts) (by decide)
      .value (fun _ _ => rfl) fun d hd hlisted => ?_
    refine ((h.ready hc).ready hd).classArgument.mono fun op hop => ?_
    have hop : op ∈ ((Part.ofNode source c).named.map Part.classArgument).flatMap ClassArgument.ops :=
      List.mem_flatMap.2 ⟨_, List.mem_map_of_mem (Part.mem_named hd hlisted), hop⟩
    simp only [Stmt.operations, ClassHeader.ops, hsuperclasses, Option.map_some, Option.getD_some]
    simp [hop]
  · refine h.bodyField "body" hc (Slot.kind_of_accepts haccepts) hfind fun op hop => ?_
    simp [Stmt.operations, hop]

/-- Nothing that is logged is lost when a method is marked as one without a receiver. -/
theorem covers_markStatic {st : Stmt} {ids : List (Role × NodeInfo)}
    (h : Covers source st.operations ids) : Covers source (Part.markStatic st).operations ids := by
  cases st with
  | function header body =>
    refine h.mono_of_logs fun op hop hlogs => ?_
    simp only [Part.markStatic, Stmt.operations, FunctionBody.defineOps] at hop ⊢
    -- The headers differ, so entering the functions differs, but that logs nothing.
    cases op with
    | enterFunction f =>
      obtain hreport | ⟨_, _, hrefers⟩ := hlogs
      · cases hreport
      · exact hrefers.elim
    | _ =>
      revert hop
      simp
  | _ => exact h

/-- A definition behind its decorators. -/
theorem decoratedStmt (h : Ready source n) (hkind : n.kind = "decorated_definition") :
    Covers source (Part.ofNode source n).decoratedStmt.operations (n.identifiers .value) := by
  rw [Part.decoratedStmt, Stmt.operations, operationsOf]
  refine h.covers_slots hkind rfl (by decide) ?_ (List.forall_mem_nil _) ?_
  · rintro slot (_ | ⟨_, ⟨⟩⟩) c hc - hfind
    have hdefinition : (Part.ofNode source n).field? "definition" = some (Part.ofNode source c) :=
      Part.field?_of_find? hfind
    refine Covers.mono ?_ (List.subset_append_right _ _)
    rw [hdefinition]
    dsimp only
    rw [operationsOf, operationsOf, List.append_nil]
    split
    · exact covers_markStatic (h.child hc).stmt
    · exact (h.child hc).stmt
  -- The decorators are read in front of the definition.
  · rintro childKind (_ | ⟨_, ⟨⟩⟩) c hc hck hlisted
    refine (h.ready hc).covers_wrappedExpr hck (by decide) (fun _ _ => rfl) fun e he op hop => ?_
    obtain ⟨text, hdecorator⟩ :=
      Part.mem_decorators (Part.mem_named hc hlisted) (by simpa using hck) he
    refine List.mem_append_left _ (List.mem_flatMap.2 ⟨.read e, ?_, ops_subset_readOps e hop⟩)
    exact List.mem_map.2 ⟨_, hdecorator, rfl⟩

/-! ### Compound statements -/

/-- A branch behind `elif` or `else`. -/
theorem alternative (h : Ready source n)
    (hkind : n.kind = "elif_clause" ∨ n.kind = "else_clause") :
    Covers source (Part.ofNode source n).alternative.operations (n.identifiers .value) := by
  rw [Part.alternative, Part.kind_ofNode]
  -- The two kinds have their code in different fields.
  rcases hkind with hkind | hkind
  · rw [hkind]
    refine h.covers_once hkind rfl (by decide) ?_
    rintro slot (_ | ⟨_, _ | ⟨_, ⟨⟩⟩⟩) c hc haccepts hfind
    · refine h.exprField "condition" hc hfind fun op hop => ?_
      simp [Part.readField, Stmt.operations, operationsOf, Item.ops, Expr.readOps, hop]
    · refine h.bodyField "consequence" hc (Slot.kind_of_accepts haccepts) hfind fun op hop => ?_
      simp [Stmt.operations, operationsOf, hop]
  · rw [hkind]
    refine h.covers_once hkind rfl (by decide) ?_
    rintro slot (_ | ⟨_, ⟨⟩⟩) c hc haccepts hfind
    refine h.bodyField "body" hc (Slot.kind_of_accepts haccepts) hfind fun op hop => ?_
    simp [Stmt.operations, hop]

/-- The branch behind the `else` of a loop. -/
theorem loopElse (h : Ready source n) (hc : c ∈ n.children) (hkind : c.kind = "else_clause")
    (hfind : n.children.find? (fun d => d.field = "alternative") = some c)
    (hsub : operationsOf (Part.ofNode source n).loopElse ⊆ ops) :
    Covers source ops (c.identifiers .value) := by
  rw [Part.loopElse, Part.field?_of_find? hfind] at hsub
  refine (h.ready hc).covers_once hkind rfl (by decide) ?_
  rintro slot (_ | ⟨_, ⟨⟩⟩) d hd haccepts hfind
  exact (h.ready hc).bodyField "body" hd (Slot.kind_of_accepts haccepts) hfind hsub

/-- An `if` statement with its branches. -/
theorem ifStatement (h : Ready source n) (hkind : n.kind = "if_statement")
    (hcondition : ((Part.ofNode source n).exprField "condition").ops ⊆ ops)
    (hbody : operationsOf ((Part.ofNode source n).bodyField "consequence") ⊆ ops)
    (halternatives : ∀ c ∈ (Part.ofNode source n).fields "alternative",
      c.alternative.operations ⊆ ops) : Covers source ops (n.identifiers .value) := by
  refine h.covers_slots hkind rfl (by decide) ?_ ?_ (List.forall_mem_nil _)
  · rintro slot (_ | ⟨_, _ | ⟨_, ⟨⟩⟩⟩) c hc haccepts hfind
    · exact h.exprField "condition" hc hfind hcondition
    · exact h.bodyField "consequence" hc (Slot.kind_of_accepts haccepts) hfind hbody
  · rintro slot (_ | ⟨_, ⟨⟩⟩) c hc haccepts hlisted
    have hck := Slot.mem_kinds_of_accepts haccepts (List.cons_ne_nil _ _)
    refine ((h.ready hc).alternative (by simpa using hck)).mono (halternatives _ ?_)
    exact Part.mem_fields hc (Slot.field_of_accepts haccepts)

/-- A `while` statement. -/
theorem whileStatement (h : Ready source n) (hkind : n.kind = "while_statement")
    (hcondition : ((Part.ofNode source n).exprField "condition").ops ⊆ ops)
    (hbody : operationsOf ((Part.ofNode source n).bodyField "body") ⊆ ops)
    (helse : operationsOf (Part.ofNode source n).loopElse ⊆ ops) :
    Covers source ops (n.identifiers .value) := by
  refine h.covers_once hkind rfl (by decide) ?_
  rintro slot (_ | ⟨_, _ | ⟨_, _ | ⟨_, ⟨⟩⟩⟩⟩) c hc haccepts hfind
  · exact h.exprField "condition" hc hfind hcondition
  · exact h.bodyField "body" hc (Slot.kind_of_accepts haccepts) hfind hbody
  · exact h.loopElse hc (Slot.kind_of_accepts haccepts) hfind helse

/-- A `for` statement. -/
theorem forStatement (h : Ready source n) (hkind : n.kind = "for_statement")
    (htarget : ∀ t, (Part.ofNode source n).field? "left" = some t →
      t.meaning.target.assignOps ⊆ ops)
    (hvalues : ((Part.ofNode source n).exprField "right").ops ⊆ ops)
    (hbody : operationsOf ((Part.ofNode source n).bodyField "body") ⊆ ops)
    (helse : operationsOf (Part.ofNode source n).loopElse ⊆ ops) :
    Covers source ops (n.identifiers .value) := by
  refine h.covers_once hkind rfl (by decide) ?_
  rintro slot (_ | ⟨_, _ | ⟨_, _ | ⟨_, _ | ⟨_, ⟨⟩⟩⟩⟩⟩) c hc haccepts hfind
  · exact (h.child hc).target.mono (htarget _ (Part.field?_of_find? hfind))
  · exact h.exprField "right" hc hfind hvalues
  · exact h.bodyField "body" hc (Slot.kind_of_accepts haccepts) hfind hbody
  · exact h.loopElse hc (Slot.kind_of_accepts haccepts) hfind helse

/-- The target behind `as`. -/
theorem aliasTarget (h : Ready source n) (hc : c ∈ n.children)
    (hfind : n.children.find? (fun d => d.field = "alias") = some c)
    (hops : ∀ t, (Part.ofNode source n).aliasTarget? = some t → t.assignOps ⊆ ops) :
    Covers source ops (c.identifiers .target) := by
  rw [Part.aliasTarget?, Part.field?_of_find? hfind, Option.bind_some, Part.kind_ofNode] at hops
  split at hops
  · rename_i hkind
    refine (h.ready hc).covers_wrappedTarget hkind (by decide) (fun _ _ => rfl) fun p hp => ?_
    exact hops _ (by rw [hp, Option.map_some])
  · exact (h.child hc).target.mono (hops _ rfl)

/-- In an `as` pattern the first node is evaluated and the second assigned to. -/
theorem covers_asPattern (h : Ready source n) (hkind : n.kind = "as_pattern")
    (hvalue : ∀ e, (Part.ofNode source n).parts.head? = some e → e.ops ⊆ ops)
    (htarget : ∀ t, (Part.ofNode source n).aliasTarget? = some t → t.assignOps ⊆ ops) :
    Covers source ops (n.identifiers .value) := by
  refine h.covers_slots hkind rfl (by decide) ?_ ?_ (List.forall_mem_nil _)
  · rintro slot (_ | ⟨_, ⟨⟩⟩) c hc - hfind
    exact h.aliasTarget hc hfind htarget
  · rintro slot (_ | ⟨_, ⟨⟩⟩) c hc haccepts hlisted
    by_cases hline : c.kind = "line_continuation"
    -- A line continuation in front of what is matched is what the reading takes; it is reported.
    · exact (h.ready hc).covers_lineContinuation hline
    · have hfield : c.field ≠ "alias" := by
        rw [Slot.field_of_accepts haccepts]
        decide
      obtain ⟨d, hd, hfirst, hsame⟩ :=
        h.regular.head?_of_asPattern hkind hc hlisted hline hfield
      have hsub := hvalue (Part.ofNode source d).meaning.expr (by
        rw [Part.parts, List.head?_map, Part.head?_named_ofNode, hfirst]
        rfl)
      rcases hsame with rfl | hline
      · exact (h.child hd).expr.mono hsub
      · obtain ⟨op, hop, hreport⟩ := report_of_lineContinuation source hline
        exact .inl ⟨op, hsub hop, hreport⟩

/-- An exception that is caught as a target. -/
theorem caughtAs (h : Ready source n) (hkind : n.kind = "as_pattern") :
    Covers source (Part.ofNode source n).caughtAs.operations (n.identifiers .value) := by
  rw [Part.caughtAs]
  split
  · rename_i value rest hparts
    -- With something to match both are done in one; without, the alias is bound alone.
    refine h.covers_asPattern hkind (fun e he op hop => ?_) fun t ht op hop => ?_
    · rw [hparts, List.head?_cons] at he
      obtain rfl := Option.some.inj he
      simp [Stmt.operations, hop]
    · simp [Stmt.operations, caughtOps, ht, hop]
  · rename_i hparts
    refine h.covers_asPattern hkind (fun e he => ?_) fun t ht op hop => ?_
    · rw [hparts] at he
      cases he
    · simp [Stmt.operations, ht, Item.ops, hop]

/-- An item of a `with` statement. -/
theorem withItem (h : Ready source n) (hkind : n.kind = "with_item") :
    Covers source ((Part.ofNode source n).withItem.flatMap Item.ops) (n.identifiers .value) := by
  refine h.covers_once hkind rfl (by decide) ?_
  rintro slot (_ | ⟨_, ⟨⟩⟩) c hc - hfind
  have hfield : (Part.ofNode source n).field? "value" = some (Part.ofNode source c) :=
    Part.field?_of_find? hfind
  rw [Part.withItem, hfield]
  dsimp only
  rw [Part.kind_ofNode]
  split
  · rename_i hck
    -- Of the parts of the pattern only the first is read.
    refine (h.ready hc).covers_asPattern hck (fun e he op hop => ?_) fun t ht op hop => ?_
    · have hread : e ∈ (Part.ofNode source c).parts.take 1 :=
        List.mem_of_head? (by rw [List.head?_take]; simpa using he)
      rw [List.flatMap_append]
      refine List.mem_append_left _ (List.mem_flatMap.2 ⟨.read e, List.mem_map_of_mem hread, ?_⟩)
      exact ops_subset_readOps e hop
    · simp [ht, Item.ops, hop]
  · exact (h.child hc).expr.mono fun op hop => by simp [Item.ops, Expr.readOps, hop]

/-- The entries of a `with` statement. -/
theorem withItems (h : Ready source n) (hc : c ∈ n.children) (hkind : c.kind = "with_clause")
    (hlisted : c.isListed) (hsub : (Part.ofNode source n).withItems.flatMap Item.ops ⊆ ops) :
    Covers source ops (c.identifiers .value) := by
  refine (h.ready hc).covers_kinds hkind rfl (by decide) ?_
  rintro childKind (_ | ⟨_, ⟨⟩⟩) d hd hdk hdlisted
  refine (((h.ready hc).ready hd).withItem hdk).mono (List.Subset.trans ?_ hsub)
  refine flatMap_subset_flatMap fun item hitem => List.mem_flatMap.2 ⟨Part.ofNode source c, ?_, ?_⟩
  · exact List.mem_filter.2 ⟨Part.mem_named hc hlisted, by simp [hkind]⟩
  · exact List.mem_flatMap.2 ⟨_, Part.mem_named hd hdlisted, hitem⟩

/-- A part of an `except` clause means a statement by itself, or is the first or the second of a
pair. -/
theorem exceptOps (h : Ready source n) {second : Bool}
    (hpart : n.isExceptPart = true → r = .value)
    (hpair : n.isExceptPart = false → r = if second then .target else .value) :
    Covers source ((Part.ofNode source n).exceptOps second) (n.identifiers r) := by
  have hsome := Part.isSome_exceptStmt? source n
  rw [Part.exceptOps]
  -- Whether a part makes a statement or is one of a pair is told by its kind, as in the grammar.
  cases hst : (Part.ofNode source n).exceptStmt? with
  | some st =>
    rw [hst, Option.isSome_some] at hsome
    rw [hpart hsome.symm]
    rw [Part.exceptStmt?, Part.kind_ofNode] at hst
    split at hst
    · obtain rfl := Option.some.inj hst
      exact h.block ‹_› (List.Subset.refl _)
    · obtain rfl := Option.some.inj hst
      exact h.caughtAs ‹_›
    · cases hst
  | none =>
    rw [hst, Option.isSome_none] at hsome
    rw [hpair hsome.symm]
    cases second with
    | true =>
      simp only [if_true]
      rw [Part.target_ofNode]
      exact h.toTarget
    | false =>
      simp only [Bool.false_eq_true, if_false]
      rw [Part.expr_ofNode]
      exact h.toExpr

/-- The parts of an `except` clause. -/
theorem exceptClause (h : Ready source n)
    (hkind : n.kind = "except_clause" ∨ n.kind = "except_group_clause") :
    Covers source (operationsOf (Part.exceptBody none (Part.ofNode source n).named))
      (n.identifiers .value) := by
  have hne : n.kind ≠ "identifier" := by rcases hkind with hkind | hkind <;> simp [hkind]
  have hparts := Part.exceptBody_covers source (n.children.filter Node.isListed) none
  rw [Part.named_ofNode]
  by_cases hline : ∀ d ∈ n.children.filter Node.isListed, d.kind ≠ "line_continuation"
  · obtain ⟨halternate, hpart⟩ := h.regular.except_ordered hkind hline
    refine Node.covers_children hne fun c hc => ?_
    rcases h.regular.isListed_or_isNameless hc with hlisted | hnameless
    · have hmem : c ∈ n.children.filter Node.isListed := List.mem_filter.2 ⟨hc, hlisted⟩
      obtain ⟨second, hsecond, hsub⟩ := hparts c hmem
      rw [Role.child_except hkind]
      refine ((h.ready hc).exceptOps (fun hp => if_neg (hpart c hmem hp)) fun hp => ?_).mono hsub
      obtain rfl := hsecond hp halternate
      simp
    · exact Node.covers_of_isNameless hnameless
  -- A line continuation is taken for an exception or a target, and reported as such.
  · push Not at hline
    obtain ⟨d, hd, hline⟩ := hline
    obtain ⟨second, -, hsub⟩ := hparts d hd
    have hreport : ∃ op ∈ (Part.ofNode source d).exceptOps second, op.isReport := by
      have hstmt : (Part.ofNode source d).exceptStmt? = none := by
        simp [Part.exceptStmt?, hline]
      rw [Part.exceptOps, hstmt]
      cases second with
      | true => exact (h.ready (List.mem_filter.1 hd).1).report_of_lineContinuationTarget hline
      | false => exact report_of_lineContinuation source hline
    obtain ⟨op, hop, hreport⟩ := hreport
    exact .inl ⟨op, hsub hop, hreport⟩

/-- A clause of a `try` statement. -/
theorem tryClause (h : Ready source n)
    (hkind : n.kind ∈ ["block", "except_clause", "except_group_clause", "else_clause",
      "finally_clause"]) :
    Covers source (Part.ofNode source n).tryClause.operations (n.identifiers .value) := by
  rw [Part.tryClause, Part.kind_ofNode]
  -- Each kind of clause has its own fields or children.
  split
  case h_1 hkind => exact h.block hkind (List.Subset.refl _)
  case h_2 hkind => exact h.exceptClause (.inl hkind)
  case h_3 hkind => exact h.exceptClause (.inr hkind)
  case h_4 hkind =>
    refine h.covers_once hkind rfl (by decide) ?_
    rintro slot (_ | ⟨_, ⟨⟩⟩) c hc haccepts hfind
    exact h.bodyField "body" hc (Slot.kind_of_accepts haccepts) hfind (List.Subset.refl _)
  case h_5 hkind =>
    refine h.covers_kinds hkind rfl (by decide) ?_
    rintro childKind (_ | ⟨_, ⟨⟩⟩) c hc hck hlisted
    have hmem : Part.ofNode source c ∈
        (Part.ofNode source n).named.filter fun c => c.kind = "block" :=
      List.mem_filter.2 ⟨Part.mem_named hc hlisted, by simp [hck]⟩
    refine (h.ready hc).block hck fun op hop => ?_
    exact operations_subset_operationsOf (List.mem_map_of_mem hmem) hop
  case h_6 => simp_all

/-- The operations of a statement cover its identifiers. -/
theorem toStmt (h : Ready source n) :
    Covers source (Part.ofNode source n).toStmt.operations (n.identifiers .value) := by
  rw [Part.toStmt, Part.kind_ofNode]
  split
  case h_1 hkind =>
    refine h.covers_listed hkind (by decide) .value (fun _ _ => rfl) fun c hc hlisted => ?_
    refine (h.ready hc).toItem.mono fun op hop => ?_
    exact List.mem_flatMap.2 ⟨_, List.mem_map_of_mem (Part.mem_named hc hlisted), hop⟩
  case h_2 hkind => exact h.functionStmt hkind
  case h_3 hkind => exact h.classStmt hkind
  case h_4 hkind => exact h.decoratedStmt hkind
  -- All identifiers of imports and scope declarations are names.
  case h_5 hkind | h_6 hkind | h_7 hkind | h_20 hkind | h_21 hkind =>
    refine h.covers_listed hkind (by decide) .name (fun _ _ => rfl) fun c hc hlisted => ?_
    exact Node.covers_of_bound (fun _ _ _ => rfl) rfl
  case h_8 hkind | h_9 hkind | h_10 hkind =>
    exact h.regular.covers_leaf (by rw [hkind]; rfl) (by simp [hkind])
  case h_11 hkind =>
    refine h.covers_wrappedExpr hkind (by decide) (fun _ _ => rfl) fun e he => ?_
    rw [he]
    exact List.subset_append_left _ _
  -- `if`, `while`, `for`, `try` and `with`.
  case h_12 hkind =>
    refine h.ifStatement hkind (fun op hop => ?_) (fun op hop => ?_) fun c hc => ?_
    · simp [Part.readField, Stmt.operations, operationsOf, Item.ops, Expr.readOps, hop]
    · simp [Stmt.operations, operationsOf, hop]
    · refine operations_subset_operationsOf (List.mem_cons_of_mem _ (List.mem_cons_of_mem _ ?_))
      exact List.mem_map_of_mem hc
  case h_13 hkind =>
    refine h.whileStatement hkind (fun op hop => ?_) (fun op hop => ?_) fun op hop => ?_
    · simp [Part.readField, Stmt.operations, operationsOf, Item.ops, Expr.readOps, hop]
    · simp [Stmt.operations, operationsOf, hop]
    · simp [Stmt.operations, operationsOf, hop]
  case h_14 hkind =>
    refine h.forStatement hkind (fun t ht op hop => ?_) (fun op hop => ?_) (fun op hop => ?_)
      fun op hop => ?_
    · simp [ht, Stmt.operations, operationsOf, Item.ops, hop]
    · simp [Part.readField, Stmt.operations, operationsOf, Item.ops, Expr.readOps, hop]
    · simp [Stmt.operations, operationsOf, hop]
    · simp [Stmt.operations, operationsOf, hop]
  case h_15 hkind =>
    refine h.covers_kinds hkind rfl (by decide) fun childKind hck c hc heq hlisted => ?_
    refine ((h.ready hc).tryClause (heq ▸ hck)).mono ?_
    exact operations_subset_operationsOf (List.mem_map_of_mem (Part.mem_named hc hlisted))
  case h_16 hkind =>
    refine h.covers_slots hkind rfl (by decide) ?_ (List.forall_mem_nil _) ?_
    · rintro slot (_ | ⟨_, ⟨⟩⟩) c hc haccepts hfind
      refine h.bodyField "body" hc (Slot.kind_of_accepts haccepts) hfind fun op hop => ?_
      simp [Stmt.operations, operationsOf, hop]
    · rintro childKind (_ | ⟨_, ⟨⟩⟩) c hc hck hlisted
      exact h.withItems hc hck hlisted (List.subset_append_left _ _)
  -- `assert`, `del` and `raise` read what they are about.
  case h_17 hkind | h_18 hkind | h_19 hkind =>
    refine h.covers_listed hkind (by decide) .value (fun _ _ => rfl) fun c hc hlisted => ?_
    refine (h.child hc).expr.mono (List.Subset.trans (ops_subset_readOps _) fun op hop => ?_)
    have hpart : (Part.ofNode source c).meaning.expr ∈ (Part.ofNode source n).parts :=
      Part.expr_mem_parts hc hlisted
    have hitem := List.mem_map_of_mem (f := Item.read) hpart
    exact List.mem_flatMap.2 ⟨_, hitem, hop⟩
  -- Errors are excluded, and other statements are reported.
  case h_22 hkind =>
    exact absurd (by simp [NodeInfo.isBroken, NodeInfo.isError, show n.info.kind = "ERROR" from hkind])
      h.regular.whole
  case h_23 => exact covers_of_report List.mem_cons_self

/-- Every meaning of a node above covered nodes covers its identifiers. -/
theorem covered (h : Ready source n) : Covered source n where
  expr := Part.expr_ofNode source n ▸ h.toExpr
  target := Part.target_ofNode source n ▸ h.toTarget
  augmented := Part.augmented_ofNode source n ▸ h.toAugmented
  interpolations hkind := Part.interpolations_ofNode source n ▸ h.interpolations hkind
  hintReads := Part.hintReads_ofNode source n ▸ h.toHintReads
  sequence _ hvalues := h.toSequence (Part.sequence_ofNode source n ▸ hvalues)
  assignment hkind := Part.assignment_ofNode source n ▸ h.toAssignment hkind
  stmt := Part.stmt_ofNode source n ▸ h.toStmt

end Ready

/-! ### Trees -/

mutual

/-- Every node of a tree of the grammar is covered. -/
theorem covered_of_mem_subtrees :
    ∀ n : Node, (∀ d ∈ n.subtrees, d.Regular) → ∀ d ∈ n.subtrees, Covered source d
  | .mk info children, h, d, hd => by
    have hbelow := covered_of_mem_subtreesOf children fun d hd => h d (List.mem_cons_of_mem _ hd)
    rcases List.mem_cons.1 hd with rfl | hd
    · refine Ready.covered ⟨h _ List.mem_cons_self, fun c hc d hd => ?_⟩
      have hd : d ∈ Node.subtreesOf children := by
        rw [Node.subtreesOf_eq_flatMap]
        exact List.mem_flatMap.2 ⟨c, hc, hd⟩
      exact ⟨h d (List.mem_cons_of_mem _ hd), hbelow d hd⟩
    · exact hbelow d hd

/-- Every node among the subtrees of some regular nodes is covered. -/
theorem covered_of_mem_subtreesOf :
    ∀ ns : List Node, (∀ d ∈ Node.subtreesOf ns, d.Regular) →
      ∀ d ∈ Node.subtreesOf ns, Covered source d
  | [], _, d, hd => nomatch hd
  | n :: rest, h, d, hd => by
    rcases List.mem_append.1 hd with hd | hd
    · exact covered_of_mem_subtrees n (fun d hd => h d (List.mem_append_left _ hd)) d hd
    · exact covered_of_mem_subtreesOf rest (fun d hd => h d (List.mem_append_right _ hd)) d hd

end

/-- In a tree of the grammar without broken syntax every node is regular. -/
theorem regular_of_mem_subtrees (hgrammar : n.Grammatical) (hclean : n.Clean) :
    ∀ d ∈ n.subtrees, d.Regular := fun d hd =>
  have hinfo := hclean d.info (Node.info_mem_infos_of_mem_subtrees hd)
  ⟨hgrammar d hd, hinfo.1, hinfo.2⟩

/-- What is in the statements of a module covers the identifiers of its tree. -/
theorem covers_operationsOf_ofTree (hkind : n.kind = "module") (hgrammar : n.Grammatical)
    (hclean : n.Clean) :
    Covers source (operationsOf (Module.ofTree source n).body) (n.identifiers .value) := by
  have hregular := regular_of_mem_subtrees hgrammar hclean
  have hready : Ready source n := by
    refine ⟨hregular n (Node.self_mem_subtrees n), fun c hc d hd => ?_⟩
    have hd := Node.subtrees_subset_of_mem_children hc hd
    exact ⟨hregular d hd, covered_of_mem_subtrees n hregular d hd⟩
  exact hready.covers_body hkind (by decide) (fun _ _ => rfl) (List.Subset.refl _)

end Python

end NameAtlas
