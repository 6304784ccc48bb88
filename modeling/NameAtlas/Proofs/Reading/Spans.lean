import NameAtlas.Proofs.Reading.Parts
import NameAtlas.Proofs.Reading.Words

/-!
# Where the words of a tree stand

What a node means is made of the words of the nodes below it. So in a tree whose nodes lie within
one another the words in each meaning of a node lie within the node (`Part.Inside`), whatever role
the node plays, and what a definition reads lies within the definition (`withinAll_ofTree`).
-/

namespace NameAtlas.Python

open Source

namespace Part

/-- A part that lies within a span, as do the words in each of its meanings. -/
structure Inside (sp : Span) (p : Part) : Prop where
  /-- The part itself. -/
  word : p.word.Within sp
  /-- Where it is evaluated. -/
  expr : ∀ w ∈ p.meaning.expr.words, w.Within sp
  /-- Where it is assigned to. -/
  target : ∀ w ∈ p.meaning.target.words, w.Within sp
  /-- Where it is combined with a value and assigned to. -/
  augmented : ∀ w ∈ p.meaning.augmented.words, w.Within sp
  /-- Between the literal parts of a string. -/
  interpolations : ∀ e ∈ p.meaning.interpolations, ∀ w ∈ e.words, w.Within sp
  /-- Where it is an annotation. -/
  hintReads : ∀ e ∈ p.meaning.hintReads, ∀ w ∈ e.words, w.Within sp
  /-- In a sequence of values. -/
  sequence : ∀ v ∈ p.meaning.sequence.getD [], ∀ w ∈ v.2.words, w.Within sp
  /-- Where it is an assignment. -/
  assignment : ∀ w ∈ p.meaning.assignment.words, w.Within sp
  /-- Where it is a statement. -/
  stmt : p.meaning.stmt.Within sp

variable {sp : Span} {p : Part}

/-! ### What is read from the children -/

/-- Everything below the part has been read and lies within a span. -/
def InsideBelow (sp : Span) (p : Part) : Prop := ∀ c ∈ p.children, c.All (Inside sp)

/-- If everything in a part lies within a span, so does everything below it. -/
theorem InsideBelow.of_all {c : Part} (hc : c.All (Inside sp)) : c.InsideBelow sp :=
  fun _ => hc.child

/-- What is evaluated in a field lies within the span. -/
theorem InsideBelow.exprField (hp : p.InsideBelow sp) (name : String) :
    ∀ w ∈ (p.exprField name).words, w.Within sp := by
  rw [Part.exprField]
  cases h : p.field? name with
  | none => exact fun w hw => nomatch hw
  | some c => exact (hp c (mem_children_of_field? h)).self.expr

/-- The parts of a compound expression lie within the span. -/
theorem InsideBelow.mem_parts (hp : p.InsideBelow sp) {e : Expr} (he : e ∈ p.parts) :
    ∀ w ∈ e.words, w.Within sp := by
  obtain ⟨c, hc, rfl⟩ := List.mem_map.1 he
  exact (hp c (mem_children_of_named hc)).self.expr

/-- The words of a compound expression are those of its parts. -/
theorem forall_compound {es : List Expr} (outcome : Outcome)
    (h : ∀ e ∈ es, ∀ w ∈ e.words, w.Within sp) : ∀ w ∈ (Expr.compound es outcome).words, w.Within sp := by
  rw [Expr.words, wordsOf_eq_flatMap]
  intro w hw
  obtain ⟨e, he, hw⟩ := List.mem_flatMap.1 hw
  exact h e he w hw

/-! ### The roles of a part -/

/-- The interpolations of a string lie within the span. -/
theorem InsideBelow.interpolations (hp : p.InsideBelow sp) :
    ∀ e ∈ p.interpolations, ∀ w ∈ e.words, w.Within sp := by
  intro e he
  obtain ⟨c, hc, he⟩ := List.mem_flatMap.1 he
  have hc := hp c (mem_children_of_named hc)
  split at he
  · exact hc.self.interpolations e he
  · obtain rfl := List.mem_singleton.1 he
    exact (InsideBelow.of_all hc).exprField "expression"
  · cases he

/-- The arguments of a call lie within the span. -/
theorem InsideBelow.callArguments (hp : p.InsideBelow sp) :
    ∀ e ∈ p.callArguments, ∀ w ∈ e.words, w.Within sp := by
  rw [Part.callArguments]
  split
  · rename_i a ha
    have ha := hp a (mem_children_of_field? ha)
    split
    · exact fun e he => (InsideBelow.of_all ha).mem_parts he
    · simpa using ha.self.expr
  · exact fun e he => nomatch he

/-- The expression of a part lies within the span. -/
theorem InsideBelow.toExpr (hp : p.InsideBelow sp) (hword : p.word.Within sp) :
    ∀ w ∈ p.toExpr.words, w.Within sp := by
  have hparts (outcome : Outcome) : ∀ w ∈ (Expr.compound p.parts outcome).words, w.Within sp :=
    forall_compound outcome fun e he => hp.mem_parts he
  have hfield (name : String) (outcome : Outcome) :
      ∀ w ∈ (Expr.compound [p.exprField name] outcome).words, w.Within sp :=
    forall_compound outcome (by simpa using hp.exprField name)
  have hliteral (outcome : Outcome) : ∀ w ∈ (Expr.compound p.interpolations outcome).words, w.Within sp :=
    forall_compound outcome hp.interpolations
  have hoperands : ∀ w ∈ (Expr.compound [p.exprField "left", p.exprField "right"]
      .ofFirst).words, w.Within sp :=
    forall_compound _ (by simpa using ⟨hp.exprField "left", hp.exprField "right"⟩)
  have hhead : ∀ w ∈ (p.parts.head?.getD .absent).words, w.Within sp := by
    cases h : p.parts.head? with
    | none => exact fun w hw => nomatch hw
    | some e => exact hp.mem_parts (List.mem_of_head? h)
  -- Most kinds of nodes are read in one of the ways above. The others are those with words of their
  -- own or with a field that may be missing.
  rw [Part.toExpr]
  split
  case h_1 => simpa [Expr.words] using hword
  case h_2 =>
    split
    · rename_i a ha
      have ha := (hp a (mem_children_of_field? ha)).self.word
      simpa [Expr.words, or_imp, forall_and] using ⟨hp.exprField "object", ha⟩
    · exact hfield "object" _
  case h_3 =>
    split
    · rename_i f hf
      have hf := (hp f (mem_children_of_field? hf)).self.expr
      have harguments := forall_compound .unknown hp.callArguments
      exact List.forall_mem_append.2 ⟨hf, harguments⟩
    · exact fun w hw => nomatch hw
  case h_19 => exact forall_compound _ fun e he => hp.mem_parts (List.mem_of_mem_take he)
  case h_20 =>
    split
    · exact hp.exprField "value"
    · exact hfield "value" _
  all_goals first
    | exact hparts _
    | exact hfield _ _
    | exact hliteral _
    | exact hoperands
    | exact hhead
    | exact fun w hw => nomatch hw

/-- An attribute that is assigned to lies within the span. -/
theorem InsideBelow.attributeTarget (hp : p.InsideBelow sp) :
    ∀ w ∈ p.attributeTarget.words, w.Within sp := by
  rw [Part.attributeTarget]
  split
  · rename_i o a ho ha
    rw [Target.words]
    exact List.forall_mem_append.2 ⟨(hp o (mem_children_of_field? ho)).self.expr,
      List.forall_mem_singleton.2 (hp a (mem_children_of_field? ha)).self.word⟩
  · exact fun w hw => nomatch hw

/-- The target of a part lies within the span. -/
theorem InsideBelow.toTarget (hp : p.InsideBelow sp) (hword : p.word.Within sp) :
    ∀ w ∈ p.toTarget.words, w.Within sp := by
  -- The kinds of patterns all bind their named children, so they are settled before the cases.
  have hpattern : ∀ w ∈ (Target.pattern (p.named.map fun c => c.meaning.target)).words, w.Within sp := by
    rw [Target.words, targetWords_eq_flatMap]
    intro w hw
    obtain ⟨t, ht, hw⟩ := List.mem_flatMap.1 hw
    obtain ⟨c, hc, rfl⟩ := List.mem_map.1 ht
    exact (hp c (mem_children_of_named hc)).self.target w hw
  rw [Part.toTarget]
  split
  case h_1 => exact List.forall_mem_singleton.2 hword
  case h_2 => exact hp.attributeTarget
  case h_3 => exact hp.toExpr hword
  case h_4 =>
    cases h : p.named.head? with
    | none => exact fun w hw => nomatch hw
    | some c => exact (hp c (mem_children_of_named (List.mem_of_head? h))).self.target
  case h_11 => split <;> exact fun w hw => nomatch hw
  all_goals exact hpattern

/-- The target of an operator lies within the span. -/
theorem InsideBelow.toAugmented (hp : p.InsideBelow sp) (hword : p.word.Within sp) :
    ∀ w ∈ p.toAugmented.words, w.Within sp := by
  rw [Part.toAugmented]
  split
  · exact List.forall_mem_singleton.2 hword
  · exact hp.attributeTarget
  · exact hp.toExpr hword
  · exact fun w hw => nomatch hw

/-- What is read as a hint lies within the span. -/
theorem InsideBelow.toHintReads (hp : p.InsideBelow sp) (hword : p.word.Within sp) :
    ∀ e ∈ p.toHintReads, ∀ w ∈ e.words, w.Within sp := by
  have hnamed : ∀ e ∈ p.named.flatMap (fun c => c.meaning.hintReads), ∀ w ∈ e.words, w.Within sp := by
    intro e he
    obtain ⟨c, hc, he⟩ := List.mem_flatMap.1 he
    exact (hp c (mem_children_of_named hc)).self.hintReads e he
  rw [Part.toHintReads]
  split
  case h_1 => exact fun e he => nomatch he
  case h_6 => exact List.forall_mem_singleton.2 (hp.toExpr hword)
  all_goals exact hnamed

/-- The values that a part is unpacked into lie within the span. -/
theorem InsideBelow.toSequence (hp : p.InsideBelow sp) :
    ∀ v ∈ p.toSequence.getD [], ∀ w ∈ v.2.words, w.Within sp := by
  -- The kinds of sequences all have their named children, so they are settled before the cases.
  have hnamed : ∀ v ∈ p.named.map (fun c => (c.isStarred, c.meaning.expr)),
      ∀ w ∈ v.2.words, w.Within sp := by
    intro v hv
    obtain ⟨c, hc, rfl⟩ := List.mem_map.1 hv
    exact (hp c (mem_children_of_named hc)).self.expr
  have hhead : ∀ v ∈ (p.named.head?.bind fun c => c.meaning.sequence).getD [],
      ∀ w ∈ v.2.words, w.Within sp := by
    cases h : p.named.head? with
    | none => exact fun v hv => nomatch hv
    | some c => exact (hp c (mem_children_of_named (List.mem_of_head? h))).self.sequence
  rw [Part.toSequence]
  split
  case h_1 | h_2 => exact hhead
  case h_6 => exact fun v hv => nomatch hv
  all_goals exact hnamed

/-! ### Annotations and assignments -/

/-- A hint lies within the span. -/
theorem Inside.hint? {c : Part} (hc : c.Inside sp) : ∀ w ∈ hintWords c.hint?, w.Within sp := by
  rw [Part.hint?]
  split
  · rw [hintWords, wordsOf_eq_flatMap]
    intro w hw
    obtain ⟨e, he, hw⟩ := List.mem_flatMap.1 hw
    exact hc.hintReads e he w hw
  · split <;> exact fun w hw => nomatch hw

/-- The hint in a field lies within the span. -/
theorem InsideBelow.hintField? (hp : p.InsideBelow sp) (name : String) :
    ∀ w ∈ hintWords (p.hintField? name), w.Within sp := by
  rw [Part.hintField?]
  cases h : p.field? name with
  | none => exact fun w hw => nomatch hw
  | some c => exact (hp c (mem_children_of_field? h)).self.hint?

/-- What is bound in a field lies within the span. -/
theorem InsideBelow.targetField (hp : p.InsideBelow sp) (name : String) :
    ∀ w ∈ Target.words (((p.field? name).map fun c => c.meaning.target).getD .absent),
      w.Within sp := by
  cases h : p.field? name with
  | none => exact fun w hw => nomatch hw
  | some c => exact (hp c (mem_children_of_field? h)).self.target

/-- The pairs of an unpacking lie within the span if both sides do. -/
theorem forall_pairWords {left right : Part} (hleft : left.All (Inside sp))
    (hright : right.Inside sp) {pairs : List (Target × Expr)}
    (h : unpackPairs? left right = some pairs) : ∀ w ∈ pairWords pairs, w.Within sp := by
  have htargets : ∀ t ∈ left.named.map (fun c => c.meaning.target), ∀ w ∈ t.words,
      w.Within sp := by
    intro t ht
    obtain ⟨c, hc, rfl⟩ := List.mem_map.1 ht
    exact (hleft.child (mem_children_of_named hc)).self.target
  rw [unpackPairs?] at h
  split at h
  · split at h
    · rename_i values hvalues
      have hright := hright.sequence
      rw [hvalues, Option.getD_some] at hright
      dsimp only at h
      split at h
      -- A pair has its target from the left side and its value from the right side.
      · obtain rfl := Option.some.inj h
        intro w hw
        obtain ⟨pair, hpair, hw⟩ := List.mem_flatMap.1 hw
        obtain ⟨htarget, hvalue⟩ := List.of_mem_zip hpair
        obtain ⟨v, hv, hpair⟩ := List.mem_map.1 hvalue
        rcases List.mem_append.1 hw with hw | hw
        · exact hright v hv w (hpair ▸ hw)
        · exact htargets _ htarget w hw
      · cases h
    · cases h
  · cases h

/-- An assignment lies within the span. -/
theorem InsideBelow.toAssignment (hp : p.InsideBelow sp) :
    ∀ w ∈ p.toAssignment.words, w.Within sp := by
  have hhint := hp.hintField? "type"
  have htarget := hp.targetField "left"
  rw [Part.toAssignment]
  -- The value is unpacked, is an assignment itself, or is evaluated, or there is none.
  split
  · rename_i pairs hpairs
    obtain ⟨left, hleft, hpairs⟩ := Option.bind_eq_some_iff.1 hpairs
    obtain ⟨right, hright, hpairs⟩ := Option.bind_eq_some_iff.1 hpairs
    exact List.forall_mem_append.2 ⟨hhint, forall_pairWords (hp left (mem_children_of_field? hleft))
      (hp right (mem_children_of_field? hright)).self hpairs⟩
  · split
    · rename_i right hright
      have hright := (hp right (mem_children_of_field? hright)).self
      split
      · exact List.forall_mem_append.2 ⟨List.forall_mem_append.2 ⟨hhint, hright.assignment⟩,
          htarget⟩
      · exact List.forall_mem_append.2 ⟨List.forall_mem_append.2 ⟨hhint, hright.expr⟩, htarget⟩
    · exact List.forall_mem_append.2 ⟨List.forall_mem_append.2 ⟨hhint, fun w hw => nomatch hw⟩,
        htarget⟩

/-- An item of a statement lies within the span. -/
theorem toItem_within {c : Part} (hc : c.All (Inside sp)) : ∀ w ∈ c.toItem.words, w.Within sp := by
  rw [Part.toItem]
  split
  · exact hc.self.assignment
  · refine List.forall_mem_append.2 ⟨(InsideBelow.of_all hc).exprField "right", ?_⟩
    cases h : c.field? "left" with
    | none => exact fun w hw => nomatch hw
    | some d => exact (hc.child (mem_children_of_field? h)).self.augmented
  · exact hc.self.expr

/-! ### Definitions -/

/-- The block of a part lies within the span. -/
theorem InsideBelow.body (hp : p.InsideBelow sp) : WithinAll sp p.body := by
  rw [withinAll_iff]
  intro s hs
  obtain ⟨c, hc, rfl⟩ := List.mem_map.1 hs
  exact (hp c (mem_children_of_named hc)).self.stmt

/-- The block in a field lies within the span. -/
theorem InsideBelow.bodyField (hp : p.InsideBelow sp) (name : String) :
    WithinAll sp (p.bodyField name) := by
  rw [Part.bodyField]
  cases h : p.field? name with
  | none => trivial
  | some c => exact (InsideBelow.of_all (hp c (mem_children_of_field? h))).body

/-- A parameter lies within the span if its hint and its default do. -/
theorem namedParameter_within {c : Part} {name : Option Part} {hint : Option TypeHint}
    {default : Option Expr} (hhint : ∀ w ∈ hintWords hint, w.Within sp)
    (hdefault : ∀ w ∈ defaultWords default, w.Within sp) {q : Parameter}
    (h : c.namedParameter name hint default = some q) : ∀ w ∈ q.words, w.Within sp := by
  rw [namedParameter] at h
  split at h
  · obtain rfl := Option.some.inj h
    exact List.forall_mem_append.2 ⟨hhint, hdefault⟩
  · split at h
    · cases h
    · obtain rfl := Option.some.inj h
      exact fun w hw => nomatch hw

/-- A parameter lies within the span. -/
theorem parameter?_within {c : Part} (hc : c.All (Inside sp)) {q : Parameter}
    (h : c.parameter? = some q) : ∀ w ∈ q.words, w.Within sp := by
  have hnone : ∀ w ∈ hintWords none, w.Within sp := fun w hw => nomatch hw
  have hdefault : ∀ w ∈ defaultWords none, w.Within sp := fun w hw => nomatch hw
  have hhint := (InsideBelow.of_all hc).hintField? "type"
  -- A parameter that is not modeled has no words.
  have hunsupported {shape snippet : String} {location : Location}
      (h : (if c.info.malformed then none else some (.unsupported shape snippet location)) =
        some q) : ∀ w ∈ q.words, w.Within sp := by
    split at h
    · cases h
    · obtain rfl := Option.some.inj h
      exact fun w hw => nomatch hw
  rw [parameter?] at h
  split at h
  · cases h
  · split at h
    · exact namedParameter_within hnone hdefault h
    · split at h
      · split at h
        · exact namedParameter_within hhint hdefault h
        · exact hunsupported h
      · exact hunsupported h
    iterate 2
      · refine namedParameter_within hhint ?_ h
        cases hvalue : c.field? "value" with
        | none => exact fun w hw => nomatch hw
        | some v => exact (hc.child (mem_children_of_field? hvalue)).self.expr
    · cases h
    · cases h
    · exact hunsupported h

/-- A function that is defined lies within its own span. -/
theorem InsideBelow.functionStmt (hp : p.InsideBelow p.location.span) :
    p.functionStmt.Within p.location.span := by
  rw [Part.functionStmt]
  split
  · refine ⟨List.forall_mem_append.2 ⟨hp.hintField? "return_type", ?_⟩, Span.contains_self _,
      hp.bodyField "body"⟩
    -- The words of the header are those of the parameters.
    intro w hw
    obtain ⟨q, hq, hw⟩ := List.mem_flatMap.1 hw
    cases h : p.field? "parameters" with
    | none =>
      rw [h] at hq
      cases hq
    | some ps =>
      rw [h, Option.map_some, Option.getD_some] at hq
      obtain ⟨c, hc, hq⟩ := List.mem_filterMap.1 hq
      exact parameter?_within ((hp ps (mem_children_of_field? h)).child (mem_children_of_named hc))
        hq w hw
  · trivial

/-- What is given to a class lies within the span. -/
theorem classArgument_within {c : Part} (hc : c.All (Inside sp)) :
    ∀ w ∈ c.classArgument.words, w.Within sp := by
  rw [classArgument]
  split
  · exact (InsideBelow.of_all hc).exprField "value"
  · exact hc.self.expr

/-- A class that is defined lies within its own span. -/
theorem InsideBelow.classStmt (hp : p.InsideBelow p.location.span) :
    p.classStmt.Within p.location.span := by
  rw [Part.classStmt]
  split
  · refine ⟨Span.contains_self _, ?_, hp.bodyField "body"⟩
    -- The words of the header are those of the arguments.
    intro w hw
    obtain ⟨a, ha, hw⟩ := List.mem_flatMap.1 hw
    cases h : p.field? "superclasses" with
    | none =>
      rw [h] at ha
      cases ha
    | some as =>
      rw [h, Option.map_some, Option.getD_some] at ha
      obtain ⟨c, hc, rfl⟩ := List.mem_map.1 ha
      exact classArgument_within ((hp as (mem_children_of_field? h)).child
        (mem_children_of_named hc)) w hw
  · trivial

/-- Making a function static does not move it. -/
theorem markStatic_within {s : Stmt} (h : s.Within sp) : (markStatic s).Within sp := by
  cases s <;> exact h

/-- A decorated definition lies within the span. -/
theorem InsideBelow.decoratedStmt (hp : p.InsideBelow sp) : p.decoratedStmt.Within sp := by
  have hdecorators : ∀ d ∈ p.decorators, ∀ w ∈ d.2.words, w.Within sp := by
    intro d hd
    obtain ⟨c, hc, hd⟩ := List.mem_filterMap.1 hd
    obtain ⟨e, he, rfl⟩ := Option.map_eq_some_iff.1 hd
    have hc := hp c (mem_children_of_named (List.mem_filter.1 hc).1)
    exact (hc.child (mem_children_of_named (List.mem_of_head? he))).self.expr
  rw [Part.decoratedStmt]
  -- First the decorators are read, then there is the definition, if there is one.
  refine ⟨fun w hw => ?_, ?_⟩
  · obtain ⟨item, hitem, hw⟩ := List.mem_flatMap.1 hw
    obtain ⟨d, hd, rfl⟩ := List.mem_map.1 hitem
    exact hdecorators d hd w hw
  · split
    · rename_i d hd
      have hd := (hp d (mem_children_of_field? hd)).self.stmt
      split
      · exact ⟨markStatic_within hd, trivial⟩
      · exact ⟨hd, trivial⟩
    · trivial

/-! ### Compound statements -/

/-- What is read in a field lies within the span. -/
theorem InsideBelow.readField (hp : p.InsideBelow sp) (name : String) :
    (p.readField name).Within sp := by
  intro w hw
  obtain ⟨item, hitem, hw⟩ := List.mem_flatMap.1 hw
  obtain rfl := List.mem_singleton.1 hitem
  exact hp.exprField name w hw

/-- An alternative lies within the span. -/
theorem alternative_within {c : Part} (hc : c.All (Inside sp)) : c.alternative.Within sp := by
  have hc := InsideBelow.of_all hc
  rw [alternative]
  split
  · exact ⟨hc.readField "condition", hc.bodyField "consequence"⟩
  · exact hc.bodyField "body"

/-- The code behind a loop lies within the span. -/
theorem InsideBelow.loopElse (hp : p.InsideBelow sp) : WithinAll sp p.loopElse := by
  rw [Part.loopElse]
  cases h : p.field? "alternative" with
  | none => trivial
  | some a => exact (InsideBelow.of_all (hp a (mem_children_of_field? h))).bodyField "body"

/-- The target of an alias lies within the span. -/
theorem aliasTarget?_within {c : Part} (hc : c.All (Inside sp)) {t : Target}
    (h : c.aliasTarget? = some t) : ∀ w ∈ t.words, w.Within sp := by
  obtain ⟨a, ha, h⟩ := Option.bind_eq_some_iff.1 h
  have ha := hc.child (mem_children_of_field? ha)
  split at h
  · obtain ⟨d, hd, rfl⟩ := Option.map_eq_some_iff.1 h
    exact (ha.child (mem_children_of_named (List.mem_of_head? hd))).self.target
  · obtain rfl := Option.some.inj h
    exact ha.self.target

/-- Binding the target of a part, if it has one. -/
theorem bindAlias_within {c : Part} (hc : c.All (Inside sp)) :
    ∀ item ∈ c.aliasTarget?.toList.map Item.bind, ∀ w ∈ item.words, w.Within sp := by
  intro item hitem
  obtain ⟨t, ht, rfl⟩ := List.mem_map.1 hitem
  exact aliasTarget?_within hc (Option.mem_toList.1 ht)

/-- What is caught lies within the span. -/
theorem caughtAs_within {c : Part} (hc : c.All (Inside sp)) : c.caughtAs.Within sp := by
  rw [caughtAs]
  split
  · rename_i value rest hparts
    have hvalue := (InsideBelow.of_all hc).mem_parts (e := value) (by rw [hparts]; simp)
    refine ⟨?_, trivial⟩
    cases htarget : c.aliasTarget? with
    | none => exact hvalue
    | some t => exact List.forall_mem_append.2 ⟨hvalue, aliasTarget?_within hc htarget⟩
  · intro w hw
    obtain ⟨item, hitem, hw⟩ := List.mem_flatMap.1 hw
    exact bindAlias_within hc item hitem w hw

/-- A part of an `except` clause lies within the span. -/
theorem exceptStmt?_within {c : Part} (hc : c.All (Inside sp)) {s : Stmt}
    (h : c.exceptStmt? = some s) : s.Within sp := by
  rw [exceptStmt?] at h
  split at h
  · obtain rfl := Option.some.inj h
    exact (InsideBelow.of_all hc).body
  · obtain rfl := Option.some.inj h
    exact caughtAs_within hc
  · cases h

/-- Whatever is kept for later, the statements of an `except` clause lie where the parts lie that
they are read from. -/
theorem exceptBody_within (ps : List Part) (hps : ∀ c ∈ ps, c.All (Inside sp))
    (pending : Option (Expr × List Stmt))
    (hpending : ∀ value between, pending = some (value, between) →
      (∀ w ∈ value.words, w.Within sp) ∧ WithinAll sp between) :
    WithinAll sp (exceptBody pending ps) := by
  -- A value that waits for its target was read from a part in front, so the induction carries what
  -- is pending along.
  induction ps generalizing pending with
  | nil =>
    rcases pending with _ | ⟨value, between⟩
    · trivial
    · obtain ⟨hvalue, hbetween⟩ := hpending value between rfl
      exact ⟨⟨hvalue, hbetween⟩, trivial⟩
  | cons c rest ih =>
    have hc := hps c List.mem_cons_self
    have hrest := ih fun c' hc' => hps c' (List.mem_cons_of_mem c hc')
    cases hs : c.exceptStmt? with
    | some s =>
      have hs' := exceptStmt?_within hc hs
      rcases pending with _ | ⟨value, between⟩
      · simp only [exceptBody, hs]
        exact ⟨hs', hrest none nofun⟩
      · obtain ⟨hvalue, hbetween⟩ := hpending value between rfl
        simp only [exceptBody, hs]
        refine hrest _ fun value' between' heq => ?_
        obtain ⟨rfl, rfl⟩ := Prod.mk.inj (Option.some.inj heq)
        refine ⟨hvalue, ?_⟩
        rw [withinAll_iff] at hbetween ⊢
        exact List.forall_mem_append.2 ⟨hbetween, List.forall_mem_singleton.2 hs'⟩
    | none =>
      rcases pending with _ | ⟨value, between⟩
      · simp only [exceptBody, hs]
        refine hrest _ fun value' between' heq => ?_
        obtain ⟨rfl, rfl⟩ := Prod.mk.inj (Option.some.inj heq)
        exact ⟨hc.self.expr, trivial⟩
      · obtain ⟨hvalue, hbetween⟩ := hpending value between rfl
        simp only [exceptBody, hs]
        exact ⟨⟨List.forall_mem_append.2 ⟨hvalue, hc.self.target⟩, hbetween⟩, hrest none nofun⟩

/-- A clause of a `try` statement lies within the span. -/
theorem tryClause_within {c : Part} (hc : c.All (Inside sp)) : c.tryClause.Within sp := by
  have hbelow := InsideBelow.of_all hc
  have hexcept : WithinAll sp (exceptBody none c.named) :=
    exceptBody_within c.named (fun d hd => hc.child (mem_children_of_named hd)) none nofun
  rw [tryClause]
  split
  · exact hbelow.body
  · exact hexcept
  · exact hexcept
  · exact hbelow.bodyField "body"
  · refine withinAll_iff.2 fun s hs => ?_
    obtain ⟨b, hb, rfl⟩ := List.mem_map.1 hs
    exact (InsideBelow.of_all (hc.child (mem_children_of_named (List.mem_filter.1 hb).1))).body
  · trivial

/-- The items of a `with` statement lie within the span. -/
theorem InsideBelow.withItems (hp : p.InsideBelow sp) :
    ∀ item ∈ p.withItems, ∀ w ∈ item.words, w.Within sp := by
  intro item hitem
  obtain ⟨c, hc, hitem⟩ := List.mem_flatMap.1 hitem
  obtain ⟨d, hd, hitem⟩ := List.mem_flatMap.1 hitem
  have hd := (hp c (mem_children_of_named (List.mem_filter.1 hc).1)).child
    (mem_children_of_named hd)
  rw [withItem] at hitem
  split at hitem
  · rename_i value hvalue
    have hvalue := hd.child (mem_children_of_field? hvalue)
    split at hitem
    -- What is matched is read, and the alias is bound.
    · rcases List.mem_append.1 hitem with hitem | hitem
      · obtain ⟨e, he, rfl⟩ := List.mem_map.1 hitem
        exact (InsideBelow.of_all hvalue).mem_parts (List.mem_of_mem_take he)
      · exact bindAlias_within hvalue item hitem
    · obtain rfl := List.mem_singleton.1 hitem
      exact hvalue.self.expr
  · cases hitem

/-- What a node means as a statement lies within the node. -/
theorem InsideBelow.toStmt (hp : p.InsideBelow p.location.span) :
    p.toStmt.Within p.location.span := by
  have hsimple {items : List Item} (h : ∀ item ∈ items, ∀ w ∈ item.words,
      w.Within p.location.span) : (Stmt.simple items).Within p.location.span := by
    intro w hw
    obtain ⟨item, hitem, hw⟩ := List.mem_flatMap.1 hw
    exact h item hitem w hw
  rw [Part.toStmt]
  split
  case h_1 =>
    refine hsimple fun item hitem => ?_
    obtain ⟨c, hc, rfl⟩ := List.mem_map.1 hitem
    exact toItem_within (hp c (mem_children_of_named hc))
  case h_2 => exact hp.functionStmt
  case h_3 => exact hp.classStmt
  case h_4 => exact hp.decoratedStmt
  case h_11 =>
    cases h : p.parts.head? with
    | none => trivial
    | some value => exact hp.mem_parts (List.mem_of_head? h)
  -- `if`, `while`, `for`, `try` and `with`.
  case h_12 =>
    refine ⟨hp.readField "condition", hp.bodyField "consequence", withinAll_iff.2 fun s hs => ?_⟩
    obtain ⟨c, hc, rfl⟩ := List.mem_map.1 hs
    exact alternative_within (hp c (mem_children_of_fields hc))
  case h_13 => exact ⟨hp.readField "condition", hp.bodyField "body", hp.loopElse, trivial⟩
  case h_14 =>
    refine ⟨hp.readField "right", hsimple fun item hitem => ?_, hp.bodyField "body", hp.loopElse,
      trivial⟩
    obtain ⟨c, hc, rfl⟩ := Option.map_eq_some_iff.1 (Option.mem_toList.1 hitem)
    exact (hp c (mem_children_of_field? hc)).self.target
  case h_15 =>
    refine withinAll_iff.2 fun s hs => ?_
    obtain ⟨c, hc, rfl⟩ := List.mem_map.1 hs
    exact tryClause_within (hp c (mem_children_of_named hc))
  case h_16 => exact ⟨hsimple hp.withItems, hp.bodyField "body", trivial⟩
  case h_17 | h_18 | h_19 =>
    refine hsimple fun item hitem => ?_
    obtain ⟨e, he, rfl⟩ := List.mem_map.1 hitem
    exact hp.mem_parts he
  -- The other statements read nothing.
  all_goals trivial

/-! ### Trees -/

/-- What lies within a span lies within a wider one. -/
theorem Inside.mono {sp' : Span} (h : sp'.contains sp) (hp : p.Inside sp) : p.Inside sp' where
  word := Span.contains_trans h hp.word
  expr w hw := Span.contains_trans h (hp.expr w hw)
  target w hw := Span.contains_trans h (hp.target w hw)
  augmented w hw := Span.contains_trans h (hp.augmented w hw)
  interpolations e he w hw := Span.contains_trans h (hp.interpolations e he w hw)
  hintReads e he w hw := Span.contains_trans h (hp.hintReads e he w hw)
  sequence v hv w hw := Span.contains_trans h (hp.sequence v hv w hw)
  assignment w hw := Span.contains_trans h (hp.assignment w hw)
  stmt := hp.stmt.mono h

/-- What a node means lies within the node, if what is below it does. -/
theorem inside_ofChildren (source : SourceText) (info : NodeInfo) {children : List Part}
    (h : ∀ c ∈ children, c.All (Inside ⟨info.start, info.stop⟩)) :
    (ofChildren source info children).Inside ⟨info.start, info.stop⟩ := by
  -- The roles of a node are read off the node before its own meaning is known.
  let p : Part := .mk info
    ⟨source.slice info.start info.stop, source.location info.start info.stop⟩ default children
  have hp : p.InsideBelow ⟨info.start, info.stop⟩ := h
  have hword : p.word.Within ⟨info.start, info.stop⟩ := Span.contains_self _
  exact ⟨hword, hp.toExpr hword, hp.toTarget hword, hp.toAugmented hword, hp.interpolations,
    hp.toHintReads hword, hp.toSequence, hp.toAssignment, InsideBelow.toStmt (p := p) hp⟩

/-- What holds of everything in a part may be weakened. -/
theorem All.mono {P R : Part → Prop} (h : ∀ p, P p → R p) {p : Part} (hp : p.All P) : p.All R := by
  induction hp with
  | mk hp _ ih => exact .mk (h _ hp) ih

mutual

/-- In a nested tree what is read from a node lies within the node. -/
theorem inside_ofNode (source : SourceText) :
    ∀ n : Node, n.nested → (ofNode source n).All (Inside ⟨n.info.start, n.info.stop⟩)
  | .mk info children, h =>
    have hchildren := inside_ofNodes source info children h
    .mk (inside_ofChildren source info hchildren) hchildren

/-- In a tree whose nodes are nested every part below a node lies within it. -/
theorem inside_ofNodes (source : SourceText) (outer : NodeInfo) :
    ∀ ns : List Node, Node.nestedIn outer ns →
      ∀ p ∈ ofNodes source ns, p.All (Inside ⟨outer.start, outer.stop⟩)
  | [], _, p, hp => nomatch hp
  | n :: rest, h, p, hp => by
    simp only [Node.nestedIn, Bool.and_eq_true, decide_eq_true_eq] at h
    obtain ⟨⟨⟨hstart, hstop⟩, hn⟩, hrest⟩ := h
    rcases List.mem_cons.1 hp with rfl | hp
    · refine (inside_ofNode source n hn).mono fun q => Inside.mono ?_
      simp [Span.contains, hstart, hstop]
    · exact inside_ofNodes source outer rest hrest p hp

end

end Part

/-- The statements of a nested tree lie within the tree. -/
theorem withinAll_ofTree (source : SourceText) {tree : Node} (h : tree.nested) :
    WithinAll (Module.ofTree source tree).location.span (Module.ofTree source tree).body := by
  cases tree with
  | mk info children =>
    exact (Part.InsideBelow.of_all (Part.inside_ofNode source (.mk info children) h)).body

end NameAtlas.Python
