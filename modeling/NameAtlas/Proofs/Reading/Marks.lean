import NameAtlas.Proofs.Reading.Shares
import NameAtlas.Proofs.Reading.Statements

/-!
# The marks of a part

In each role that it plays a part holds the marks that the role makes (`Part.Marked`): a role is made
of the roles of the children, and it takes every child once, or it reports the part and takes none.
A child that is reached both by its place and by a field would be taken twice, and there must be none
(`Node.ReachedOnce`).
-/

namespace NameAtlas

namespace Source

/-- True if no child of a node is reached both by its place and by a field. -/
structure Node.ReachedOnce (n : Node) : Prop where
  /-- What is matched by an `as` pattern is not what it is matched as. -/
  pattern : n.kind = "as_pattern" → ∀ c ∈ (n.children.filter Node.isListed).head?,
    ∀ a ∈ n.children.find? (fun a => a.field = "alias"), c.info ≠ a.info
  /-- The items of a `with` statement are not its body. -/
  body : n.kind = "with_statement" →
    ∀ b ∈ n.children.find? (fun b => b.field = "body"), b.kind ≠ "with_clause"
  /-- The decorators of a definition are not the definition. -/
  definition : n.kind = "decorated_definition" →
    ∀ d ∈ n.children.find? (fun d => d.field = "definition"), d.kind ≠ "decorator"

instance (n : Node) : Decidable n.ReachedOnce :=
  decidable_of_iff
    ((n.kind = "as_pattern" → ∀ c ∈ (n.children.filter Node.isListed).head?,
        ∀ a ∈ n.children.find? (fun a => a.field = "alias"), c.info ≠ a.info) ∧
      (n.kind = "with_statement" →
        ∀ b ∈ n.children.find? (fun b => b.field = "body"), b.kind ≠ "with_clause") ∧
      (n.kind = "decorated_definition" →
        ∀ d ∈ n.children.find? (fun d => d.field = "definition"), d.kind ≠ "decorator"))
    ⟨fun ⟨pattern, body, definition⟩ => ⟨pattern, body, definition⟩,
      fun ⟨pattern, body, definition⟩ => ⟨pattern, body, definition⟩⟩

end Source

namespace Python

open Source

namespace Part

/-- True if no child of a part is reached both by its place and by a field. -/
structure ReachedOnce (p : Part) : Prop where
  /-- What is matched by an `as` pattern is not what it is matched as. -/
  pattern : p.kind = "as_pattern" → ∀ c a, p.named.head? = some c → p.field? "alias" = some a → c ≠ a
  /-- The items of a `with` statement are not its body. -/
  body : p.kind = "with_statement" → ∀ b, p.field? "body" = some b → b.kind ≠ "with_clause"
  /-- The decorators of a definition are not the definition. -/
  definition : p.kind = "decorated_definition" →
    ∀ d, p.field? "definition" = some d → d.kind ≠ "decorator"

/-- A part reaches no child twice if its node reaches none twice. -/
theorem reachedOnce_ofNode {source : SourceText} {n : Node} (h : n.ReachedOnce) :
    (ofNode source n).ReachedOnce := by
  refine ⟨fun hkind c a hc ha => ?_, fun hkind b hb => ?_, fun hkind d hd => ?_⟩
  all_goals rw [kind_ofNode] at hkind
  · rw [head?_named_ofNode] at hc
    rw [field?_ofNode] at ha
    obtain ⟨c', hc', rfl⟩ := Option.map_eq_some_iff.1 hc
    obtain ⟨a', ha', rfl⟩ := Option.map_eq_some_iff.1 ha
    -- Equal parts have equal infos, and those of the nodes differ.
    intro heq
    have hinfo := congrArg info heq
    rw [info_ofNode, info_ofNode] at hinfo
    exact h.pattern hkind c' hc' a' ha' hinfo
  · rw [field?_ofNode] at hb
    obtain ⟨b', hb', rfl⟩ := Option.map_eq_some_iff.1 hb
    rw [kind_ofNode]
    exact h.body hkind b' hb'
  · rw [field?_ofNode] at hd
    obtain ⟨d', hd', rfl⟩ := Option.map_eq_some_iff.1 hd
    rw [kind_ofNode]
    exact h.definition hkind d' hd'

/-- A part that holds the marks of each of its roles. -/
structure Marked (p : Part) : Prop where
  /-- No child is reached twice. -/
  once : p.ReachedOnce
  /-- Where it is evaluated. -/
  expr : p.Holds p.meaning.expr.marks
  /-- Where it is assigned to. -/
  target : p.Holds p.meaning.target.marks
  /-- Where it is combined with a value and assigned to. -/
  augmented : p.Holds p.meaning.augmented.augmentMarks
  /-- Between the literal parts of a string. -/
  interpolations : p.Holds (p.meaning.interpolations.map Expr.marks).sum
  /-- Where it is an annotation. -/
  hint : p.Holds (hintMarks p.hint?)
  /-- In an annotation around it. -/
  hintReads : p.Holds (p.meaning.hintReads.map Expr.marks).sum
  /-- Where it is an annotation and the name of a parameter besides. -/
  hintedName : p.kind = "identifier" → p.Holds (hintMarks p.hint? + {⟨.symbol, p.location⟩})
  /-- In a sequence of values. -/
  sequence : p.Holds ((p.meaning.sequence.getD []).map fun v => v.2.marks).sum
  /-- Where it is an assignment. -/
  assignment : p.Holds p.meaning.assignment.marks
  /-- Where it is a statement. -/
  stmt : p.Holds p.meaning.stmt.marks

variable {p : Part}

/-! ### What is read from the children -/

/-- Everything below the part has been read and holds its marks. -/
def MarkedBelow (p : Part) : Prop := ∀ c ∈ p.children, c.All Marked

/-- If everything in a part holds its marks, so does everything below it. -/
theorem MarkedBelow.of_all {c : Part} (hc : c.All Marked) : c.MarkedBelow := fun _ => hc.child

namespace MarkedBelow

/-- A named child holds its marks. -/
theorem named (hp : p.MarkedBelow) {c : Part} (hc : c ∈ p.named) : c.All Marked :=
  hp c (mem_children_of_named hc)

/-- The child in a field holds its marks. -/
theorem field (hp : p.MarkedBelow) {c : Part} {name : String} (hc : p.field? name = some c) :
    c.All Marked := hp c (mem_children_of_field? hc)

/-- What is evaluated in a field is held by the children in the field. -/
theorem exprField (hp : p.MarkedBelow) (name : String) :
    HeldAmong (p.fields name) (p.exprField name).marks := by
  refine heldAmong_field (fun hnone => ?_) fun c hc => ?_
  · rw [Part.exprField, hnone]
    rfl
  · rw [Part.exprField, hc]
    exact (hp.field hc).self.expr

/-- The parts of a compound expression are held by the named children. -/
theorem parts (hp : p.MarkedBelow) : p.Holds (p.parts.map Expr.marks).sum := by
  rw [Part.parts, List.map_map]
  exact holds_named fun c hc => (hp.named hc).self.expr

/-- Some of the named children, where they are evaluated. -/
theorem of_sublist_parts (hp : p.MarkedBelow) {es : List Expr} (h : es.Sublist p.parts) :
    p.Holds (es.map Expr.marks).sum := by
  refine .mono ?_ hp.parts
  exact (h.map Expr.marks).sum_le_sum fun _ _ => Multiset.zero_le _

/-- The first of the named children, where it is evaluated. -/
theorem head?_parts (hp : p.MarkedBelow) : p.Holds (optionMarks Expr.marks p.parts.head?) := by
  cases h : p.parts with
  | nil => exact .zero p
  | cons e rest =>
    have he : [e].Sublist p.parts := by simp [h]
    simpa using hp.of_sublist_parts he

end MarkedBelow

/-! ### Expressions -/

/-- Sums over lists that are put together from lists. -/
theorem sum_map_flatMap {α β : Type} (l : List α) (f : α → List β) (g : β → Multiset Mark) :
    ((l.flatMap f).map g).sum = (l.map fun a => ((f a).map g).sum).sum := by
  induction l with
  | nil => rfl
  | cons a rest ih => simp [ih]

/-- The interpolations of a string are held by its children. -/
theorem MarkedBelow.interpolations (hp : p.MarkedBelow) :
    p.Holds (p.interpolations.map Expr.marks).sum := by
  rw [Part.interpolations, sum_map_flatMap]
  refine holds_named fun c hc => ?_
  have hc := hp.named hc
  split
  · exact hc.self.interpolations
  · simpa using ((MarkedBelow.of_all hc).exprField "expression").holds_of_field
  · exact .zero c

/-- The arguments of a call are held by what stands in the field for them. -/
theorem MarkedBelow.callArguments (hp : p.MarkedBelow) :
    HeldAmong (p.fields "arguments") (p.callArguments.map Expr.marks).sum := by
  refine heldAmong_field (fun hnone => ?_) fun a ha => ?_
  · rw [Part.callArguments, hnone]
    rfl
  · rw [Part.callArguments, ha]
    dsimp only
    split
    · exact (MarkedBelow.of_all (hp.field ha)).parts
    · simpa using (hp.field ha).self.expr

/-- The name in a field. -/
theorem heldAmong_nameField {name : String} {a : Part} (ha : p.field? name = some a) {ms : Multiset Mark}
    (h : a.Holds ms) : HeldAmong (p.fields name) ms := by
  refine heldAmong_field (fun hnone => ?_) fun a' ha' => ?_
  · rw [ha] at hnone
    cases hnone
  · obtain rfl := Option.some.inj (ha.symm.trans ha')
    exact h

/-- What stands in the field for an attribute is a name. -/
theorem isName_of_field? {a : Part} (ha : p.field? "attribute" = some a) : a.IsName := by
  have hfield := List.find?_some ha
  exact .inr (of_decide_eq_true hfield)

/-- A part holds the marks of its expression. -/
theorem MarkedBelow.toExpr (hp : p.MarkedBelow) : p.Holds p.toExpr.marks := by
  have hparts (outcome : Outcome) : p.Holds (Expr.compound p.parts outcome).marks := by
    rw [Expr.marks_compound]
    exact hp.parts
  have hfield (name : String) (outcome : Outcome) :
      p.Holds (Expr.compound [p.exprField name] outcome).marks := by
    simpa using (hp.exprField name).holds_of_field
  have hliteral (outcome : Outcome) : p.Holds (Expr.compound p.interpolations outcome).marks := by
    rw [Expr.marks_compound]
    exact hp.interpolations
  have hoperands : p.Holds (Expr.compound [p.exprField "left", p.exprField "right"] .ofFirst).marks := by
    simpa using ((hp.exprField "left").append (hp.exprField "right")).holds
      (subperm_fields ["left", "right"] (by simp) (by simp))
  rw [Part.toExpr]
  split
  case h_1 hkind => exact .reference (.inl hkind)
  case h_2 =>
    split
    · rename_i a ha
      have hmember := heldAmong_nameField ha (Holds.reference (isName_of_field? ha))
      rw [Expr.marks_attribute]
      exact ((hp.exprField "object").append hmember).holds
        (subperm_fields ["object", "attribute"] (by simp) (by simp))
    · exact hfield "object" _
  case h_3 =>
    split
    · rename_i f hf
      have hcallee := heldAmong_nameField hf (hp.field hf).self.expr
      rw [Expr.marks_call]
      exact (hcallee.append hp.callArguments).holds
        (subperm_fields ["function", "arguments"] (by simp) (by simp))
    · exact .zero p
  case h_19 =>
    rw [Expr.marks_compound]
    exact hp.of_sublist_parts (List.take_sublist 1 p.parts)
  case h_20 =>
    split
    · rename_i name hname
      have hbound := heldAmong_nameField hname (.symbol name)
      rw [Expr.marks_walrus]
      exact ((hp.exprField "value").append hbound).holds
        (subperm_fields ["value", "name"] (by simp) (by simp))
    · exact hfield "value" _
  -- Literals, operators with one and two operands, expressions in parentheses, and no expressions.
  case h_4 | h_5 => exact hliteral _
  case h_6 | h_7 | h_8 | h_9 | h_10 | h_33 | h_34 => exact .zero p
  case h_13 | h_14 | h_32 => exact hfield _ _
  case h_11 | h_12 => exact hoperands
  case h_17 | h_18 =>
    have hhead := hp.head?_parts
    cases h : p.parts.head? <;> simpa [h] using hhead
  case h_35 => exact .report p
  all_goals exact hparts _

/-! ### Targets -/

/-- An attribute holds its marks where it is assigned to, with or without an operator. -/
theorem MarkedBelow.attributeTarget (hp : p.MarkedBelow) :
    p.Holds p.attributeTarget.marks ∧ p.Holds p.attributeTarget.augmentMarks := by
  rw [Part.attributeTarget]
  split
  · rename_i o a ho ha
    have hobject := heldAmong_nameField ho (hp.field ho).self.expr
    have hmember := heldAmong_nameField ha (.name (isName_of_field? ha))
    have hboth := (hobject.append hmember).holds (p := p)
      (subperm_fields ["object", "attribute"] (by simp) (by simp))
    rw [Target.marks_attribute, Target.augmentMarks_attribute]
    exact ⟨hboth, hboth⟩
  · exact ⟨.zero p, .zero p⟩

/-- A part holds the marks of its target. -/
theorem MarkedBelow.toTarget (hp : p.MarkedBelow) : p.Holds p.toTarget.marks := by
  -- The kinds of patterns all bind their named children, so they are settled before the cases.
  have hpattern : p.Holds (Target.pattern (p.named.map fun c => c.meaning.target)).marks := by
    rw [Target.marks_pattern, List.map_map]
    exact holds_named fun c hc => (hp.named hc).self.target
  rw [Part.toTarget]
  split
  case h_1 => exact .symbol p
  case h_2 => exact hp.attributeTarget.1
  case h_3 =>
    rw [Target.marks_element]
    exact hp.toExpr
  case h_4 =>
    refine holds_head? (fun hnone => ?_) fun c hc hhead => ?_
    · rw [hnone]
      rfl
    · rw [hhead]
      exact (hp.named hc).self.target
  case h_11 =>
    split
    · exact .zero p
    · exact .report p
  all_goals exact hpattern

/-- A part holds the marks of its target where it is combined with a value. -/
theorem MarkedBelow.toAugmented (hp : p.MarkedBelow) : p.Holds p.toAugmented.augmentMarks := by
  rw [Part.toAugmented]
  split
  case h_1 hkind => exact .name (.inl hkind)
  case h_2 => exact hp.attributeTarget.2
  case h_3 =>
    rw [Target.augmentMarks_element]
    exact hp.toExpr
  case h_4 => exact .report p

/-! ### Annotations -/

/-- A part holds the marks of what is read in it as a hint. -/
theorem MarkedBelow.toHintReads (hp : p.MarkedBelow) :
    p.Holds (p.toHintReads.map Expr.marks).sum := by
  have hnamed : p.Holds ((p.named.flatMap fun c => c.meaning.hintReads).map Expr.marks).sum := by
    rw [sum_map_flatMap]
    exact holds_named fun c hc => (hp.named hc).self.hintReads
  rw [Part.toHintReads]
  split
  case h_1 => exact .zero p
  case h_6 => simpa using hp.toExpr
  all_goals exact hnamed

/-- An annotation reads what it reads, or it is reported. -/
theorem holds_hint? (h : p.Holds (p.meaning.hintReads.map Expr.marks).sum) :
    p.Holds (hintMarks p.hint?) := by
  rw [hint?]
  split
  · rw [hintMarks_form]
    exact h
  · split
    · exact .zero p
    · exact .report p

/-- The hint in a field is held by the children in the field. -/
theorem MarkedBelow.hintField? (hp : p.MarkedBelow) (name : String) :
    HeldAmong (p.fields name) (hintMarks (p.hintField? name)) := by
  refine heldAmong_field (fun hnone => ?_) fun c hc => ?_
  · rw [Part.hintField?, hnone]
    rfl
  · rw [Part.hintField?, hc]
    exact (hp.field hc).self.hint

/-! ### Assignments -/

/-- A part holds the marks of the values that it is unpacked into. -/
theorem MarkedBelow.toSequence (hp : p.MarkedBelow) :
    p.Holds ((p.toSequence.getD []).map fun v => v.2.marks).sum := by
  -- The kinds of sequences all have their named children, so they are settled before the cases.
  have hnamed : p.Holds ((p.named.map fun c => (c.isStarred, c.meaning.expr)).map
      fun v => v.2.marks).sum := by
    rw [List.map_map]
    exact holds_named fun c hc => (hp.named hc).self.expr
  have hhead : p.Holds (((p.named.head?.bind fun c => c.meaning.sequence).getD []).map
      fun v => v.2.marks).sum := by
    refine holds_head? (fun hnone => ?_) fun c hc hhead => ?_
    · rw [hnone]
      rfl
    · rw [hhead]
      exact (hp.named hc).self.sequence
  rw [Part.toSequence]
  split
  case h_1 | h_2 => exact hhead
  case h_6 => exact .zero p
  all_goals exact hnamed

/-- What is bound in a field is held by the children in the field. -/
theorem MarkedBelow.targetField (hp : p.MarkedBelow) (name : String) :
    HeldAmong (p.fields name)
      (Target.marks (((p.field? name).map fun c => c.meaning.target).getD .absent)) := by
  refine heldAmong_field (fun hnone => ?_) fun c hc => ?_
  · rw [hnone]
    rfl
  · rw [hc]
    exact (hp.field hc).self.target

/-- Targets and values that belong together make no other marks than all targets and all values. -/
theorem sum_marks_zip_le (targets : List Target) (values : List Expr) :
    ((targets.zip values).map fun pair => pair.2.marks + pair.1.marks).sum ≤
      (values.map Expr.marks).sum + (targets.map Target.marks).sum := by
  induction targets generalizing values with
  | nil => exact Multiset.zero_le _
  | cons t targets ih =>
    cases values with
    | nil => exact Multiset.zero_le _
    | cons v values =>
      simp only [List.zip_cons_cons, List.map_cons, List.sum_cons]
      rw [add_add_add_comm]
      exact add_le_add_right (ih values) _

/-- A part holds the marks of its assignment. -/
theorem MarkedBelow.toAssignment (hp : p.MarkedBelow) : p.Holds p.toAssignment.marks := by
  have hhint := hp.hintField? "type"
  have htarget := hp.targetField "left"
  rcases toAssignment_cases p with ⟨left, right, values, hleft, hright, -, hvalues, -, heq⟩ |
    ⟨right, hright, -, heq⟩ | ⟨-, heq⟩
  -- Targets and values are paired by position; a pair takes one child of each side.
  · have htargets : left.Holds ((left.named.map fun c => c.meaning.target).map Target.marks).sum := by
      rw [List.map_map]
      exact holds_named fun c hc => ((MarkedBelow.of_all (hp.field hleft)).named hc).self.target
    have hvalues' : right.Holds ((values.map Prod.snd).map Expr.marks).sum := by
      have hsequence := (hp.field hright).self.sequence
      rw [hvalues, Option.getD_some] at hsequence
      rwa [List.map_map]
    have hpairs := (heldAmong_nameField hright hvalues').append (heldAmong_nameField hleft htargets)
    rw [heq, Assignment.marks_unpack]
    exact .mono (add_le_add_right (sum_marks_zip_le _ _) _)
      ((hhint.append hpairs).holds (subperm_fields ["type", "right", "left"] (by simp) (by simp)))
  · have hvalue := heldAmong_nameField hright (hp.field hright).self.assignment
    rw [heq, Assignment.marks_chained]
    exact ((hhint.append hvalue).append htarget).holds
      (subperm_fields ["type", "right", "left"] (by simp) (by simp))
  · rw [heq, Assignment.marks_plain]
    exact ((hhint.append (hp.exprField "right")).append htarget).holds
      (subperm_fields ["type", "right", "left"] (by simp) (by simp))

/-- A part holds the marks of the item that it is in a statement. -/
theorem toItem_holds {c : Part} (hc : c.All Marked) : c.Holds c.toItem.marks := by
  rw [Part.toItem]
  split
  · rw [Item.marks_assign]
    exact hc.self.assignment
  · have hbelow := MarkedBelow.of_all hc
    -- The target of an operator is read and bound, and still is one child.
    have htarget : HeldAmong (c.fields "left")
        (Target.augmentMarks (((c.field? "left").map fun d => d.meaning.augmented).getD .absent)) := by
      refine heldAmong_field (fun hnone => ?_) fun d hd => ?_
      · rw [hnone]
        rfl
      · rw [hd]
        exact (hbelow.field hd).self.augmented
    rw [Item.marks_augment]
    exact ((hbelow.exprField "right").append htarget).holds
      (subperm_fields ["right", "left"] (by simp) (by simp))
  · rw [Item.marks_read]
    exact hc.self.expr

/-! ### Definitions -/

/-- A part holds the marks of its block. -/
theorem MarkedBelow.body (hp : p.MarkedBelow) : p.Holds (p.body.map Stmt.marks).sum := by
  rw [Part.body, List.map_map]
  exact holds_named fun c hc => (hp.named hc).self.stmt

/-- The block in a field is held by the children in the field. -/
theorem MarkedBelow.bodyField (hp : p.MarkedBelow) (name : String) :
    HeldAmong (p.fields name) ((p.bodyField name).map Stmt.marks).sum := by
  refine heldAmong_field (fun hnone => ?_) fun c hc => ?_
  · rw [Part.bodyField, hnone]
    rfl
  · rw [Part.bodyField, hc]
    exact (MarkedBelow.of_all (hp.field hc)).body

/-- The marks of what a parameter declares, if anything. -/
theorem namedParameter_marks {name : Option Part} {hint : Option TypeHint} {default : Option Expr}
    (h : ∀ n, name = some n → n.kind = "identifier" →
      p.Holds (hintMarks hint + optionMarks Expr.marks default + {⟨.symbol, n.location⟩})) :
    p.Holds (optionMarks Parameter.marks (p.namedParameter name hint default)) := by
  rw [namedParameter]
  split
  · rename_i n hn
    -- A parameter whose name is no identifier is reported, unless it is malformed.
    obtain ⟨hname, hkind⟩ := Option.filter_eq_some_iff.1 hn
    simp only [Bool.and_eq_true, decide_eq_true_eq] at hkind
    rw [optionMarks_some, Parameter.marks_named]
    exact h n hname hkind.1
  · split
    · exact .zero p
    · exact .report p

/-- An annotated parameter. The name may be found again as the annotation, as it is found by its
place and the annotation by its field. -/
theorem MarkedBelow.typedParameter (hp : p.MarkedBelow) {name : Part} (hname : name ∈ p.named)
    (hkind : name.kind = "identifier") :
    p.Holds (hintMarks (p.hintField? "type") + {⟨.symbol, name.location⟩}) := by
  -- The field for the hint may hold the name itself, which is then hint and name in one.
  have hmem := mem_children_of_named hname
  cases htype : p.field? "type" with
  | none =>
    rw [Part.hintField?, htype, Option.bind_none, hintMarks_none, zero_add]
    exact holds_child hmem (.symbol name)
  | some c =>
    rw [Part.hintField?, htype, Option.bind_some]
    by_cases hc : c = name
    · have hboth := (hp.named hname).self.hintedName hkind
      rw [hc]
      exact holds_child hmem hboth
    · have hhint := (hp.field htype).self.hint
      exact ((HeldAmong.singleton hhint).append (.singleton (.symbol name))).holds
        (subperm_pair (mem_children_of_field? htype) hmem hc)

/-- A part holds the marks of the parameter that it declares. -/
theorem parameter?_holds {c : Part} (hc : c.All Marked) :
    c.Holds (optionMarks Parameter.marks c.parameter?) := by
  have hbelow := MarkedBelow.of_all hc
  -- A parameter that is not modeled is reported, unless it is broken.
  have hunsupported (shape snippet : String) : c.Holds (optionMarks Parameter.marks
      (if c.info.malformed then none else some (.unsupported shape snippet c.location))) := by
    split
    · exact .zero c
    · exact .report c
  have hdefault : c.Holds (optionMarks Parameter.marks (c.namedParameter (c.field? "name")
      (c.hintField? "type") ((c.field? "value").map fun d => d.meaning.expr))) := by
    refine namedParameter_marks fun n hn _ => ?_
    have hvalue : HeldAmong (c.fields "value")
        (optionMarks Expr.marks ((c.field? "value").map fun d => d.meaning.expr)) := by
      refine heldAmong_field (fun hnone => ?_) fun d hd => ?_
      · rw [hnone]
        rfl
      · rw [hd]
        exact (hbelow.field hd).self.expr
    exact (((hbelow.hintField? "type").append hvalue).append
      (heldAmong_nameField hn (.symbol n))).holds
        (subperm_fields ["type", "value", "name"] (by simp) (by simp))
  rw [parameter?]
  split
  · exact .zero c
  split
  · refine namedParameter_marks fun n hn _ => ?_
    obtain rfl := Option.some.inj hn
    simpa using Holds.symbol c
  · split
    · rename_i name hname
      split
      · rename_i hkind
        refine namedParameter_marks fun n hn _ => ?_
        obtain rfl := Option.some.inj hn
        simpa using hbelow.typedParameter (List.mem_of_head? hname) hkind
      · exact hunsupported _ _
    · exact hunsupported _ _
  · exact hdefault
  · exact hdefault
  · exact .zero c
  · exact .zero c
  · exact hunsupported _ _

/-- What may be missing makes no marks if it is. -/
theorem sum_marks_filterMap {α β : Type} (l : List α) (f : α → Option β) (g : β → Multiset Mark) :
    ((l.filterMap f).map g).sum = (l.map fun a => optionMarks g (f a)).sum := by
  induction l with
  | nil => rfl
  | cons a rest ih =>
    rw [List.filterMap_cons]
    cases h : f a <;> simp [ih, h]

/-- A list of type parameters is reported. -/
theorem heldAmong_typeParameters (p : Part) :
    HeldAmong (p.fields "type_parameters") (optionMarks reportMarks p.typeParameters?) := by
  refine heldAmong_field (fun hnone => ?_) fun c hc => ?_
  · rw [typeParameters?, hnone]
    rfl
  · rw [typeParameters?, hc]
    exact .report c

/-- A part holds the marks of the function that it defines. -/
theorem MarkedBelow.functionStmt (hp : p.MarkedBelow) : p.Holds p.functionStmt.marks := by
  have hparameters : HeldAmong (p.fields "parameters") (List.map Parameter.marks
      (((p.field? "parameters").map fun ps => ps.named.filterMap parameter?).getD [])).sum := by
    refine heldAmong_field (fun hnone => ?_) fun ps hps => ?_
    · rw [hnone]
      rfl
    · rw [hps, Option.map_some, Option.getD_some, sum_marks_filterMap]
      exact holds_named fun c hc =>
        parameter?_holds ((MarkedBelow.of_all (hp.field hps)).named hc)
  -- Each field is taken once: type parameters, result, name, parameters and body.
  rw [Part.functionStmt]
  split
  · rename_i name hname
    rw [Stmt.marks_function, FunctionHeader.marks]
    have hhead := (heldAmong_typeParameters p).append (hp.hintField? "return_type")
    exact (((hhead.append (heldAmong_nameField hname (.symbol name))).append hparameters).append
      (hp.bodyField "body")).holds
        (subperm_fields ["type_parameters", "return_type", "name", "parameters", "body"] (by simp)
          (by simp))
  · exact .zero p

/-- A part holds the marks of what it gives to a class. -/
theorem classArgument_holds {c : Part} (hc : c.All Marked) : c.Holds c.classArgument.marks := by
  rw [classArgument]
  split
  · exact ((MarkedBelow.of_all hc).exprField "value").holds_of_field
  · exact hc.self.expr

/-- A part holds the marks of the class that it defines. -/
theorem MarkedBelow.classStmt (hp : p.MarkedBelow) : p.Holds p.classStmt.marks := by
  have harguments : HeldAmong (p.fields "superclasses") (List.map ClassArgument.marks
      (((p.field? "superclasses").map fun as => as.named.map classArgument).getD [])).sum := by
    refine heldAmong_field (fun hnone => ?_) fun as has => ?_
    · rw [hnone]
      rfl
    · rw [has, Option.map_some, Option.getD_some, List.map_map]
      exact holds_named fun c hc =>
        classArgument_holds ((MarkedBelow.of_all (hp.field has)).named hc)
  -- Each field is taken once: type parameters, name, bases and body.
  rw [Part.classStmt]
  split
  · rename_i name hname
    rw [Stmt.marks_class, ClassHeader.marks]
    have hhead := (heldAmong_typeParameters p).append (heldAmong_nameField hname (.symbol name))
    exact ((hhead.append harguments).append (hp.bodyField "body")).holds
      (subperm_fields ["type_parameters", "name", "superclasses", "body"] (by simp) (by simp))
  · exact .zero p

/-- Making a function static leaves its marks. -/
theorem marks_markStatic (s : Stmt) : (markStatic s).marks = s.marks := by
  cases s with
  | function header body =>
    rw [markStatic, Stmt.marks_function, Stmt.marks_function]
    rfl
  | _ => rfl

/-- A part holds the marks of its decorators and of what they decorate. -/
theorem MarkedBelow.decoratedStmt (hp : p.MarkedBelow)
    (honce : ∀ d, p.field? "definition" = some d → d.kind ≠ "decorator") :
    p.Holds p.decoratedStmt.marks := by
  let decorators := p.named.filter fun c => c.kind = "decorator"
  have hdecorators : HeldAmong decorators
      (Stmt.simple (p.decorators.map fun d => .read d.2)).marks := by
    rw [Stmt.marks_simple, List.map_map, Part.decorators, sum_marks_filterMap]
    refine .map fun c hc => ?_
    have hc := hp.named (List.mem_filter.1 hc).1
    refine holds_head? (fun hnone => ?_) fun e he hhead => ?_
    · rw [hnone]
      rfl
    · rw [hhead, Option.map_some, optionMarks_some, Function.comp_apply, Item.marks_read]
      exact ((MarkedBelow.of_all hc).named he).self.expr
  -- Decorators are told by their kind and the definition by its field, so the two might be one.
  have hfilter : decorators =
      p.children.filter fun c => c.kind = "decorator" && (c.info.named && c.kind ≠ "comment") :=
    List.filter_filter
  rw [Part.decoratedStmt, Stmt.marks_block, List.map_cons, List.sum_cons]
  cases hd : p.field? "definition" with
  | none =>
    rw [List.map_nil, List.sum_nil, add_zero]
    exact hdecorators.holds (List.filter_sublist.trans List.filter_sublist).subperm
  | some d =>
    have hstmt : (Stmt.marks (if p.decorators.any fun d => isStaticDecorator d.1 then
        markStatic d.meaning.stmt else d.meaning.stmt)) = d.meaning.stmt.marks := by
      split
      · exact marks_markStatic _
      · rfl
    rw [List.map_singleton, List.sum_singleton, hstmt]
    refine (hdecorators.append (.singleton (hp.field hd).self.stmt)).holds ?_
    rw [hfilter]
    exact subperm_filter_append (mem_children_of_field? hd) (by simp [honce d hd])

/-! ### Compound statements -/

/-- What is read in a field is held by the children in the field. -/
theorem MarkedBelow.readField (hp : p.MarkedBelow) (name : String) :
    HeldAmong (p.fields name) (p.readField name).marks := by
  simpa [Part.readField] using hp.exprField name

/-- A part holds the marks of the alternative that it is. -/
theorem alternative_holds {c : Part} (hc : c.All Marked) : c.Holds c.alternative.marks := by
  have hbelow := MarkedBelow.of_all hc
  rw [alternative]
  split
  · rw [Stmt.marks_block, List.map_cons, List.sum_cons]
    exact ((hbelow.readField "condition").append (hbelow.bodyField "consequence")).holds
      (subperm_fields ["condition", "consequence"] (by simp) (by simp))
  · rw [Stmt.marks_block]
    exact (hbelow.bodyField "body").holds_of_field

/-- The code behind a loop is held by the children in its field. -/
theorem MarkedBelow.loopElse (hp : p.MarkedBelow) :
    HeldAmong (p.fields "alternative") (p.loopElse.map Stmt.marks).sum := by
  refine heldAmong_field (fun hnone => ?_) fun a ha => ?_
  · rw [Part.loopElse, hnone]
    rfl
  · rw [Part.loopElse, ha]
    exact ((MarkedBelow.of_all (hp.field ha)).bodyField "body").holds_of_field

/-- The target behind `as` is held by the alias, or by what stands in it. -/
theorem MarkedBelow.aliasTarget? (hp : p.MarkedBelow) {a : Part} (ha : p.field? "alias" = some a) :
    a.Holds (optionMarks Target.marks p.aliasTarget?) := by
  have ha' := hp.field ha
  rw [Part.aliasTarget?, ha, Option.bind_some]
  split
  · refine holds_head? (fun hnone => ?_) fun c hc hhead => ?_
    · rw [hnone]
      rfl
    · rw [hhead, Option.map_some, optionMarks_some]
      exact ((MarkedBelow.of_all ha').named hc).self.target
  · exact ha'.self.target

/-- What is matched by an `as` pattern and what it is matched as. -/
theorem asPattern_holds {c : Part} (hc : c.All Marked) (hkind : c.kind = "as_pattern") :
    c.Holds (optionMarks Expr.marks c.parts.head? + optionMarks Target.marks c.aliasTarget?) := by
  have hbelow := MarkedBelow.of_all hc
  have hvalue {v : Part} (hv : c.named.head? = some v) :
      v.Holds (optionMarks Expr.marks c.parts.head?) := by
    rw [Part.parts, List.head?_map, hv]
    exact (hbelow.named (List.mem_of_head? hv)).self.expr
  -- What is matched and the alias are two children, as no child is reached twice.
  cases hv : c.named.head? with
  | none =>
    rw [Part.parts, List.head?_map, hv, Option.map_none, optionMarks_none, zero_add]
    cases ha : c.field? "alias" with
    | none =>
      rw [Part.aliasTarget?, ha]
      exact .zero c
    | some a =>
      exact holds_child (mem_children_of_field? ha) (hbelow.aliasTarget? ha)
  | some v =>
    have hmem := mem_children_of_named (List.mem_of_head? hv)
    cases ha : c.field? "alias" with
    | none =>
      rw [Part.aliasTarget?, ha, Option.bind_none, optionMarks_none, add_zero]
      exact holds_child hmem (hvalue hv)
    | some a =>
      exact ((HeldAmong.singleton (hvalue hv)).append (.singleton (hbelow.aliasTarget? ha))).holds
        (subperm_pair hmem (mem_children_of_field? ha) (hc.self.once.pattern hkind v a hv ha))

/-- What is caught has the marks of the exception and of the name for it. -/
theorem marks_caughtAs (c : Part) :
    c.caughtAs.marks = optionMarks Expr.marks c.parts.head? + optionMarks Target.marks c.aliasTarget? := by
  rw [caughtAs]
  split
  · rename_i value rest hparts
    rw [hparts, Stmt.marks_caught]
    simp
  · rename_i hparts
    rw [hparts, Stmt.marks_simple]
    cases c.aliasTarget? <;> simp

/-- A part holds the marks of what it is in an `except` clause. -/
theorem exceptStmt?_holds {c : Part} (hc : c.All Marked) {s : Stmt} (h : c.exceptStmt? = some s) :
    c.Holds s.marks := by
  rw [exceptStmt?] at h
  split at h
  · obtain rfl := Option.some.inj h
    rw [Stmt.marks_block]
    exact (MarkedBelow.of_all hc).body
  · rename_i hkind
    obtain rfl := Option.some.inj h
    rw [marks_caughtAs]
    exact asPattern_holds hc hkind
  · cases h

/-- The marks of an exception whose target is still to come, and of what stands between. -/
def pendingMarks (pending : Expr × List Stmt) : Multiset Mark :=
  pending.1.marks + (pending.2.map Stmt.marks).sum

/-- Whatever is kept for later, each part of an `except` clause is done once. -/
theorem exceptBody_heldAmong (ps : List Part) (hps : ∀ c ∈ ps, c.All Marked)
    (pending : Option (Expr × List Stmt)) :
    ∃ ms, HeldAmong ps ms ∧
      ((exceptBody pending ps).map Stmt.marks).sum = optionMarks pendingMarks pending + ms := by
  -- The induction is on the parts that are left, for any exception that is waiting for its name.
  induction ps generalizing pending with
  | nil =>
    refine ⟨0, .zero [], ?_⟩
    rcases pending with _ | ⟨value, between⟩
    · rfl
    · simp [exceptBody, pendingMarks]
  | cons c rest ih =>
    have hc := hps c List.mem_cons_self
    have hrest := ih fun c' hc' => hps c' (List.mem_cons_of_mem c hc')
    cases hs : c.exceptStmt? with
    | some s =>
      have hs' := exceptStmt?_holds hc hs
      rcases pending with _ | ⟨value, between⟩
      · obtain ⟨ms, hms, hsum⟩ := hrest none
        refine ⟨s.marks + ms, .cons hs' hms, ?_⟩
        simp only [exceptBody, hs, List.map_cons, List.sum_cons, hsum, optionMarks_none, zero_add]
      · obtain ⟨ms, hms, hsum⟩ := hrest (some (value, between ++ [s]))
        refine ⟨s.marks + ms, .cons hs' hms, ?_⟩
        simp only [exceptBody, hs, hsum, optionMarks_some, pendingMarks, List.map_append,
          List.sum_append, List.map_singleton, List.sum_singleton, add_assoc]
    | none =>
      rcases pending with _ | ⟨value, between⟩
      · obtain ⟨ms, hms, hsum⟩ := hrest (some (c.meaning.expr, []))
        refine ⟨c.meaning.expr.marks + ms, .cons hc.self.expr hms, ?_⟩
        simp only [exceptBody, hs, hsum, optionMarks_some, optionMarks_none, pendingMarks,
          List.map_nil, List.sum_nil, add_zero, zero_add]
      · obtain ⟨ms, hms, hsum⟩ := hrest none
        refine ⟨c.meaning.target.marks + ms, .cons hc.self.target hms, ?_⟩
        simp only [exceptBody, hs, List.map_cons, List.sum_cons, hsum, optionMarks_some,
          optionMarks_none, pendingMarks, Stmt.marks_caught, zero_add, add_assoc]

/-- A part holds the marks of the clause of a `try` statement that it is. -/
theorem tryClause_holds {c : Part} (hc : c.All Marked) : c.Holds c.tryClause.marks := by
  have hbelow := MarkedBelow.of_all hc
  have hexcept : c.Holds (Stmt.block (exceptBody none c.named)).marks := by
    obtain ⟨ms, hms, hsum⟩ := exceptBody_heldAmong c.named (fun d hd => hbelow.named hd) none
    rw [Stmt.marks_block, hsum, optionMarks_none, zero_add]
    exact hms.holds List.filter_sublist.subperm
  -- The clauses for exceptions are read in the same way; each other kind reads its own children.
  rw [tryClause]
  split
  · rw [Stmt.marks_block]
    exact hbelow.body
  · exact hexcept
  · exact hexcept
  · rw [Stmt.marks_block]
    exact (hbelow.bodyField "body").holds_of_field
  · rw [Stmt.marks_block, List.map_map]
    refine (HeldAmong.map fun b hb => ?_).holds
      (List.filter_sublist.trans List.filter_sublist).subperm
    rw [Function.comp_apply, Stmt.marks_block]
    exact (MarkedBelow.of_all (hbelow.named (List.mem_filter.1 hb).1)).body
  · exact .zero c

/-- An item of a `with` statement. -/
theorem withItem_holds {c : Part} (hc : c.All Marked) : c.Holds (c.withItem.map Item.marks).sum := by
  rw [withItem]
  split
  · rename_i value hvalue
    have hvalue' := (MarkedBelow.of_all hc).field hvalue
    refine holds_child (mem_children_of_field? hvalue) ?_
    -- A value without an alias is read, and one with an alias is bound too.
    split
    · rename_i hkind
      have hpattern := asPattern_holds hvalue' hkind
      cases hparts : value.parts with
      | nil => cases htarget : value.aliasTarget? <;> simpa [hparts, htarget] using hpattern
      | cons e rest => cases htarget : value.aliasTarget? <;> simpa [hparts, htarget] using hpattern
    · simpa using hvalue'.self.expr
  · exact .zero c

/-- The items of a `with` statement are held by the clauses for them. -/
theorem MarkedBelow.withItems (hp : p.MarkedBelow) :
    HeldAmong (p.named.filter fun c => c.kind = "with_clause") (p.withItems.map Item.marks).sum := by
  rw [Part.withItems, sum_map_flatMap]
  refine .map fun c hc => ?_
  have hc := hp.named (List.mem_filter.1 hc).1
  rw [sum_map_flatMap]
  exact holds_named fun d hd => withItem_holds ((MarkedBelow.of_all hc).named hd)

/-- A part holds the marks of its `with` statement. -/
theorem MarkedBelow.withStmt (hp : p.MarkedBelow)
    (honce : ∀ b, p.field? "body" = some b → b.kind ≠ "with_clause") :
    p.Holds (Stmt.block [.simple p.withItems, .block (p.bodyField "body")]).marks := by
  -- Clauses are told by their kind and the body by its field, so the two might be one.
  have hfilter : (p.named.filter fun c => c.kind = "with_clause") =
      p.children.filter fun c => c.kind = "with_clause" && (c.info.named && c.kind ≠ "comment") :=
    List.filter_filter
  have hitems := hp.withItems
  rw [hfilter] at hitems
  simp only [Stmt.marks_block, Stmt.marks_simple, List.map_cons, List.map_nil, List.sum_cons,
    List.sum_nil, add_zero]
  cases hb : p.field? "body" with
  | none =>
    rw [Part.bodyField, hb, Option.map_none, Option.getD_none, List.map_nil, List.sum_nil, add_zero]
    exact hitems.holds List.filter_sublist.subperm
  | some b =>
    rw [Part.bodyField, hb, Option.map_some, Option.getD_some]
    have hbody := (MarkedBelow.of_all (hp.field hb)).body
    exact (hitems.append (.singleton hbody)).holds
      (subperm_filter_append (mem_children_of_field? hb) (by simp [honce b hb]))

/-- A part holds the marks of its `for` statement. -/
theorem MarkedBelow.forStmt (hp : p.MarkedBelow) :
    p.Holds (Stmt.block [p.readField "right",
      .simple (((p.field? "left").map fun c => Item.bind c.meaning.target).toList),
      .block (p.bodyField "body"), .block p.loopElse]).marks := by
  have htarget : HeldAmong (p.fields "left") (Stmt.simple
      (((p.field? "left").map fun c => Item.bind c.meaning.target).toList)).marks := by
    refine heldAmong_field (fun hnone => ?_) fun c hc => ?_
    · rw [hnone]
      rfl
    · rw [hc]
      simpa using (hp.field hc).self.target
  simp only [Stmt.marks_block, List.map_cons, List.map_nil, List.sum_cons, List.sum_nil, add_zero]
  -- Each of the four fields is taken once.
  exact ((hp.readField "right").append (htarget.append ((hp.bodyField "body").append
    hp.loopElse))).holds
      (subperm_fields ["right", "left", "body", "alternative"] (by simp) (by simp))

/-- Where a part is a statement it holds the marks of the statement. -/
theorem MarkedBelow.toStmt (hp : p.MarkedBelow) (honce : p.ReachedOnce) :
    p.Holds p.toStmt.marks := by
  rw [Part.toStmt]
  split
  case h_1 =>
    rw [Stmt.marks_simple, List.map_map]
    exact holds_named fun c hc => toItem_holds (hp.named hc)
  case h_2 => exact hp.functionStmt
  case h_3 => exact hp.classStmt
  case h_4 hkind => exact hp.decoratedStmt (honce.definition hkind)
  case h_6 =>
    rw [importFromStmt, Stmt.marks_imports]
    split
    · exact .report p
    · exact .zero p
  case h_11 =>
    rw [Stmt.marks_returns]
    exact hp.head?_parts
  case h_12 =>
    simp only [Stmt.marks_block, List.map_cons, List.sum_cons, List.map_map]
    have halternatives : HeldAmong (p.fields "alternative")
        ((p.fields "alternative").map (Stmt.marks ∘ alternative)).sum :=
      .map fun c hc => alternative_holds (hp c (mem_children_of_fields hc))
    exact ((hp.readField "condition").append ((hp.bodyField "consequence").append
      halternatives)).holds
        (subperm_fields ["condition", "consequence", "alternative"] (by simp) (by simp))
  case h_13 =>
    simp only [Stmt.marks_block, List.map_cons, List.map_nil, List.sum_cons, List.sum_nil, add_zero]
    exact ((hp.readField "condition").append ((hp.bodyField "body").append hp.loopElse)).holds
      (subperm_fields ["condition", "body", "alternative"] (by simp) (by simp))
  case h_14 => exact hp.forStmt
  case h_15 =>
    rw [Stmt.marks_block, List.map_map]
    exact holds_named fun c hc => tryClause_holds (hp.named hc)
  case h_16 hkind => exact hp.withStmt (honce.body hkind)
  case h_17 | h_18 | h_19 =>
    rw [Stmt.marks_simple, List.map_map]
    simpa [Function.comp_def] using hp.parts
  case h_23 => exact .report p
  -- The other statements make no marks.
  case h_5 => exact Stmt.marks_imports none _ ▸ .zero p
  case h_20 => exact Stmt.marks_globals _ ▸ .zero p
  case h_21 => exact Stmt.marks_nonlocals _ ▸ .zero p
  all_goals exact .zero p

/-! ### Trees -/

/-- An identifier is an annotation of its own name. -/
theorem hint?_identifier (source : SourceText) {info : NodeInfo} {children : List Part}
    (h : info.kind = "identifier") :
    (ofChildren source info children).hint? =
      some (.form (.name (source.slice info.start info.stop))
        [.name (ofChildren source info children).word]) := by
  simp [hint?, ofChildren, meaning, toTypeForm, toHintReads, toExpr, kind, Part.info, h, text, word]

/-- A node whose children hold their marks holds its own. -/
theorem marked_ofChildren (source : SourceText) (info : NodeInfo) {children : List Part}
    (h : ∀ c ∈ children, c.All Marked) (honce : (ofChildren source info children).ReachedOnce) :
    (ofChildren source info children).Marked := by
  -- The roles of a node are read off the node before its own meaning is known.
  let p : Part := .mk info
    ⟨source.slice info.start info.stop, source.location info.start info.stop⟩ default children
  have hp : p.MarkedBelow := h
  have hcongr {ms : Multiset Mark} (hms : p.Holds ms) :
      (ofChildren source info children).Holds ms := hms.congr rfl rfl rfl
  have hreads := hcongr hp.toHintReads
  exact
    { once := honce
      expr := hcongr hp.toExpr
      target := hcongr hp.toTarget
      augmented := hcongr hp.toAugmented
      interpolations := hcongr hp.interpolations
      hint := holds_hint? hreads
      hintReads := hreads
      hintedName := fun hkind => by
        have hidentifier : info.kind = "identifier" := hkind
        rw [hint?_identifier source hidentifier, hintMarks_form]
        exact .name (.inl hkind)
      sequence := hcongr hp.toSequence
      assignment := hcongr hp.toAssignment
      stmt := hcongr (hp.toStmt ⟨honce.pattern, honce.body, honce.definition⟩) }

mutual

/-- In a tree in which no child is reached twice every part holds its marks. -/
theorem marked_ofNode (source : SourceText) :
    ∀ n : Node, (∀ t ∈ n.subtrees, t.ReachedOnce) → (ofNode source n).All Marked
  | .mk info children, h =>
    have hchildren := marked_ofNodes source children fun t ht => h t (List.mem_cons_of_mem _ ht)
    .mk (marked_ofChildren source info hchildren
      (reachedOnce_ofNode (h _ (Node.self_mem_subtrees (.mk info children))))) hchildren

/-- Every part of a tree holds its marks if no node reaches a child twice. -/
theorem marked_ofNodes (source : SourceText) :
    ∀ ns : List Node, (∀ t ∈ Node.subtreesOf ns, t.ReachedOnce) →
      ∀ p ∈ ofNodes source ns, p.All Marked
  | [], _, p, hp => nomatch hp
  | n :: rest, h, p, hp => by
    rcases List.mem_cons.1 hp with rfl | hp
    · exact marked_ofNode source n fun t ht => h t (List.mem_append_left _ ht)
    · exact marked_ofNodes source rest (fun t ht => h t (List.mem_append_right _ ht)) p hp

end

end Part

/-- A tree in which no child is reached twice holds the marks of its module. -/
theorem holds_ofTree (source : SourceText) {tree : Node} (h : ∀ t ∈ tree.subtrees, t.ReachedOnce) :
    (Part.ofNode source tree).Holds
      (marksOf (operationsOf (Module.ofTree source tree).body)) := by
  rw [Stmt.marksOf_operationsOf]
  exact (Part.MarkedBelow.of_all (Part.marked_ofNode source tree h)).body

end Python

end NameAtlas
