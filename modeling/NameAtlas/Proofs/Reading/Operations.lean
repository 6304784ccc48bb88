import NameAtlas.Proofs.Reading.Coverage
import NameAtlas.Proofs.Walk.OpClass

/-!
# What the nodes of a tree do

Reading a tree does nothing but what its nodes do by themselves: names are read, bound and declared
where they stand, import statements bind what they import, and nodes that are not modeled are
reported (`Part.Reports`). If what each node adds is of a class of operations (`Part.Adds`), so is
every meaning of every node (`Part.does_ofNode`), and with it everything that a walk over the tree
does (`OpClass.has_program`). What is to be known of a class, then, is what it has of each node.
-/

namespace NameAtlas.Python

open Source

variable {source : SourceText} {C : OpClass}

namespace Part

open OpClass

/-- What an import statement binds; other nodes bind nothing. -/
def importBindings (p : Part) : List ImportBinding :=
  match p.kind with
  | "import_statement" => (p.fields "name").filterMap importBinding?
  | "import_from_statement" =>
    (p.fields "name").filterMap (fromBinding? ((p.field? "module_name").map text))
  | _ => []

/-! ### Reports -/

/-- The kinds of nodes that are modeled where they are evaluated. -/
def expressionKinds : List String :=
  ["identifier", "attribute", "call", "string", "concatenated_string", "integer", "float", "true",
    "false", "none", "binary_operator", "boolean_operator", "unary_operator", "not_operator",
    "comparison_operator", "conditional_expression", "parenthesized_expression", "type", "await",
    "named_expression", "list", "tuple", "set", "expression_list", "subscript", "slice",
    "list_splat", "dictionary_splat", "parenthesized_list_splat", "pair", "dictionary",
    "keyword_argument", "ellipsis", "ERROR"]

/-- The kinds of nodes that are modeled where they are combined with a value and assigned to. -/
def augmentedKinds : List String := ["identifier", "attribute", "subscript"]

/-- The kinds of nodes that are modeled where they are statements. -/
def statementKinds : List String :=
  ["expression_statement", "function_definition", "class_definition", "decorated_definition",
    "import_statement", "import_from_statement", "future_import_statement", "pass_statement",
    "break_statement", "continue_statement", "return_statement", "if_statement", "while_statement",
    "for_statement", "try_statement", "with_statement", "assert_statement", "delete_statement",
    "raise_statement", "global_statement", "nonlocal_statement", "ERROR"]

/-- The reports that a node causes, each with what is reported: the node itself where it is not
modeled, or a child of it. -/
inductive Reports (p : Part) : Part → DiagnosticCode → String → Prop where
  /-- A statement. -/
  | statement (h : p.kind ∉ statementKinds) :
    p.Reports p .unsupportedStatement ("`" ++ p.kind ++ "` statements are not modeled")
  /-- An import of every name. -/
  | wildcard (h : p.kind = "import_from_statement") :
    p.Reports p .unsupportedStatement "wildcard imports bind no names"
  /-- An expression. -/
  | expression (h : p.kind ∉ expressionKinds) :
    p.Reports p .unsupportedExpression ("`" ++ p.kind ++ "` expressions are not modeled")
  /-- The type parameters of a definition. -/
  | typeParameters {c : Part} (h : p.kind = "function_definition" ∨ p.kind = "class_definition")
    (hc : p.field? "type_parameters" = some c) :
    p.Reports c .unsupportedExpression "type parameter lists are not modeled"
  /-- A target of an assignment. -/
  | target (h : ¬p.info.malformed) :
    p.Reports p .unsupportedTarget ("cannot assign to `" ++ p.kind ++ "`")
  /-- The target of an assignment that combines it with a value. -/
  | augmented {c : Part} (h : p.kind = "augmented_assignment") (hc : p.field? "left" = some c)
    (hkind : c.kind ∉ augmentedKinds) :
    p.Reports c .unsupportedTarget ("cannot assign to `" ++ c.kind ++ "`")
  /-- An annotation. -/
  | hint (h : ¬p.info.malformed) :
    p.Reports p .unsupportedHint ("annotation `" ++ Text.snippet p.text ++ "` is not modeled")
  /-- A parameter, with its shape. -/
  | parameter (h : ¬p.info.malformed) (shape : String) :
    p.Reports p .unsupportedParameter
      ("unsupported parameter syntax \"" ++ shape ++ "\" in " ++ Text.snippet p.text)

/-! ### What a node adds -/

/-- A part that adds operations of a class to what is read from its children. -/
structure Adds (C : OpClass) (p : Part) : Prop where
  /-- A name is read, bound or declared as a parameter. -/
  name : p.kind = "identifier" →
    C.Has (.readName p.word) ∧ C.Has (.bindName p.word) ∧ C.Has (.parameter p.word)
  /-- A member of an object is read or assigned. -/
  member : p.kind = "attribute" → ∀ c, p.field? "attribute" = some c →
    C.Has (.readMember c.word) ∧ C.Has (.assignMember c.word) ∧ C.Has (.keepMember c.word)
  /-- A name is bound within an expression. -/
  walrus : p.kind = "named_expression" → ∀ c, p.field? "name" = some c → C.Has (.bindName c.word)
  /-- A function is defined. -/
  function : p.kind = "function_definition" → ∀ c, p.field? "name" = some c →
    (∀ node, C.Has (.place node c.word)) ∧
      ∀ f : FunctionBody, f.header.word = c.word → C.Has (.enterFunction f)
  /-- A class is defined. -/
  classes : p.kind = "class_definition" → ∀ c, p.field? "name" = some c →
    (∀ node, C.Has (.place node c.word)) ∧
      (∀ h : ClassHeader, h.word = c.word → C.Has (.enterClass h)) ∧ C.Has (.leaveClass c.word)
  /-- What is imported is bound. -/
  imports : ∀ b ∈ p.importBindings, C.Has (.bindImport b)
  /-- What is not modeled is reported. -/
  reports : ∀ c code message, p.Reports c code message → C.Has (.report code message c.location)

/-- A part all of whose meanings are of a class of operations. -/
structure Does (C : OpClass) (p : Part) : Prop where
  /-- What it adds. -/
  adds : p.Adds C
  /-- Where it is evaluated. -/
  expr : C.HasAll p.meaning.expr.ops
  /-- Where it is assigned to. -/
  target : C.HasAll p.meaning.target.assignOps
  /-- Where it is combined with a value and assigned to: the report is one of the node above. -/
  augmented : (p.kind ∉ augmentedKinds → C.Has (reportTargetOp p.kind p.location)) →
    C.HasAll p.meaning.augmented.augmentOps
  /-- Between the literal parts of a string. -/
  interpolations : ∀ e ∈ p.meaning.interpolations, C.HasAll e.ops
  /-- The type of a literal. -/
  literalType : ∀ type, p.meaning.literalType = some type → type.fqn? = none
  /-- Where it is an annotation. -/
  hintReads : ∀ e ∈ p.meaning.hintReads, C.HasAll e.ops
  /-- In a sequence of values. -/
  sequence : ∀ v ∈ p.meaning.sequence.getD [], C.HasAll v.2.ops
  /-- Where it is an assignment. -/
  assignment : C.HasAll p.meaning.assignment.ops
  /-- Where it is a statement. -/
  stmt : C.HasAll p.meaning.stmt.operations

variable {p : Part}

/-- A definition reports its type parameters. -/
theorem Adds.typeParameterOps (hadds : p.Adds C)
    (hkind : p.kind = "function_definition" ∨ p.kind = "class_definition") :
    C.HasAll (Python.typeParameterOps p.typeParameters?) := by
  rw [typeParameters?]
  cases h : p.field? "type_parameters" with
  | none => exact hasAll_nil
  | some c => simpa [Python.typeParameterOps] using hadds.reports _ _ _ (.typeParameters hkind h)

/-- Everything below the part has been read. -/
def DoesBelow (C : OpClass) (p : Part) : Prop := ∀ c ∈ p.children, c.All (Does C)

/-! ### What is read from the children -/

/-- What is read from the child in a field, if there is one. -/
theorem field_getD {β : Type} {P : β → Prop} {g : Part → β} {d : β} (name : String) (hd : P d)
    (h : ∀ c ∈ p.children, P (g c)) : P (((p.field? name).map g).getD d) := by
  cases hc : p.field? name with
  | none => exact hd
  | some c => exact h c (mem_children_of_field? hc)

namespace DoesBelow

/-- If everything in a part does what is of a class, so does everything below it. -/
theorem of_all {c : Part} (hc : c.All (Does C)) : c.DoesBelow C :=
  fun _ => hc.child

/-- A child does what is of the class. -/
theorem child (hp : p.DoesBelow C) {c : Part} (hc : c ∈ p.children) :
    c.Does C := (hp c hc).self

/-- A named child does what is of the class. -/
theorem named (hp : p.DoesBelow C) {c : Part} (hc : c ∈ p.named) :
    c.Does C := hp.child (mem_children_of_named hc)

/-- The child in a field does what is of the class. -/
theorem field (hp : p.DoesBelow C) {c : Part} {name : String}
    (hc : p.field? name = some c) : c.Does C := hp.child (mem_children_of_field? hc)

/-- Evaluating a field does what is of the class. -/
theorem exprField (hp : p.DoesBelow C) (name : String) : C.HasAll (p.exprField name).ops :=
  field_getD (P := fun e : Expr => C.HasAll e.ops) name hasAll_absent
    fun _ hc => (hp.child hc).expr

/-- Binding a field does what is of the class. -/
theorem targetField (hp : p.DoesBelow C) (name : String) :
    C.HasAll
      (Target.assignOps (((p.field? name).map fun c => c.meaning.target).getD .absent)) :=
  field_getD (P := fun t : Target => C.HasAll t.assignOps) name hasAll_absentTarget
    fun _ hc => (hp.child hc).target

/-- Evaluating a part of a compound expression does what is of the class. -/
theorem mem_parts (hp : p.DoesBelow C) : ∀ e ∈ p.parts, C.HasAll e.ops := by
  intro e he
  obtain ⟨c, hc, rfl⟩ := List.mem_map.1 he
  exact (hp.named hc).expr

/-- The block of a part does what is of the class. -/
theorem body (hp : p.DoesBelow C) : C.HasAll (operationsOf p.body) := by
  rw [hasAll_operationsOf]
  intro st hst
  obtain ⟨c, hc, rfl⟩ := List.mem_map.1 hst
  exact (hp.named hc).stmt

/-- The block in a field does what is of the class. -/
theorem bodyField (hp : p.DoesBelow C) (name : String) :
    C.HasAll (operationsOf (p.bodyField name)) :=
  field_getD (P := fun body : List Stmt => C.HasAll (operationsOf body)) name
    hasAll_nil fun c hc => (of_all (hp c hc)).body

/-! ### Expressions -/

/-- The type of a literal is no class of the program. -/
theorem literalType? (hp : p.DoesBelow C) {type : BindingType}
    (h : p.literalType? = some type) : type.fqn? = none := by
  rw [Part.literalType?] at h
  split at h
  case h_7 =>
    obtain ⟨c, hc, h⟩ := Option.bind_eq_some_iff.1 h
    exact (hp.named (List.mem_of_head? hc)).literalType type h
  case h_8 => cases h
  all_goals
    obtain rfl := Option.some.inj h
    rfl

/-- The outcome of a literal is one that faithful expressions have. -/
theorem literalOutcome (hp : p.DoesBelow C) : p.literalOutcome.Faithful := by
  rw [Part.literalOutcome]
  split
  · rename_i type h
    exact hp.literalType? h
  · trivial

/-- The interpolations of a string do what is of the class. -/
theorem interpolations (hp : p.DoesBelow C) : ∀ e ∈ p.interpolations, C.HasAll e.ops := by
  intro e he
  obtain ⟨c, hc, he⟩ := List.mem_flatMap.1 he
  split at he
  · exact (hp.named hc).interpolations e he
  · obtain rfl := List.mem_singleton.1 he
    exact (of_all (hp c (mem_children_of_named hc))).exprField "expression"
  · cases he

/-- The arguments of a call do what is of the class. -/
theorem callArguments (hp : p.DoesBelow C) : ∀ e ∈ p.callArguments, C.HasAll e.ops := by
  rw [Part.callArguments]
  split
  · rename_i a ha
    split
    · exact (of_all (hp a (mem_children_of_field? ha))).mem_parts
    · simpa using (hp.field ha).expr
  · exact List.forall_mem_nil _

/-- Evaluating a part does what is of the class. -/
theorem toExpr (hp : p.DoesBelow C) (hadds : p.Adds C) : C.HasAll p.toExpr.ops := by
  have hparts := hp.mem_parts
  have hhead : C.HasAll (p.parts.head?.getD .absent).ops := by
    cases h : p.parts.head? with
    | none => exact hasAll_absent
    | some e => exact hparts e (List.mem_of_head? h)
  rw [Part.toExpr]
  split
  -- A name, an attribute and a call.
  case h_1 hkind => simpa [Expr.ops] using (hadds.name hkind).1
  case h_2 hkind =>
    split
    · rename_i a ha
      simpa [Expr.ops] using ⟨hp.exprField "object", (hadds.member hkind a ha).1⟩
    · simpa using hp.exprField "object"
  case h_3 =>
    split
    · rename_i f hf
      simpa [Expr.ops] using ⟨(hp.field hf).expr, hp.callArguments⟩
    · exact hasAll_absent
  -- `await` reads one expression, and `:=` binds a name behind its value.
  case h_19 => simpa using fun e he => hparts e (List.mem_of_mem_take he)
  case h_20 hkind =>
    split
    · rename_i name hname
      simpa [Expr.ops] using ⟨hp.exprField "value", hadds.walrus hkind name hname⟩
    · simpa using hp.exprField "value"
  -- What is not modeled is reported.
  case h_35 =>
    have hkind : p.kind ∉ expressionKinds := by simp_all [expressionKinds]
    simpa [Expr.ops] using hadds.reports _ _ _ (.expression hkind)
  -- All others read their named children or some of their fields.
  all_goals first
    | exact hhead
    | exact hasAll_absent
    | exact hasAll_compound.2 ⟨hparts, C.combine _ trivial⟩
    | exact hasAll_compound.2 ⟨hparts, C.combine _ rfl⟩
    | exact hasAll_compound.2 ⟨hp.interpolations, C.combine _ hp.literalOutcome⟩
    | exact hasAll_compound.2 ⟨List.forall_mem_nil _, C.combine _ hp.literalOutcome⟩
    | exact hasAll_compound.2 ⟨by simpa using hp.exprField _, C.combine _ trivial⟩
    | exact hasAll_compound.2 ⟨by simpa using hp.exprField _, C.combine _ rfl⟩
    | exact hasAll_compound.2
        ⟨by simpa using ⟨hp.exprField "left", hp.exprField "right"⟩, C.combine _ trivial⟩

/-! ### Targets -/

/-- Assigning to an attribute does what is of the class, with or without an operator. -/
theorem attributeTarget (hp : p.DoesBelow C) (hadds : p.Adds C) (hkind : p.kind = "attribute") :
    C.HasAll p.attributeTarget.assignOps ∧ C.HasAll p.attributeTarget.augmentOps := by
  rw [Part.attributeTarget]
  split
  · rename_i o a ho ha
    obtain ⟨-, hassign, hkeep⟩ := hadds.member hkind a ha
    simpa [Target.assignOps, Target.augmentOps, hassign, hkeep] using (hp.field ho).expr
  · simp [Target.absent, Target.assignOps, Target.augmentOps]

/-- Binding a part does what is of the class. -/
theorem toTarget (hp : p.DoesBelow C) (hadds : p.Adds C) : C.HasAll p.toTarget.assignOps := by
  -- The kinds of patterns all bind their named children, so they are settled before the cases.
  have hpattern : C.HasAll (Target.pattern (p.named.map fun c => c.meaning.target)).assignOps := by
    simpa [Target.assignOps] using fun c hc => (hp.named hc).target
  rw [Part.toTarget]
  split
  case h_1 hkind => simpa [Target.assignOps] using (hadds.name hkind).2.1
  case h_2 hkind => exact (hp.attributeTarget hadds hkind).1
  case h_3 => exact hasAll_readOps.2 (hp.toExpr hadds)
  case h_4 =>
    cases h : p.named.head? with
    | none => exact hasAll_absentTarget
    | some c => exact (hp.named (List.mem_of_head? h)).target
  case h_11 =>
    split
    · exact hasAll_absentTarget
    · rename_i hsound
      simpa [Target.assignOps, reportTargetOp] using hadds.reports _ _ _ (.target hsound)
  all_goals exact hpattern

/-- Combining a part with a value does what is of the class. -/
theorem toAugmented (hp : p.DoesBelow C) (hadds : p.Adds C)
    (hreport : p.kind ∉ augmentedKinds → C.Has (reportTargetOp p.kind p.location)) :
    C.HasAll p.toAugmented.augmentOps := by
  rw [Part.toAugmented]
  split
  case h_1 hkind => simpa [Target.augmentOps] using ⟨(hadds.name hkind).1, (hadds.name hkind).2.1⟩
  case h_2 hkind => exact (hp.attributeTarget hadds hkind).2
  case h_3 => exact hasAll_readOps.2 (hp.toExpr hadds)
  case h_4 => simpa [Target.augmentOps] using hreport (by simp_all [augmentedKinds])

/-- Reading a part as a hint does what is of the class. -/
theorem toHintReads (hp : p.DoesBelow C) (hadds : p.Adds C) :
    ∀ e ∈ p.toHintReads, C.HasAll e.ops := by
  have hnamed : ∀ e ∈ p.named.flatMap (fun c => c.meaning.hintReads),
      C.HasAll e.ops := by
    intro e he
    obtain ⟨c, hc, he⟩ := List.mem_flatMap.1 he
    exact (hp.named hc).hintReads e he
  rw [Part.toHintReads]
  split
  case h_1 => exact List.forall_mem_nil _
  case h_6 => exact List.forall_mem_singleton.2 (hp.toExpr hadds)
  all_goals exact hnamed

/-- Evaluating the values that a part is unpacked into does what is of the class. -/
theorem toSequence (hp : p.DoesBelow C) : ∀ v ∈ p.toSequence.getD [], C.HasAll v.2.ops := by
  -- The kinds of sequences all have their named children, so they are settled before the cases.
  have hnamed : ∀ v ∈ p.named.map (fun c => (c.isStarred, c.meaning.expr)),
      C.HasAll v.2.ops := by
    intro v hv
    obtain ⟨c, hc, rfl⟩ := List.mem_map.1 hv
    exact (hp.named hc).expr
  have hhead : ∀ v ∈ (p.named.head?.bind fun c => c.meaning.sequence).getD [],
      C.HasAll v.2.ops := by
    cases h : p.named.head? with
    | none => exact List.forall_mem_nil _
    | some c => exact (hp.named (List.mem_of_head? h)).sequence
  rw [Part.toSequence]
  split
  case h_1 | h_2 => exact hhead
  case h_6 => exact List.forall_mem_nil _
  all_goals exact hnamed

/-! ### Annotations and assignments -/

/-- Reading the hint in a field does what is of the class. -/
theorem hintField? (hp : p.DoesBelow C) (name : String) :
    C.HasAll (hintOps (p.hintField? name)) := by
  rw [Part.hintField?]
  cases h : p.field? name with
  | none => exact hasAll_noHint
  | some c =>
    rw [Option.bind_some, hint?]
    split
    · simpa [hintOps] using (hp.field h).hintReads
    · split
      · exact hasAll_noHint
      · rename_i hsound
        simpa [hintOps] using (hp.field h).adds.reports _ _ _ (.hint hsound)

/-- Unpacking a value into targets does what is of the class. -/
theorem unpackPairs? (hp : p.DoesBelow C) {left right : Part}
    (hleft : p.field? "left" = some left) (hright : p.field? "right" = some right)
    {pairs : List (Target × Expr)} (h : Part.unpackPairs? left right = some pairs) :
    C.HasAll (pairsOps pairs) := by
  have hleft := of_all (hp left (mem_children_of_field? hleft))
  have hvalues := (hp.field hright).sequence
  rw [Part.unpackPairs?] at h
  split at h
  · split at h
    · rename_i values hsequence
      rw [hsequence, Option.getD_some] at hvalues
      dsimp only at h
      split at h
      · obtain rfl := Option.some.inj h
        rw [hasAll_pairsOps]
        -- A pair has its target from the left side and its value from the right side.
        intro pair hpair
        obtain ⟨htarget, hvalue⟩ := List.of_mem_zip hpair
        obtain ⟨c, hc, htarget⟩ := List.mem_map.1 htarget
        obtain ⟨v, hv, hvalue⟩ := List.mem_map.1 hvalue
        exact ⟨hvalue ▸ hvalues v hv, htarget ▸ (hleft.named hc).target⟩
      · cases h
    · cases h
  · cases h

/-- An assignment does what is of the class. -/
theorem toAssignment (hp : p.DoesBelow C) : C.HasAll p.toAssignment.ops := by
  have hhint := hp.hintField? "type"
  have htarget := hp.targetField "left"
  rw [Part.toAssignment]
  split
  -- Targets with a value each; or one target, with a value or another assignment behind it.
  · rename_i pairs hpairs
    obtain ⟨left, hleft, hpairs⟩ := Option.bind_eq_some_iff.1 hpairs
    obtain ⟨right, hright, hpairs⟩ := Option.bind_eq_some_iff.1 hpairs
    simpa [Assignment.ops, hhint] using
      hasAll_pairsOps.1 (hp.unpackPairs? hleft hright hpairs)
  · split
    · rename_i right hright
      split
      · simpa [Assignment.ops, hhint, htarget] using (hp.field hright).assignment
      · simpa [Assignment.ops, hhint, htarget] using (hp.field hright).expr
    · simpa [Assignment.ops, hhint] using htarget

/-- An item of a statement does what is of the class. -/
theorem toItem (hp : p.DoesBelow C) {c : Part} (hc : c ∈ p.named) : C.HasAll c.toItem.ops := by
  have hbelow := of_all (hp c (mem_children_of_named hc))
  rw [Part.toItem]
  split
  · simpa [Item.ops] using (hp.named hc).assignment
  · rename_i hkind
    refine hasAll_append.2 ⟨hasAll_readOps.2 (hbelow.exprField "right"), ?_⟩
    cases hleft : c.field? "left" with
    | none => exact hasAll_nil
    | some left =>
      exact (hbelow.field hleft).augmented fun hkind' =>
        (hp.named hc).adds.reports _ _ _ (.augmented hkind hleft hkind')
  · simpa [Item.ops] using (hp.named hc).expr

/-! ### Definitions -/

/-- Declaring a parameter does what is of the class. -/
theorem parameter? (hp : p.DoesBelow C) {c : Part} (hc : c ∈ p.named) {q : Parameter}
    (h : c.parameter? = some q) : C.HasAll q.ops := by
  have hbelow := of_all (hp c (mem_children_of_named hc))
  have hhint := hbelow.hintField? "type"
  -- A parameter that is not modeled is only reported.
  have hunsupported {shape : String}
      (h : (if c.info.malformed then none
        else some (.unsupported shape (Text.snippet c.text) c.location)) = some q) :
      C.HasAll q.ops := by
    split at h
    · cases h
    · rename_i hsound
      obtain rfl := Option.some.inj h
      simpa [Parameter.ops] using (hp.named hc).adds.reports _ _ _ (.parameter hsound shape)
  have hnamed {name : Option Part} {hint : Option TypeHint} {default : Option Expr}
      (hname : ∀ n ∈ name, n.Adds C) (hhint : C.HasAll (hintOps hint))
      (hdefault : C.HasAll (defaultOps default))
      (h : c.namedParameter name hint default = some q) : C.HasAll q.ops := by
    rw [namedParameter] at h
    split at h
    · rename_i n hn
      obtain rfl := Option.some.inj h
      obtain ⟨hn, hidentifier⟩ := Option.filter_eq_some_iff.1 hn
      have hkind := of_decide_eq_true (Bool.and_eq_true_iff.1 hidentifier).1
      have hword := ((hname n hn).name hkind).2.2
      simp [Parameter.ops, hhint, hdefault, hword]
    · exact hunsupported h
  rw [Part.parameter?] at h
  split at h
  · cases h
  · split at h
    · exact hnamed (by simpa using (hp.named hc).adds) hasAll_noHint hasAll_nil h
    · split at h
      · rename_i name hname
        split at h
        · exact hnamed (by simpa using (hbelow.named (List.mem_of_head? hname)).adds) hhint
            hasAll_nil h
        · exact hunsupported h
      · exact hunsupported h
    iterate 2
      · refine hnamed (fun n hn => (hbelow.field hn).adds) hhint ?_ h
        cases hvalue : c.field? "value" with
        | none => exact hasAll_nil
        | some v => exact hasAll_readOps.2 (hbelow.field hvalue).expr
    · cases h
    · cases h
    · exact hunsupported h

/-- Defining a function does what is of the class, and so does its body. -/
theorem functionStmt (hp : p.DoesBelow C) (hadds : p.Adds C)
    (hkind : p.kind = "function_definition") : C.HasAll p.functionStmt.operations := by
  rw [Part.functionStmt]
  split
  · rename_i name hname
    obtain ⟨hplace, henter⟩ := hadds.function hkind name hname
    -- The parameters stand two levels below, so the class is known of each by itself.
    have hparameters : ∀ q ∈ ((p.field? "parameters").map fun ps =>
        ps.named.filterMap Part.parameter?).getD [], C.HasAll q.ops := by
      refine field_getD (P := fun qs : List Parameter => ∀ q ∈ qs, C.HasAll q.ops) _
        (List.forall_mem_nil _) fun ps hps q hq => ?_
      obtain ⟨c, hc, hq⟩ := List.mem_filterMap.1 hq
      exact (of_all (hp ps hps)).parameter? hc hq
    simpa [Stmt.operations, FunctionBody.defineOps, hplace, henter, hp.hintField? "return_type",
      hadds.typeParameterOps (.inl hkind)] using
      ⟨hparameters, hasAll_operationsOf.1 (hp.bodyField "body")⟩
  · exact hasAll_nil

/-- What is given to a class does what is of the class of operations. -/
theorem classArgument (hp : p.DoesBelow C) {c : Part} (hc : c ∈ p.named) :
    C.HasAll c.classArgument.ops := by
  rw [Part.classArgument]
  split
  · exact hasAll_readOps.2 ((of_all (hp c (mem_children_of_named hc))).exprField "value")
  · simpa [ClassArgument.ops] using (hp.named hc).expr

/-- Defining a class does what is of the class of operations. -/
theorem classStmt (hp : p.DoesBelow C) (hadds : p.Adds C)
    (hkind : p.kind = "class_definition") : C.HasAll p.classStmt.operations := by
  rw [Part.classStmt]
  split
  · rename_i name hname
    obtain ⟨hplace, henter, hleave⟩ := hadds.classes hkind name hname
    -- The arguments stand two levels below, so the class is known of each by itself.
    have harguments : ∀ a ∈ ((p.field? "superclasses").map fun as =>
        as.named.map Part.classArgument).getD [], C.HasAll a.ops := by
      refine field_getD (P := fun as : List ClassArgument => ∀ a ∈ as, C.HasAll a.ops)
        _ (List.forall_mem_nil _) fun as has a ha => ?_
      obtain ⟨c, hc, rfl⟩ := List.mem_map.1 ha
      exact (of_all (hp as has)).classArgument hc
    simpa [Stmt.operations, ClassHeader.ops, hplace, henter, hleave,
      hadds.typeParameterOps (.inr hkind)] using
      ⟨harguments, hasAll_operationsOf.1 (hp.bodyField "body")⟩
  · exact hasAll_nil

/-- Making a function static does not change of which class its operations are. -/
theorem operations_markStatic (st : Stmt) (h : C.HasAll st.operations) :
    C.HasAll (markStatic st).operations := by
  cases st with
  | function header body =>
    simp only [markStatic, Stmt.operations, FunctionBody.defineOps, hasAll_append,
      hasAll_cons] at h ⊢
    obtain ⟨⟨⟨⟨⟨⟨hplace, htypes⟩, hreturns⟩, henter, hnil⟩, hparameters⟩, hleave⟩, hbody⟩ := h
    exact ⟨⟨⟨⟨⟨⟨hplace, htypes⟩, hreturns⟩, C.markStatic header body henter, hnil⟩, hparameters⟩,
      hleave⟩, hbody⟩
  | _ => exact h

/-- A decorated definition does what is of the class. -/
theorem decoratedStmt (hp : p.DoesBelow C) : C.HasAll p.decoratedStmt.operations := by
  have hdecorators : ∀ d ∈ p.decorators, C.HasAll d.2.ops := by
    intro d hd
    obtain ⟨c, hc, hd⟩ := List.mem_filterMap.1 hd
    obtain ⟨e, he, rfl⟩ := Option.map_eq_some_iff.1 hd
    have hc := of_all (hp c (mem_children_of_named (List.mem_filter.1 hc).1))
    exact (hc.named (List.mem_of_head? he)).expr
  rw [Part.decoratedStmt]
  -- First the decorators are read, then there is the definition, if there is one.
  refine hasAll_append.2 ⟨?_, ?_⟩
  · rw [Stmt.operations, hasAll_flatMap, List.forall_mem_map]
    exact fun d hd => hasAll_readOps.2 (hdecorators d hd)
  · split
    · rename_i d hd
      have hd := (hp.field hd).stmt
      split
      · simpa using operations_markStatic _ hd
      · simpa using hd
    · exact hasAll_nil

/-! ### Compound statements -/

/-- Reading a field does what is of the class. -/
theorem readField (hp : p.DoesBelow C) (name : String) :
    C.HasAll (p.readField name).operations := by
  simpa [Part.readField, Stmt.operations, Item.ops] using hp.exprField name

/-- An alternative does what is of the class. -/
theorem alternative (hp : p.DoesBelow C) : C.HasAll p.alternative.operations := by
  rw [Part.alternative]
  split
  · exact hasAll_append.2 ⟨hp.readField "condition", hp.bodyField "consequence"⟩
  · exact hp.bodyField "body"

/-- The code behind a loop does what is of the class. -/
theorem loopElse (hp : p.DoesBelow C) : C.HasAll (operationsOf p.loopElse) :=
  field_getD (P := fun body : List Stmt => C.HasAll (operationsOf body)) _
    hasAll_nil fun c hc => (of_all (hp c hc)).bodyField "body"

/-- Binding the target of an alias does what is of the class. -/
theorem aliasTarget? (hp : p.DoesBelow C) {t : Target} (h : p.aliasTarget? = some t) :
    C.HasAll t.assignOps := by
  obtain ⟨a, ha, h⟩ := Option.bind_eq_some_iff.1 h
  split at h
  · obtain ⟨d, hd, rfl⟩ := Option.map_eq_some_iff.1 h
    exact ((of_all (hp a (mem_children_of_field? ha))).named (List.mem_of_head? hd)).target
  · obtain rfl := Option.some.inj h
    exact (hp.field ha).target

/-- Binding the name of an exception does what is of the class. -/
theorem caughtOps (hp : p.DoesBelow C) : C.HasAll (caughtOps p.aliasTarget?) := by
  cases h : p.aliasTarget? with
  | none => exact hasAll_nil
  | some t => exact hp.aliasTarget? h

/-- Catching an exception does what is of the class. -/
theorem caughtAs (hp : p.DoesBelow C) : C.HasAll p.caughtAs.operations := by
  rw [Part.caughtAs]
  split
  · rename_i value rest hparts
    have hvalue := hp.mem_parts value (by rw [hparts]; exact List.mem_cons_self)
    simpa [Stmt.operations, operationsOf] using ⟨hvalue, hp.caughtOps⟩
  · simpa [Stmt.operations, Item.ops] using
      fun t ht => hp.aliasTarget? ht

/-- A part of an `except` clause does what is of the class. -/
theorem exceptStmt? (hp : p.DoesBelow C) {c : Part} (hc : c ∈ p.named) {st : Stmt}
    (h : c.exceptStmt? = some st) : C.HasAll st.operations := by
  have hbelow := of_all (hp c (mem_children_of_named hc))
  rw [Part.exceptStmt?] at h
  split at h
  · obtain rfl := Option.some.inj h
    exact hbelow.body
  · obtain rfl := Option.some.inj h
    exact hbelow.caughtAs
  · cases h

/-- Whatever is kept for later, the statements of an `except` clause do what the parts do that they
are read from. -/
theorem exceptBody (hp : p.DoesBelow C) (ps : List Part) (hps : ∀ c ∈ ps, c ∈ p.named)
    (pending : Option (Expr × List Stmt))
    (hpending : ∀ value between, pending = some (value, between) →
      C.HasAll value.ops ∧ C.HasAll (operationsOf between)) :
    C.HasAll (operationsOf (Part.exceptBody pending ps)) := by
  induction ps generalizing pending with
  | nil =>
    rcases pending with _ | ⟨value, between⟩
    · exact hasAll_nil
    · simpa [Part.exceptBody, Stmt.operations, Python.caughtOps] using
        hpending value between rfl
  | cons c rest ih =>
    have hc := hps c List.mem_cons_self
    have hrest := ih fun c' hc' => hps c' (List.mem_cons_of_mem c hc')
    cases hst : c.exceptStmt? with
    -- A statement is done at once, or kept behind the exception that is kept.
    | some st =>
      have hst' := hp.exceptStmt? hc hst
      rcases pending with _ | ⟨value, between⟩
      · simp only [Part.exceptBody, hst]
        exact hasAll_append.2 ⟨hst', hrest none (by simp)⟩
      · obtain ⟨hvalue, hbetween⟩ := hpending value between rfl
        simp only [Part.exceptBody, hst]
        refine hrest _ fun value' between' heq => ?_
        obtain ⟨rfl, rfl⟩ := Prod.mk.inj (Option.some.inj heq)
        rw [hasAll_operationsOf] at hbetween ⊢
        exact ⟨hvalue, List.forall_mem_append.2 ⟨hbetween, List.forall_mem_singleton.2 hst'⟩⟩
    -- An exception is kept until its target comes.
    | none =>
      rcases pending with _ | ⟨value, between⟩
      · simp only [Part.exceptBody, hst]
        refine hrest _ fun value' between' heq => ?_
        obtain ⟨rfl, rfl⟩ := Prod.mk.inj (Option.some.inj heq)
        exact ⟨(hp.named hc).expr, hasAll_nil⟩
      · obtain ⟨hvalue, hbetween⟩ := hpending value between rfl
        simp only [Part.exceptBody, hst]
        refine hasAll_append.2 ⟨?_, hrest none (by simp)⟩
        simpa [Stmt.operations, Python.caughtOps, hvalue, (hp.named hc).target] using
          hasAll_operationsOf.1 hbetween

/-- A clause of a `try` statement does what is of the class. -/
theorem tryClause (hp : p.DoesBelow C) : C.HasAll p.tryClause.operations := by
  have hexcept := hp.exceptBody p.named (fun _ hc => hc) none (by simp)
  rw [Part.tryClause]
  split
  · exact hp.body
  · exact hexcept
  · exact hexcept
  · exact hp.bodyField "body"
  · refine hasAll_operationsOf.2 fun st hst => ?_
    obtain ⟨b, hb, rfl⟩ := List.mem_map.1 hst
    exact (of_all (hp b (mem_children_of_named (List.mem_filter.1 hb).1))).body
  · exact hasAll_nil

/-- The items in a part of a `with` statement do what is of the class. -/
theorem withItem (hp : p.DoesBelow C) : ∀ item ∈ p.withItem, C.HasAll item.ops := by
  intro item hitem
  rw [Part.withItem] at hitem
  split at hitem
  · rename_i value hvalue
    have hbelow := of_all (hp value (mem_children_of_field? hvalue))
    split at hitem
    -- What is matched is read, and the alias is bound.
    · rcases List.mem_append.1 hitem with hitem | hitem
      · obtain ⟨e, he, rfl⟩ := List.mem_map.1 hitem
        exact hasAll_readOps.2 (hbelow.mem_parts e (List.mem_of_mem_take he))
      · obtain ⟨t, ht, rfl⟩ := List.mem_map.1 hitem
        simpa [Item.ops] using
          hbelow.aliasTarget? (Option.mem_toList.1 ht)
    · obtain rfl := List.mem_singleton.1 hitem
      exact hasAll_readOps.2 (hp.field hvalue).expr
  · cases hitem

/-- The items of a `with` statement do what is of the class. -/
theorem withItems (hp : p.DoesBelow C) : ∀ item ∈ p.withItems, C.HasAll item.ops := by
  intro item hitem
  obtain ⟨c, hc, hitem⟩ := List.mem_flatMap.1 hitem
  obtain ⟨d, hd, hitem⟩ := List.mem_flatMap.1 hitem
  have hc := hp c (mem_children_of_named (List.mem_filter.1 hc).1)
  exact (of_all (hc.child (mem_children_of_named hd))).withItem item hitem

/-- The statement of a part does what is of the class. -/
theorem toStmt (hp : p.DoesBelow C) (hadds : p.Adds C) : C.HasAll p.toStmt.operations := by
  have himports := hadds.imports
  rw [importBindings] at himports
  rw [Part.toStmt]
  split
  case h_1 => simpa [Stmt.operations] using fun c hc => hp.toItem hc
  case h_2 hkind => exact hp.functionStmt hadds hkind
  case h_3 hkind => exact hp.classStmt hadds hkind
  case h_4 => exact hp.decoratedStmt
  case h_5 hkind =>
    simp only [hkind] at himports
    exact hasAll_map.2 himports
  case h_6 hkind =>
    simp only [hkind] at himports
    refine hasAll_append.2 ⟨?_, hasAll_map.2 himports⟩
    split
    · simpa [wildcardOps] using hadds.reports _ _ _ (.wildcard hkind)
    · exact hasAll_nil
  case h_11 =>
    cases h : p.parts.head? with
    | none => simp [Stmt.operations]
    | some value => simpa [Stmt.operations] using hp.mem_parts value (List.mem_of_head? h)
  -- `if`, `while`, `for`, `try` and `with`.
  case h_12 =>
    refine hasAll_append.2 ⟨hp.readField "condition", hasAll_append.2
      ⟨hp.bodyField "consequence", hasAll_operationsOf.2 fun st hst => ?_⟩⟩
    obtain ⟨c, hc, rfl⟩ := List.mem_map.1 hst
    exact (of_all (hp c (mem_children_of_fields hc))).alternative
  case h_13 =>
    simpa [Stmt.operations, operationsOf] using ⟨hp.readField "condition",
      hasAll_operationsOf.1 (hp.bodyField "body"), hasAll_operationsOf.1 hp.loopElse⟩
  case h_14 =>
    have hleft : ∀ c, p.field? "left" = some c →
        C.HasAll (Item.bind c.meaning.target).ops := by
      intro c hc
      simpa [Item.ops] using (hp.field hc).target
    simpa [Stmt.operations, operationsOf] using ⟨hp.readField "right", hleft,
      hasAll_operationsOf.1 (hp.bodyField "body"), hasAll_operationsOf.1 hp.loopElse⟩
  case h_15 =>
    refine hasAll_operationsOf.2 fun st hst => ?_
    obtain ⟨c, hc, rfl⟩ := List.mem_map.1 hst
    exact (of_all (hp c (mem_children_of_named hc))).tryClause
  case h_16 =>
    simpa [Stmt.operations, operationsOf] using
      ⟨hp.withItems, hasAll_operationsOf.1 (hp.bodyField "body")⟩
  case h_17 | h_18 | h_19 => simpa [Stmt.operations, Item.ops] using hp.mem_parts
  case h_20 | h_21 => exact hasAll_map.2 fun _ _ => C.bare _ rfl
  -- The other statements do nothing, or report themselves.
  case h_23 =>
    have hkind : p.kind ∉ statementKinds := by simp_all [statementKinds]
    simpa [Stmt.operations] using hadds.reports _ _ _ (.statement hkind)
  all_goals exact hasAll_nil

end DoesBelow

/-- What a node means is of a class, if what is below it is and what it adds. -/
theorem does_of_below {n : Node} (hp : (ofNode source n).DoesBelow C)
    (hadds : (ofNode source n).Adds C) : (ofNode source n).Does C where
  adds := hadds
  expr := expr_ofNode source n ▸ hp.toExpr hadds
  target := target_ofNode source n ▸ hp.toTarget hadds
  augmented := augmented_ofNode source n ▸ hp.toAugmented hadds
  interpolations := interpolations_ofNode source n ▸ hp.interpolations
  literalType := literalType_ofNode source n ▸ fun _ => hp.literalType?
  hintReads := hintReads_ofNode source n ▸ hp.toHintReads hadds
  sequence := sequence_ofNode source n ▸ hp.toSequence
  assignment := assignment_ofNode source n ▸ hp.toAssignment
  stmt := stmt_ofNode source n ▸ hp.toStmt hadds

mutual

/-- What is read from a tree is of a class, if what each node adds is. -/
theorem does_ofNode :
    ∀ n : Node, (∀ n' ∈ n.subtrees, (ofNode source n').Adds C) → (ofNode source n).All (Does C)
  | .mk info children, h => by
    have hchildren := does_ofNodes children fun n' hn' => h n' (List.mem_cons_of_mem _ hn')
    exact .mk (does_of_below hchildren (h _ List.mem_cons_self)) hchildren

/-- Every part of a tree does what is of a class if what each node adds is of it. -/
theorem does_ofNodes :
    ∀ ns : List Node, (∀ n' ∈ Node.subtreesOf ns, (ofNode source n').Adds C) →
      ∀ p ∈ ofNodes source ns, p.All (Does C)
  | [], _, p, hp => nomatch hp
  | n :: rest, h, p, hp => by
    rcases List.mem_cons.1 hp with rfl | hp
    · exact does_ofNode n fun n' hn' => h n' (List.mem_append_left _ hn')
    · exact does_ofNodes rest (fun n' hn' => h n' (List.mem_append_right _ hn')) p hp

end

end Part

namespace OpClass

variable {tree : Node}

/-- All that the statements of a tree do is of a class, if what each node adds is. -/
theorem hasAll_ofTree (h : ∀ n ∈ tree.subtrees, (Part.ofNode source n).Adds C) :
    C.HasAll (operationsOf (Module.ofTree source tree).body) :=
  (Part.DoesBelow.of_all (Part.does_ofNode tree h)).body

/-- All that a walk over a tree does is of a class, if what each node adds is. -/
theorem has_program (h : ∀ n ∈ tree.subtrees, (Part.ofNode source n).Adds C) :
    ∀ a ∈ (Module.ofTree source tree).program, C.Has a.op :=
  fun a ha => hasAll_ofTree h a.op (Module.op_mem_operationsOf ha)

end OpClass

end NameAtlas.Python
