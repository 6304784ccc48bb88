import NameAtlas.Proofs.Reading.Coverage
import NameAtlas.Proofs.Source.Trivia

/-!
# Reading past layout

Children are read by the fields they fill or by their places among the named ones. Comments are
never counted among these, so they can be taken out of a tree anywhere; a line continuation is
counted, and can be taken out where the children of its parent are read by their fields
(`Node.PassesOver`). Taking such nodes out after a tree has been read leaves what every part of it
means: this module shows it for expressions, targets, annotations and assignments, and `Layout` for
statements and whole trees.
-/

namespace NameAtlas

namespace Python

/-- The kinds of nodes of which every named child is read. -/
def allReadKinds : List String :=
  ["block", "argument_list", "comparison_operator", "conditional_expression", "list", "tuple", "set",
    "expression_list", "subscript", "slice", "list_splat", "dictionary_splat",
    "parenthesized_list_splat", "pair", "dictionary", "pattern_list", "tuple_pattern",
    "list_pattern", "type", "generic_type", "union_type", "type_parameter", "expression_statement",
    "try_statement", "except_clause", "except_group_clause", "assert_statement", "delete_statement",
    "raise_statement", "global_statement", "nonlocal_statement"]

/-- The kinds of nodes of which the first named child is read. -/
def firstReadKinds : List String :=
  ["concatenated_string", "parenthesized_expression", "await", "return_statement", "decorator",
    "typed_parameter", "as_pattern", "as_pattern_target"]

/-- The fields that hold lists of which every named child is read. -/
def listFields : List String := ["body", "consequence", "parameters", "superclasses"]

/-- The kinds of nodes with such fields. -/
def listHolderKinds : List String :=
  ["function_definition", "class_definition", "if_statement", "while_statement", "for_statement",
    "with_statement", "else_clause"]

/-- True for nodes whose lists are read. -/
def holdsLists (i : Source.NodeInfo) : Bool :=
  listHolderKinds.contains i.kind || i.field = "alternative"

end Python

namespace Source.Node

open Python (allReadKinds firstReadKinds listFields holdsLists)

variable (drop : NodeInfo → Bool)

/-- True if none of the named children of a node is picked. -/
def KeepsListed (n : Node) : Prop := ∀ c ∈ n.children.filter isListed, ¬drop c.info

instance (n : Node) : Decidable (n.KeepsListed drop) := inferInstanceAs (Decidable (∀ c ∈ _, _))

/-- True for a node that is read alike with and without the children that are picked. -/
structure PassesOver (n : Node) : Prop where
  /-- Only trivia is picked. -/
  trivia : ∀ c ∈ n.children, drop c.info → c.isTrivia
  /-- Where every named child is read, none is picked. -/
  all : n.kind ∈ allReadKinds → n.KeepsListed drop
  /-- Where the first named child is read, it is not picked. -/
  first : n.kind ∈ firstReadKinds →
    ∀ c ∈ (n.children.filter isListed).head?.toList, ¬drop c.info
  /-- Where the lists in fields are read, nothing in them is picked. -/
  lists : holdsLists n.info → ∀ c ∈ n.children, c.field ∈ listFields → c.KeepsListed drop

instance (n : Node) : Decidable (n.PassesOver drop) :=
  decidable_of_iff
    ((∀ c ∈ n.children, drop c.info → c.isTrivia) ∧
      (n.kind ∈ allReadKinds → n.KeepsListed drop) ∧
      (n.kind ∈ firstReadKinds →
        ∀ c ∈ (n.children.filter isListed).head?.toList, ¬drop c.info) ∧
      (holdsLists n.info → ∀ c ∈ n.children, c.field ∈ listFields → c.KeepsListed drop))
    ⟨fun ⟨trivia, all, first, lists⟩ => ⟨trivia, all, first, lists⟩,
      fun h => ⟨h.trivia, h.all, h.first, h.lists⟩⟩

end Source.Node

namespace Python

open Source

namespace Part

/-! ### The node of a part -/

mutual

/-- The tree that a part was read from. -/
def node : Part → Node
  | .mk info _ _ children => .mk info (nodes children)

/-- The trees that several parts were read from. -/
def nodes : List Part → List Node
  | [] => []
  | p :: rest => node p :: nodes rest

end

/-- The nodes of some parts are those of each. -/
theorem nodes_eq_map (ps : List Part) : nodes ps = ps.map node := by
  induction ps with
  | nil => rfl
  | cons p rest ih => rw [nodes, ih, List.map_cons]

/-- The node of a part has its info. -/
@[simp] theorem info_node (p : Part) : p.node.info = p.info := by
  cases p
  rfl

/-- The node of a part has its kind. -/
@[simp] theorem kind_node (p : Part) : p.node.kind = p.kind := congrArg NodeInfo.kind (info_node p)

/-- The node of a part has its field. -/
@[simp] theorem field_node (p : Part) : p.node.field = p.info.field :=
  congrArg NodeInfo.field (info_node p)

/-- The children of the node of a part are the nodes of its children. -/
theorem children_node (p : Part) : p.node.children = p.children.map node := by
  cases p
  exact nodes_eq_map _

/-- The listed children of the node of a part are the nodes of its named children. -/
theorem listed_node (p : Part) : p.node.children.filter Node.isListed = p.named.map node := by
  rw [children_node, List.filter_map, named]
  congr 2
  funext c
  simp [Function.comp, Node.isListed]

mutual

/-- The node of what is read from a node is the node. -/
theorem node_ofNode (source : SourceText) : ∀ n : Node, (ofNode source n).node = n
  | .mk info children => by rw [ofNode, ofChildren, node, nodes_ofNodes source children]

/-- The nodes of what is read from nodes are the nodes. -/
theorem nodes_ofNodes (source : SourceText) : ∀ ns : List Node, nodes (ofNodes source ns) = ns
  | [] => rfl
  | n :: rest => by rw [ofNodes, nodes, node_ofNode source n, nodes_ofNodes source rest]

end

/-! ### Parts without some of those below them -/

variable (drop : NodeInfo → Bool)

mutual

/-- The part without those below it that `drop` picks. -/
def erase : Part → Part
  | .mk info word meaning children => .mk info word meaning (eraseIn children)

/-- Several parts without those that `drop` picks. -/
def eraseIn : List Part → List Part
  | [] => []
  | p :: rest => if drop p.info then eraseIn rest else erase p :: eraseIn rest

end

/-- Erasing in some parts drops those that are to go and erases in the others. -/
theorem eraseIn_eq (ps : List Part) :
    eraseIn drop ps = (ps.filter fun p => !drop p.info).map (erase drop) := by
  induction ps with
  | nil => rfl
  | cons p rest ih => by_cases h : drop p.info <;> simp [eraseIn, h, ih]

section Fields

variable (p : Part)

/-- Erasing leaves the info. -/
@[simp] theorem info_erase : (p.erase drop).info = p.info := by
  cases p
  rfl

/-- Erasing leaves the word. -/
@[simp] theorem word_erase : (p.erase drop).word = p.word := by
  cases p
  rfl

/-- Erasing leaves the meanings. -/
@[simp] theorem meaning_erase : (p.erase drop).meaning = p.meaning := by
  cases p
  rfl

/-- Erasing leaves the kind. -/
@[simp] theorem kind_erase : (p.erase drop).kind = p.kind := by
  rw [kind, info_erase, kind]

/-- Erasing leaves the text. -/
@[simp] theorem text_erase : (p.erase drop).text = p.text := by
  rw [text, word_erase, text]

/-- Erasing leaves the location. -/
@[simp] theorem location_erase : (p.erase drop).location = p.location := by
  rw [location, word_erase, location]

/-- The children that are kept are erased in. -/
theorem children_erase :
    (p.erase drop).children = (p.children.filter fun c => !drop c.info).map (erase drop) := by
  cases p
  exact eraseIn_eq drop _

/-- The named children that are kept are erased in. -/
theorem named_erase :
    (p.erase drop).named = (p.named.filter fun c => !drop c.info).map (erase drop) := by
  rw [named, children_erase, List.filter_map, named, List.filter_filter, List.filter_filter]
  congr 1
  refine List.filter_congr fun c _ => ?_
  simp [Bool.and_comm]

end Fields

/-- True if none of the named children of a part is picked. -/
def KeepsNamed (p : Part) : Prop := ∀ c ∈ p.named, ¬drop c.info

variable {drop} {p : Part}

/-- A part keeps its named children if its node keeps the listed ones. -/
theorem keepsNamed_iff : p.KeepsNamed drop ↔ p.node.KeepsListed drop := by
  simp [KeepsNamed, Node.KeepsListed, listed_node]

/-- If all named children are kept, erasing drops none. -/
theorem KeepsNamed.named_erase (h : p.KeepsNamed drop) :
    (p.erase drop).named = p.named.map (erase drop) := by
  rw [Part.named_erase, List.filter_eq_self.2 fun c hc => by simpa using h c hc]

/-- If all named children are kept, the parts of the expression stay. -/
theorem KeepsNamed.parts_erase (h : p.KeepsNamed drop) : (p.erase drop).parts = p.parts := by
  rw [Part.parts, h.named_erase, List.map_map]
  exact List.map_congr_left fun c _ => congrArg Meaning.expr (meaning_erase drop c)

/-- If all named children are kept, the block stays. -/
theorem KeepsNamed.body_erase (h : p.KeepsNamed drop) : (p.erase drop).body = p.body := by
  rw [Part.body, h.named_erase, List.map_map]
  exact List.map_congr_left fun c _ => congrArg Meaning.stmt (meaning_erase drop c)

/-- If the first named child is kept, it is still the first. -/
theorem head?_named_erase (h : ∀ c ∈ p.named.head?, ¬drop c.info) :
    (p.erase drop).named.head? = p.named.head?.map (erase drop) := by
  rw [named_erase, List.head?_map]
  cases hn : p.named with
  | nil => rfl
  | cons c rest =>
    have hc : ¬drop c.info := h c (by rw [hn]; rfl)
    rw [List.filter_cons_of_pos (by simpa using hc)]
    rfl

/-- A node of one of the kinds that hold lists holds lists. -/
theorem holdsLists_of_kind (hkind : p.kind ∈ listHolderKinds) : holdsLists p.info := by
  simp only [holdsLists, Bool.or_eq_true, List.contains_iff_mem]
  exact .inl hkind

/-- True for a part that passes over what is picked, as does everything below it. -/
def Clear (drop : NodeInfo → Bool) (p : Part) : Prop := ∀ t ∈ p.node.subtrees, t.PassesOver drop

namespace Clear

/-- What is dropped in a part is passed over there. -/
theorem self (hp : p.Clear drop) : p.node.PassesOver drop := hp _ (Node.self_mem_subtrees _)

/-- What is dropped in a child is passed over there. -/
theorem child (hp : p.Clear drop) {c : Part} (hc : c ∈ p.children) : c.Clear drop := by
  have hmem : c.node ∈ p.node.children := children_node p ▸ List.mem_map_of_mem hc
  exact fun t ht => hp t (Node.subtrees_subset_of_mem_children hmem ht)

/-- What is dropped in a named child is passed over there. -/
theorem of_named (hp : p.Clear drop) {c : Part} (hc : c ∈ p.named) : c.Clear drop :=
  hp.child (mem_children_of_named hc)

/-- What is dropped in the child in a field is passed over there. -/
theorem of_field (hp : p.Clear drop) {c : Part} {name : String} (hc : p.field? name = some c) :
    c.Clear drop := hp.child (mem_children_of_field? hc)

/-- What is dropped is trivia and has no children. -/
theorem isTrivia (hp : p.Clear drop) {c : Part} (hc : c ∈ p.children) (hdrop : drop c.info) :
    c.info.isTrivia ∧ c.children = [] := by
  have hmem : c.node ∈ p.node.children := children_node p ▸ List.mem_map_of_mem hc
  have htrivia := hp.self.trivia c.node hmem (by rwa [info_node])
  simpa [Node.isTrivia, children_node] using htrivia

/-- A named child that is dropped is a comment or a line continuation. -/
theorem kind_of_drop (hp : p.Clear drop) {c : Part} (hc : c ∈ p.named) (hdrop : drop c.info) :
    c.kind = "comment" ∨ c.kind = "line_continuation" :=
  NodeInfo.kind_of_isTrivia (hp.isTrivia (mem_children_of_named hc) hdrop).1

/-- A part of which all named children are read keeps them. -/
theorem keepsNamed (hp : p.Clear drop) (hkind : p.kind ∈ allReadKinds) : p.KeepsNamed drop :=
  keepsNamed_iff.2 (hp.self.all (by rwa [kind_node]))

/-- What fills a field for lists keeps its named children. -/
theorem keepsNamed_field (hp : p.Clear drop) (hlists : holdsLists p.info) {c : Part}
    {name : String} (hc : p.field? name = some c) (hname : name ∈ listFields) :
    c.KeepsNamed drop := by
  have hmem : c.node ∈ p.node.children :=
    children_node p ▸ List.mem_map_of_mem (mem_children_of_field? hc)
  have hfield : c.info.field = name := by simpa using List.find?_some hc
  exact keepsNamed_iff.2
    (hp.self.lists (by rwa [info_node]) c.node hmem (by rwa [field_node, hfield]))

/-- Erasing leaves the parts of an expression of which all are read. -/
theorem parts_erase (hp : p.Clear drop) (hkind : p.kind ∈ allReadKinds) :
    (p.erase drop).parts = p.parts := (hp.keepsNamed hkind).parts_erase

/-- Erasing leaves the first named child of a part of which it is read. -/
theorem head?_named_erase (hp : p.Clear drop) (hkind : p.kind ∈ firstReadKinds ++ allReadKinds) :
    (p.erase drop).named.head? = p.named.head?.map (erase drop) := by
  refine Part.head?_named_erase fun c hc => ?_
  rcases List.mem_append.1 hkind with hfirst | hall
  · have hc : c.node ∈ (p.named.map node).head?.toList := by
      rw [List.head?_map, Option.mem_def.1 hc]
      exact List.mem_cons_self
    have hkept := hp.self.first (by rwa [kind_node]) c.node (by rwa [listed_node])
    rwa [info_node] at hkept
  · exact hp.keepsNamed hall c (List.mem_of_mem_head? hc)

/-- What is read from the first named child alike with and without what is picked. -/
theorem bind_head?_named_erase (hp : p.Clear drop) (hkind : p.kind ∈ firstReadKinds ++ allReadKinds)
    {β : Type} {f : Part → Option β} (hsame : ∀ c : Part, f (c.erase drop) = f c) :
    (p.erase drop).named.head?.bind f = p.named.head?.bind f := by
  rw [hp.head?_named_erase hkind, Option.bind_map]
  exact congrArg (Option.bind _) (funext hsame)

/-- Erasing leaves what is read of the first named child. -/
theorem map_head?_named_erase (hp : p.Clear drop) (hkind : p.kind ∈ firstReadKinds ++ allReadKinds)
    {β : Type} {f : Part → β} (hsame : ∀ c : Part, f (c.erase drop) = f c) :
    (p.erase drop).named.head?.map f = p.named.head?.map f := by
  rw [hp.head?_named_erase hkind, Option.map_map]
  exact congrArg (fun f => Option.map f _) (funext hsame)

/-- Erasing leaves the first part of an expression of which it is read. -/
theorem head?_parts_erase (hp : p.Clear drop) (hkind : p.kind ∈ firstReadKinds ++ allReadKinds) :
    (p.erase drop).parts.head? = p.parts.head? := by
  rw [Part.parts, List.head?_map, Part.parts, List.head?_map]
  exact hp.map_head?_named_erase hkind fun c => congrArg Meaning.expr (meaning_erase drop c)

/-- What fills a field is not picked. -/
theorem filter_field (hp : p.Clear drop) {name : String} (hname : name ≠ "") :
    (p.children.filter fun c => !drop c.info).filter (fun c => c.info.field = name) =
      p.children.filter fun c => c.info.field = name := by
  rw [List.filter_filter]
  refine List.filter_congr fun c hc => ?_
  by_cases hdrop : drop c.info
  · have hfield := NodeInfo.field_of_isTrivia (hp.isTrivia hc hdrop).1
    simp [hdrop, hfield, Ne.symm hname]
  · simp [hdrop]

/-- Erasing drops no child in a field. -/
theorem fields_erase (hp : p.Clear drop) {name : String} (hname : name ≠ "") :
    (p.erase drop).fields name = (p.fields name).map (erase drop) := by
  rw [Part.fields, children_erase, List.filter_map, Part.fields, ← hp.filter_field hname]
  simp [Function.comp_def]

/-- Erasing leaves the child in a field. -/
theorem field?_erase (hp : p.Clear drop) {name : String} (hname : name ≠ "") :
    (p.erase drop).field? name = (p.field? name).map (erase drop) := by
  have hfields := congrArg List.head? (hp.fields_erase hname)
  rwa [Part.fields, List.head?_filter, List.head?_map, Part.fields, List.head?_filter] at hfields

/-- What is read from a field alike with and without what is picked. -/
theorem map_field?_erase (hp : p.Clear drop) {name : String} (hname : name ≠ "") {β : Type}
    {f : Part → β} (hsame : ∀ c : Part, f (c.erase drop) = f c) :
    ((p.erase drop).field? name).map f = (p.field? name).map f := by
  rw [hp.field?_erase hname, Option.map_map]
  exact congrArg (fun f => Option.map f _) (funext hsame)

/-- Erasing leaves what is evaluated in a field. -/
theorem exprField_erase (hp : p.Clear drop) {name : String} (hname : name ≠ "") :
    (p.erase drop).exprField name = p.exprField name := by
  rw [Part.exprField, hp.map_field?_erase hname fun c => by rw [meaning_erase], Part.exprField]

/-- Erasing leaves the block in a field for lists. -/
theorem bodyField_erase (hp : p.Clear drop) (hlists : holdsLists p.info) {name : String}
    (hname : name ∈ listFields) : (p.erase drop).bodyField name = p.bodyField name := by
  have hne : name ≠ "" := by
    rintro rfl
    simp [listFields] at hname
  rw [Part.bodyField, hp.field?_erase hne, Option.map_map, Part.bodyField]
  cases hc : p.field? name with
  | none => rfl
  | some c =>
    have hbody := (hp.keepsNamed_field hlists hc hname).body_erase
    simpa using hbody

/-- The named children of a kind of syntax are kept. -/
theorem filter_named_erase (hp : p.Clear drop) {kind : String}
    (hkind : kind ≠ "comment" ∧ kind ≠ "line_continuation") :
    ((p.erase drop).named.filter fun c => c.kind = kind) =
      (p.named.filter fun c => c.kind = kind).map (erase drop) := by
  rw [named_erase, List.filter_map, List.filter_filter]
  congr 1
  refine List.filter_congr fun c hc => ?_
  by_cases hdrop : drop c.info
  · have hne : c.kind ≠ kind := by
      rintro rfl
      exact (hp.kind_of_drop hc hdrop).elim hkind.1 hkind.2
    simp [hne]
  · simp [hdrop]

/-- What is read from the named children, if those that are picked mean nothing. -/
theorem flatMap_named_erase {β : Type} {f : Part → List β} (hsame : ∀ c ∈ p.named, f (c.erase drop) = f c)
    (hnil : ∀ c ∈ p.named, drop c.info → f c = []) :
    (p.erase drop).named.flatMap f = p.named.flatMap f := by
  rw [named_erase, List.flatMap_map]
  -- Only the named children count from here on.
  revert hsame hnil
  induction p.named with
  | nil => exact fun _ _ => rfl
  | cons c rest ih =>
    intro hsame hnil
    have ih := ih (fun d hd => hsame d (List.mem_cons_of_mem c hd))
      fun d hd => hnil d (List.mem_cons_of_mem c hd)
    by_cases hdrop : drop c.info
    · simp [hdrop, hnil c List.mem_cons_self hdrop, ih]
    · simp [hdrop, hsame c List.mem_cons_self, ih]

/-! ### Expressions -/

/-- Erasing leaves the type of a literal. -/
theorem literalType?_erase (hp : p.Clear drop) : (p.erase drop).literalType? = p.literalType? := by
  simp only [Part.literalType?, kind_erase, text_erase]
  split
  case h_7 =>
    exact hp.bind_head?_named_erase (by rw [‹p.kind = _›]; decide) fun c => by rw [meaning_erase]
  all_goals rfl

/-- Erasing leaves the outcome of a literal. -/
theorem literalOutcome_erase (hp : p.Clear drop) : (p.erase drop).literalOutcome = p.literalOutcome := by
  rw [Part.literalOutcome, hp.literalType?_erase, Part.literalOutcome]

/-- Erasing leaves the interpolations of a string. -/
theorem interpolations_erase (hp : p.Clear drop) :
    (p.erase drop).interpolations = p.interpolations := by
  refine flatMap_named_erase (fun c hc => ?_) fun c hc hdrop => ?_
  · simp [(hp.of_named hc).exprField_erase]
  · rcases hp.kind_of_drop hc hdrop with hkind | hkind <;> simp [hkind]

/-- Erasing leaves the arguments of a call. -/
theorem callArguments_erase (hp : p.Clear drop) : (p.erase drop).callArguments = p.callArguments := by
  rw [Part.callArguments, hp.field?_erase (by decide), Part.callArguments]
  cases ha : p.field? "arguments" with
  | none => rfl
  | some a =>
    simp only [Option.map_some, kind_erase, meaning_erase]
    split
    · next hkind => exact (hp.of_field ha).parts_erase (by rw [hkind]; decide)
    · rfl

/-- Erasing leaves the expression of a part. -/
theorem toExpr_erase (hp : p.Clear drop) : (p.erase drop).toExpr = p.toExpr := by
  simp only [Part.toExpr, kind_erase]
  split
  -- Attributes, calls and named expressions are read by their fields.
  case h_2 | h_3 | h_20 =>
    rw [hp.field?_erase (by decide)]
    cases p.field? _ with
    | none => simp [hp.exprField_erase]
    | some c => simp [hp.exprField_erase, hp.callArguments_erase]
  case h_4 | h_5 => rw [hp.interpolations_erase, hp.literalOutcome_erase]
  case h_6 | h_7 | h_8 | h_9 | h_10 => rw [hp.literalOutcome_erase]
  -- Of parentheses and what is awaited the first child is read.
  case h_17 | h_19 =>
    have hhead := hp.head?_parts_erase (by rw [‹p.kind = _›]; decide)
    simp only [List.take_one, hhead]
  -- Where the arguments or elements are read, all of them are kept.
  case h_15 | h_16 | h_18 | h_21 | h_22 | h_23 | h_24 | h_25 | h_26 | h_27 | h_28 | h_29 | h_30 | h_31 =>
    rw [hp.parts_erase (by rw [‹p.kind = _›]; decide)]
  all_goals simp [hp.exprField_erase]

/-- Erasing leaves an attribute that is assigned to. -/
theorem attributeTarget_erase (hp : p.Clear drop) :
    (p.erase drop).attributeTarget = p.attributeTarget := by
  rw [Part.attributeTarget, hp.field?_erase (by decide), hp.field?_erase (by decide),
    Part.attributeTarget]
  cases p.field? "object" <;> cases p.field? "attribute" <;> simp

/-- Erasing leaves the targets in a part of which all named children are read. -/
theorem targets_erase (hp : p.Clear drop) (hkind : p.kind ∈ allReadKinds) :
    ((p.erase drop).named.map fun c => c.meaning.target) = p.named.map fun c => c.meaning.target := by
  rw [(hp.keepsNamed hkind).named_erase, List.map_map]
  simp [Function.comp_def]

/-- Erasing leaves the target of a part. -/
theorem toTarget_erase (hp : p.Clear drop) : (p.erase drop).toTarget = p.toTarget := by
  simp only [Part.toTarget, kind_erase, info_erase, word_erase, location_erase]
  split
  case h_2 => exact hp.attributeTarget_erase
  case h_3 => rw [hp.toExpr_erase]
  case h_4 =>
    rw [hp.map_head?_named_erase (by rw [‹p.kind = _›]; decide) fun c => by rw [meaning_erase]]
  case h_5 | h_6 | h_7 | h_8 | h_9 | h_10 => rw [hp.targets_erase (by rw [‹p.kind = _›]; decide)]
  all_goals rfl

/-- Erasing leaves the target of an operator. -/
theorem toAugmented_erase (hp : p.Clear drop) : (p.erase drop).toAugmented = p.toAugmented := by
  simp only [Part.toAugmented, kind_erase, word_erase, location_erase, hp.attributeTarget_erase, hp.toExpr_erase]

/-! ### Annotations -/

end Clear

/-- Erasing leaves what is optional in a hint. -/
theorem optionalForm_erase (p : Part) : (p.erase drop).optionalForm = p.optionalForm := by
  rw [optionalForm, meaning_erase, optionalForm]

/-- Erasing leaves the alternatives of a hint. -/
theorem unionForm_erase (ps : List Part) : unionForm (ps.map (erase drop)) = unionForm ps := by
  rw [unionForm, List.filter_map, unionForm, List.length_map]
  have hmeaning : (fun m : Part => !m.meaning.isNone) ∘ erase drop = fun m => !m.meaning.isNone := by
    funext m
    simp
  rw [hmeaning]
  generalize List.filter _ ps = members
  rcases members with _ | ⟨single, _ | ⟨_, _⟩⟩
  · rfl
  · simp [optionalForm_erase]
  · rfl

/-- Erasing leaves the arguments of a hint. -/
theorem genericForm_erase (head : String) (ps : List Part) :
    genericForm head (ps.map (erase drop)) = genericForm head ps := by
  simp only [genericForm]
  generalize String.ofList _ = last
  by_cases hoptional : last = "Optional"
  · subst hoptional
    rcases ps with _ | ⟨inner, _ | ⟨_, _⟩⟩ <;> simp [optionalForm_erase]
  · by_cases hunion : last = "Union"
    · subst hunion
      simpa using unionForm_erase ps
    · simp [hoptional]

namespace Clear

/-- Erasing leaves the content of a string. -/
theorem stringContent_erase (hp : p.Clear drop) : (p.erase drop).stringContent = p.stringContent := by
  rw [Part.stringContent, hp.filter_named_erase (by decide), List.map_map, Part.stringContent]
  simp [Function.comp_def]

/-- The arguments of a generic type. -/
theorem typeArguments_erase (hp : p.Clear drop) :
    (((p.erase drop).named.find? fun c => c.kind = "type_parameter").map Part.named).getD [] =
      (((p.named.find? fun c => c.kind = "type_parameter").map Part.named).getD []).map
        (erase drop) := by
  rw [← List.head?_filter, hp.filter_named_erase (by decide), List.head?_map,
    List.head?_filter]
  cases hc : p.named.find? fun c => c.kind = "type_parameter" with
  | none => rfl
  | some c =>
    have hkind : c.kind = "type_parameter" := by simpa using List.find?_some hc
    exact ((hp.of_named (List.mem_of_find?_eq_some hc)).keepsNamed (by rw [hkind]; decide)).named_erase

/-- Erasing leaves the form of a hint. -/
theorem toTypeForm_erase (hp : p.Clear drop) : (p.erase drop).toTypeForm = p.toTypeForm := by
  simp only [Part.toTypeForm, kind_erase, text_erase]
  split
  case h_1 | h_2 =>
    exact hp.bind_head?_named_erase (by rw [‹p.kind = _›]; decide) fun c => by rw [meaning_erase]
  case h_7 => rw [hp.stringContent_erase]
  -- The arguments of a type are subscripts, or children of a node of their own.
  case h_9 =>
    rw [hp.field?_erase (by decide), hp.fields_erase (by decide), Option.map_map]
    simp [Function.comp_def, genericForm_erase]
  case h_10 =>
    rw [hp.head?_named_erase (by rw [‹p.kind = _›]; decide), hp.typeArguments_erase, Option.map_map]
    simp [Function.comp_def, genericForm_erase]
  -- A union of two types is an operator with two sides.
  case h_11 =>
    rw [hp.field?_erase (by decide), hp.field?_erase (by decide), hp.field?_erase (by decide)]
    rcases p.field? "operator" with _ | operator
    · rfl
    · rcases p.field? "left" with _ | left
      · rfl
      · rcases p.field? "right" with _ | right
        · rfl
        · have hunion : unionForm [left.erase drop, right.erase drop] = unionForm [left, right] :=
            unionForm_erase [left, right]
          simp [hunion]
  case h_12 => rw [(hp.keepsNamed (by rw [‹p.kind = _›]; decide)).named_erase, unionForm_erase]
  all_goals rfl

/-- Erasing leaves what is read as a hint. -/
theorem toHintReads_erase (hp : p.Clear drop) : (p.erase drop).toHintReads = p.toHintReads := by
  simp only [Part.toHintReads, kind_erase, hp.toExpr_erase]
  split
  case h_2 | h_3 | h_4 | h_5 =>
    rw [(hp.keepsNamed (by rw [‹p.kind = _›]; decide)).named_erase, List.flatMap_map]
    simp
  all_goals rfl

/-- Erasing leaves whether a hint is `None`. -/
theorem toIsNone_erase (hp : p.Clear drop) : (p.erase drop).toIsNone = p.toIsNone := by
  simp only [Part.toIsNone, kind_erase]
  split
  case h_1 | h_2 =>
    rw [hp.head?_named_erase (by rw [‹p.kind = _›]; decide), Option.any_map]
    simp
  case h_3 => rfl

end Clear

/-- Erasing leaves a hint. -/
theorem hint?_erase (p : Part) : (p.erase drop).hint? = p.hint? := by
  rw [hint?, meaning_erase, info_erase, text_erase, location_erase, hint?]

/-- Erasing leaves the hint in a field. -/
theorem Clear.hintField?_erase (hp : p.Clear drop) {name : String} (hname : name ≠ "") :
    (p.erase drop).hintField? name = p.hintField? name := by
  rw [hintField?, hp.field?_erase hname, Option.bind_map, hintField?]
  simp only [Function.comp_def, hint?_erase]

/-! ### Assignments -/

/-- Erasing leaves whether a part is starred. -/
theorem isStarred_erase (p : Part) : (p.erase drop).isStarred = p.isStarred := by
  rw [isStarred, kind_erase, isStarred]

namespace Clear

/-- Erasing leaves the values that a part is unpacked into. -/
theorem toSequence_erase (hp : p.Clear drop) : (p.erase drop).toSequence = p.toSequence := by
  simp only [Part.toSequence, kind_erase]
  split
  case h_1 | h_2 =>
    exact hp.bind_head?_named_erase (by rw [‹p.kind = _›]; decide) fun c => by rw [meaning_erase]
  case h_3 | h_4 | h_5 =>
    rw [(hp.keepsNamed (by rw [‹p.kind = _›]; decide)).named_erase, List.map_map]
    simp [Function.comp_def, isStarred_erase]
  case h_6 => rfl

/-- Erasing leaves the pairs of an unpacking. -/
theorem unpackPairs?_erase {left right : Part} (hleft : left.Clear drop) :
    Part.unpackPairs? (left.erase drop) (right.erase drop) = Part.unpackPairs? left right := by
  simp only [Part.unpackPairs?, kind_erase, meaning_erase]
  split
  · next hkind =>
    have hlist : left.kind ∈ allReadKinds := by
      simp only [Bool.or_eq_true, decide_eq_true_eq] at hkind
      rcases hkind with (hkind | hkind) | hkind <;> rw [hkind] <;> decide
    have hstarred : isStarred ∘ erase drop = isStarred := funext isStarred_erase
    rw [(hleft.keepsNamed hlist).named_erase, List.length_map, List.any_map, List.map_map, hstarred]
    simp [Function.comp_def]
  · rfl

/-- The pairs of the two sides of an assignment. -/
theorem sides_erase (hp : p.Clear drop) :
    (((p.erase drop).field? "left").bind fun left =>
        ((p.erase drop).field? "right").bind (Part.unpackPairs? left)) =
      (p.field? "left").bind fun left => (p.field? "right").bind (Part.unpackPairs? left) := by
  rw [hp.field?_erase (by decide), hp.field?_erase (by decide)]
  cases hleft : p.field? "left" with
  | none => rfl
  | some left =>
    cases p.field? "right" with
    | none => rfl
    | some right => exact (hp.of_field hleft).unpackPairs?_erase

/-- Erasing leaves the assignment of a part. -/
theorem toAssignment_erase (hp : p.Clear drop) :
    (p.erase drop).toAssignment = p.toAssignment := by
  have htarget : (((p.erase drop).field? "left").map fun c => c.meaning.target) =
      (p.field? "left").map fun c => c.meaning.target :=
    hp.map_field?_erase (by decide) fun c => by rw [meaning_erase]
  simp only [Part.toAssignment, hp.hintField?_erase (show "type" ≠ "" by decide), htarget,
    hp.sides_erase]
  split
  · rfl
  · rw [hp.field?_erase (by decide)]
    cases p.field? "right" <;> simp

/-- Erasing leaves an item of a statement. -/
theorem toItem_erase (hp : p.Clear drop) : (p.erase drop).toItem = p.toItem := by
  simp only [Part.toItem, kind_erase, meaning_erase]
  split
  case h_2 =>
    rw [hp.exprField_erase (by decide), hp.map_field?_erase (by decide) fun c => by rw [meaning_erase]]
  all_goals rfl

end Clear

end Part

end Python

end NameAtlas

