import NameAtlas.Proofs.Reading.Identifiers

/-!
# Trees of the grammar

What the grammar of Python, as the parser has it, says about where names can stand: which children
of a node of each kind can hold identifiers, by the fields that they fill or by their kinds
(`shapeOf`), and how many there are. A tree follows the grammar if every node of it has the shape
that its kind demands (`Node.Grammatical`). Comments and line continuations may stand anywhere.
-/

namespace NameAtlas.Python

open Source (Node)

/-- A field of a node, with the kinds of the nodes that fill it; no kinds mean any. -/
structure Slot where
  /-- The field. -/
  field : String
  /-- The kinds. -/
  kinds : List String
  deriving DecidableEq, Repr, Inhabited

/-- A field that nodes of any kind fill. -/
def Slot.any (field : String) : Slot := ⟨field, []⟩

/-- A slot for any kind stands in its field. -/
@[simp] theorem Slot.any_field (field : String) : (Slot.any field).field = field := rfl

/-- True for a node that fills a slot. -/
def Slot.accepts (s : Slot) (c : Node) : Bool :=
  c.field = s.field && (s.kinds.isEmpty || s.kinds.contains c.kind)

/-- A node that a slot accepts stands in its field. -/
theorem Slot.field_of_accepts {s : Slot} {c : Node} (h : s.accepts c) : c.field = s.field :=
  of_decide_eq_true (Bool.and_eq_true_iff.1 h).1

/-- A node that a slot accepts is of one of its kinds. -/
theorem Slot.mem_kinds_of_accepts {s : Slot} {c : Node} (h : s.accepts c) (hs : s.kinds ≠ []) :
    c.kind ∈ s.kinds := by
  simp only [Slot.accepts, Bool.and_eq_true, Bool.or_eq_true, List.isEmpty_iff, hs, false_or,
    List.contains_iff_mem] at h
  exact h.2

/-- A node that a slot of one kind accepts is of this kind. -/
theorem Slot.kind_of_accepts {field kind : String} {c : Node}
    (h : (Slot.mk field [kind]).accepts c) : c.kind = kind :=
  List.mem_singleton.1 (Slot.mem_kinds_of_accepts h (List.cons_ne_nil _ _))

/-- Where the children of a node that hold identifiers stand. -/
structure Shape where
  /-- The slots that are filled once at most. -/
  once : List Slot := []
  /-- The slots that are filled any number of times. -/
  many : List Slot := []
  /-- The kinds of children that stand in no slot. -/
  kinds : List String := []
  deriving DecidableEq, Repr, Inhabited

/-- True for a child that may stand under a node of a shape. -/
def Shape.admits (s : Shape) (c : Node) : Bool :=
  c.isNameless || s.kinds.contains c.kind || s.once.any (·.accepts c) || s.many.any (·.accepts c)

/-- True for children that a node of a shape may have. -/
def Shape.fits (s : Shape) (children : List Node) : Bool :=
  children.all s.admits &&
    s.once.all fun slot => (children.filter fun c => c.field = slot.field).length ≤ 1

/-- The shapes of the kinds of nodes whose children are not all alike. -/
def shapeOf : String → Option Shape
  | "identifier" | "integer" | "float" | "true" | "false" | "none" | "ellipsis" | "pass_statement"
  | "break_statement" | "continue_statement" | "keyword_separator" | "positional_separator"
  | "line_continuation" => some {}
  | "attribute" => some { once := [.any "object", ⟨"attribute", ["identifier"]⟩] }
  | "call" => some { once := [.any "function", .any "arguments"] }
  | "string" | "concatenated_string" => some { kinds := ["string", "interpolation"] }
  | "interpolation" =>
    some { once := [.any "expression", .any "format_specifier"] }
  | "binary_operator" | "boolean_operator" | "augmented_assignment" =>
    some { once := [.any "left", .any "right"] }
  | "unary_operator" | "not_operator" => some { once := [.any "argument"] }
  | "named_expression" => some { once := [⟨"name", ["identifier"]⟩, .any "value"] }
  | "keyword_argument" | "default_parameter" =>
    some { once := [.any "name", .any "value"] }
  | "typed_default_parameter" =>
    some { once := [.any "name", .any "type", .any "value"] }
  | "typed_parameter" => some { once := [.any "type"], many := [.any ""] }
  | "assignment" =>
    some { once := [.any "left", .any "type", .any "right"] }
  | "function_definition" =>
    some
      { once := [.any "name", .any "type_parameters", ⟨"parameters", ["parameters"]⟩,
          .any "return_type", ⟨"body", ["block"]⟩] }
  | "class_definition" =>
    some
      { once := [.any "name", .any "type_parameters", ⟨"superclasses", ["argument_list"]⟩,
          ⟨"body", ["block"]⟩] }
  | "decorated_definition" => some { once := [.any "definition"], kinds := ["decorator"] }
  | "if_statement" =>
    some
      { once := [.any "condition", ⟨"consequence", ["block"]⟩]
        many := [⟨"alternative", ["elif_clause", "else_clause"]⟩] }
  | "elif_clause" => some { once := [.any "condition", ⟨"consequence", ["block"]⟩] }
  | "else_clause" => some { once := [⟨"body", ["block"]⟩] }
  | "while_statement" =>
    some
      { once := [.any "condition", ⟨"body", ["block"]⟩, ⟨"alternative", ["else_clause"]⟩] }
  | "for_statement" =>
    some
      { once := [.any "left", .any "right", ⟨"body", ["block"]⟩,
          ⟨"alternative", ["else_clause"]⟩] }
  | "try_statement" =>
    some
      { kinds := ["block", "except_clause", "except_group_clause", "else_clause",
          "finally_clause"] }
  | "as_pattern" => some { once := [.any "alias"], many := [.any ""] }
  | "finally_clause" => some { kinds := ["block"] }
  | "with_statement" => some { once := [⟨"body", ["block"]⟩], kinds := ["with_clause"] }
  | "with_clause" => some { kinds := ["with_item"] }
  | "with_item" => some { once := [.any "value"] }
  | _ => none

/-- The fields that a node of a kind cannot be without. -/
def requiredFields : String → List String
  | "function_definition" | "class_definition" => ["name"]
  | "attribute" => ["object", "attribute"]
  | "call" => ["function"]
  | _ => []

/-- The kinds of nodes around one other node. -/
def wrapperKinds : List String :=
  ["parenthesized_expression", "type", "await", "return_statement", "as_pattern_target",
    "decorator"]

end NameAtlas.Python

namespace NameAtlas.Source.Node

open Python (requiredFields shapeOf wrapperKinds)

/-- True for nodes that are neither punctuation nor comments. -/
def isListed (n : Node) : Bool := n.info.named && n.kind ≠ "comment"

/-- True for the nodes that the grammar speaks of. -/
def isSubstantial (n : Node) : Bool := n.isListed && n.kind ≠ "line_continuation"

/-- True for nodes of which every second one is what stands behind `as`; the first is one of these or
not. -/
def alternate (second : Bool) : List Node → Bool
  | [] => true
  | n :: rest => decide (n.field = "alias") == second && alternate (!second) rest

/-- True for the parts of an `except` clause that are no exceptions and targets by themselves. -/
def isExceptPart (n : Node) : Bool := n.kind = "block" || n.kind = "as_pattern"

/-- True for a node whose children come in the number and order that its kind demands. -/
def wellOrdered (n : Node) : Bool :=
  let substantial := n.children.filter isSubstantial
  if wrapperKinds.contains n.kind then substantial.length ≤ 1
  else if n.kind = "as_pattern" then substantial.length ≤ 2 && alternate false substantial
  else if n.kind = "except_clause" || n.kind = "except_group_clause" then
    alternate false (substantial.filter fun c => !c.isExceptPart) &&
      (substantial.filter isExceptPart).all fun c => c.field ≠ "alias"
  else true

/-- A well-ordered wrapper holds one substantial child at most. -/
theorem wellOrdered_of_wrapper {n : Node} (h : n.wellOrdered) (hkind : n.kind ∈ wrapperKinds) :
    (n.children.filter isSubstantial).length ≤ 1 := by
  have hcontains : wrapperKinds.contains n.kind = true := List.contains_iff_mem.2 hkind
  simpa only [wellOrdered, hcontains, if_true, decide_eq_true_eq] using h

/-- A well-ordered `as` pattern holds two substantial children at most, the second one as the
alias. -/
theorem wellOrdered_of_asPattern {n : Node} (h : n.wellOrdered) (hkind : n.kind = "as_pattern") :
    (n.children.filter isSubstantial).length ≤ 2 ∧
      alternate false (n.children.filter isSubstantial) := by
  rw [wellOrdered, hkind] at h
  have h : (decide ((n.children.filter isSubstantial).length ≤ 2) &&
      alternate false (n.children.filter isSubstantial)) = true := h
  simpa only [Bool.and_eq_true, decide_eq_true_eq] using h

/-- In a well-ordered `except` clause expressions and aliases take turns, apart from its block. -/
theorem wellOrdered_of_except {n : Node} (h : n.wellOrdered)
    (hkind : n.kind = "except_clause" ∨ n.kind = "except_group_clause") :
    alternate false ((n.children.filter isSubstantial).filter fun c => !c.isExceptPart) ∧
      ∀ c ∈ n.children.filter isSubstantial, c.isExceptPart → c.field ≠ "alias" := by
  have h : (alternate false ((n.children.filter isSubstantial).filter fun c => !c.isExceptPart) &&
      ((n.children.filter isSubstantial).filter isExceptPart).all fun c => c.field ≠ "alias") =
        true := by
    rcases hkind with hkind | hkind
    all_goals
      rw [wellOrdered, hkind] at h
      exact h
  rw [Bool.and_eq_true, List.all_eq_true] at h
  exact ⟨h.1, fun c hc hpart => of_decide_eq_true (h.2 c (List.mem_filter.2 ⟨hc, hpart⟩))⟩

/-- True for a node of the shape that its kind demands. -/
def wellShaped (n : Node) : Bool :=
  (n.children.all fun c => c.isListed || c.isNameless) && n.wellOrdered &&
    ((requiredFields n.kind).all fun field => n.children.any fun c => c.field = field) &&
    (shapeOf n.kind).all fun s => s.fits n.children

/-- True if every node of a tree has the shape that its kind demands. -/
def Grammatical (n : Node) : Prop := ∀ d ∈ n.subtrees, d.wellShaped

instance (n : Node) : Decidable n.Grammatical := inferInstanceAs (Decidable (∀ d ∈ _, _))

/-- The children of a well-shaped node fit the shape of its kind. -/
theorem wellShaped_fits {n : Node} (h : n.wellShaped) {s : Python.Shape}
    (hs : shapeOf n.kind = some s) : s.fits n.children := by
  simp only [wellShaped, Bool.and_eq_true, hs, Option.all_some] at h
  exact h.2

/-- No identifier stands below another. -/
theorem children_of_identifier {n : Node} (h : n.wellShaped) (hkind : n.kind = "identifier") :
    ∀ info ∈ infosOf n.children, info.kind ≠ "identifier" := by
  have hfits := wellShaped_fits h (s := {}) (by rw [hkind]; rfl)
  intro info hinfo
  rw [infosOf_eq_flatMap] at hinfo
  obtain ⟨c, hc, hinfo⟩ := List.mem_flatMap.1 hinfo
  have hnameless : c.isNameless := by
    simpa [Python.Shape.admits] using List.all_eq_true.1 (Bool.and_eq_true_iff.1 hfits).1 c hc
  exact of_decide_eq_true (List.all_eq_true.1 hnameless info hinfo)

mutual

/-- In a tree of the grammar every identifier has a role, as no identifier stands below another. -/
theorem exists_role_of_mem_infos {info : NodeInfo} (hinfo : info.kind = "identifier") (r : Python.Role) :
    ∀ n : Node, n.Grammatical → info ∈ n.infos → ∃ role, (role, info) ∈ n.identifiers r
  | .mk info' children, h, hmem => by
    rcases List.mem_cons.1 hmem with rfl | hmem
    · exact ⟨r, by rw [identifiers, if_pos hinfo]; exact List.mem_cons_self⟩
    · have hself := h _ List.mem_cons_self
      by_cases hkind : info'.kind = "identifier"
      · exact absurd hinfo (children_of_identifier hself hkind info hmem)
      · rw [identifiers, if_neg hkind]
        exact exists_role_of_mem_infosOf hinfo r info'.kind children
          (fun d hd => h d (List.mem_cons_of_mem _ hd)) hmem

/-- Every identifier in a list of well-shaped nodes has a role. -/
theorem exists_role_of_mem_infosOf {info : NodeInfo} (hinfo : info.kind = "identifier")
    (r : Python.Role) (kind : String) :
    ∀ ns : List Node, (∀ d ∈ subtreesOf ns, d.wellShaped) → info ∈ infosOf ns →
      ∃ role, (role, info) ∈ identifiersOf r kind ns
  | [], _, hmem => nomatch hmem
  | n :: rest, h, hmem => by
    rw [identifiersOf]
    rcases List.mem_append.1 hmem with hmem | hmem
    · obtain ⟨role, hrole⟩ := exists_role_of_mem_infos hinfo (r.child kind n.field n.kind) n
        (fun d hd => h d (List.mem_append_left _ hd)) hmem
      exact ⟨role, List.mem_append_left _ hrole⟩
    · obtain ⟨role, hrole⟩ := exists_role_of_mem_infosOf hinfo r kind rest
        (fun d hd => h d (List.mem_append_right _ hd)) hmem
      exact ⟨role, List.mem_append_right _ hrole⟩

end

/-- True if no node of a tree is an error or missing, and none is marked as one above such a node. -/
def Clean (n : Node) : Prop := ∀ i ∈ n.infos, ¬i.isBroken ∧ ¬i.malformed

instance (n : Node) : Decidable n.Clean := inferInstanceAs (Decidable (∀ i ∈ _, _))

end NameAtlas.Source.Node
