import NameAtlas.Proofs.Source.Tree
import NameAtlas.Fact.Kind

/-!
# The identifiers of a tree

What an identifier is for follows from the nodes above it: some are read, some name a member of a
value, some are bound. `Node.identifiers` lists the identifiers of a tree with their roles
(`Role`), which a node passes on to its children by its kind and the fields that they fill
(`Role.child`). A role says which reference an identifier is due (`Role.reference?`).
-/

namespace NameAtlas.Python

open Source

/-- What a node is for. -/
inductive Role where
  /-- It is evaluated. -/
  | value
  /-- It is the name behind a dot. -/
  | member
  /-- It is the name of a class, a function, a parameter or a keyword, or a name in a statement that
  declares or imports names. -/
  | name
  /-- It is assigned to. -/
  | target
  /-- It is an annotation. -/
  | hint
  /-- It stands in the format of an interpolation, or between the quotes of an annotation. -/
  | quoted
  deriving DecidableEq, Repr, Inhabited

namespace Role

/-- The reference that an identifier is due: none if it is bound. -/
def reference? : Role → Option ReferenceKind
  | .value | .hint => some .simpleId
  | .member => some .attr
  | .name | .target | .quoted => none

/-- The statements whose identifiers are all names. -/
def namingStatements : List String :=
  ["import_statement", "import_from_statement", "future_import_statement", "global_statement",
    "nonlocal_statement"]

/-- The lists whose entries are parameters, and the entries that consist of several parts. -/
def parameterLists : List String := ["parameters", "lambda_parameters"]

/-- The parameters with an annotation or a default. -/
def compoundParameters : List String :=
  ["typed_parameter", "default_parameter", "typed_default_parameter"]

/-- The kinds of nodes with the field that holds a name. -/
def nameFields : List (String × String) :=
  [("class_definition", "name"), ("function_definition", "name"), ("keyword_argument", "name"),
    ("default_parameter", "name"), ("typed_default_parameter", "name"), ("typed_parameter", "")]

/-- The kinds of nodes with the field that holds a target. -/
def targetFields : List (String × String) :=
  [("assignment", "left"), ("for_statement", "left"), ("for_in_clause", "left"),
    ("named_expression", "name"), ("as_pattern", "alias"), ("except_clause", "alias"),
    ("except_group_clause", "alias")]

/-- The kinds of nodes with the field that holds an annotation. -/
def annotationFields : List (String × String) :=
  [("assignment", "type"), ("typed_parameter", "type"), ("typed_default_parameter", "type"),
    ("function_definition", "return_type")]

/-- The kinds of nodes that are targets if they stand where a target stands, as are their
children. -/
def targetGroups : List String :=
  ["pattern_list", "tuple_pattern", "list_pattern", "expression_list", "tuple", "list",
    "parenthesized_expression", "as_pattern_target"]

/-- The kinds of nodes whose children are annotations if they are. -/
def annotationGroups : List String := ["type", "generic_type", "union_type", "type_parameter"]

/-- The role of a child, if that of its parent does not matter. -/
def ofField (kind field childKind : String) : Role :=
  if namingStatements.contains kind then .name
  else if parameterLists.contains kind then
    if compoundParameters.contains childKind then .value else .name
  else if nameFields.contains (kind, field) then .name
  else if targetFields.contains (kind, field) then .target
  else if annotationFields.contains (kind, field) then .hint
  else if kind = "attribute" && field = "attribute" then .member
  else if kind = "interpolation" && field = "format_specifier" then .quoted
  else .value

/-- The role of a child that fills a field of a node. -/
def child (r : Role) (kind field childKind : String) : Role :=
  match r with
  | .name => .name
  | .quoted => .quoted
  | .target => if targetGroups.contains kind then .target else ofField kind field childKind
  | .hint =>
    if annotationGroups.contains kind then .hint
    else if kind = "string" then .quoted
    else ofField kind field childKind
  | .value | .member => ofField kind field childKind

/-- In an `except` clause what stands behind `as` is assigned to. -/
theorem child_except {kind : String} (h : kind = "except_clause" ∨ kind = "except_group_clause")
    (field childKind : String) :
    Role.value.child kind field childKind = if field = "alias" then .target else .value := by
  rcases h with rfl | rfl
  all_goals simp [child, ofField, namingStatements, parameterLists, nameFields, targetFields,
    annotationFields]

end Role

end NameAtlas.Python

namespace NameAtlas.Source.Node

open Python (Role)

/-- The kind of syntax. -/
def kind (n : Node) : String := n.info.kind

/-- The field that a node fills in its parent. -/
def field (n : Node) : String := n.info.field

mutual

/-- The identifiers of a tree with their roles, if the role of the whole is known. -/
def identifiers (r : Role) : Node → List (Role × NodeInfo)
  | .mk info children =>
    if info.kind = "identifier" then [(r, info)] else identifiersOf r info.kind children

/-- The identifiers of the children of a node. -/
def identifiersOf (r : Role) (kind : String) : List Node → List (Role × NodeInfo)
  | [] => []
  | n :: rest => identifiers (r.child kind n.field n.kind) n ++ identifiersOf r kind rest

end

/-- The identifiers of a list are those of its members, each in its own role. -/
theorem identifiersOf_eq_flatMap (r : Role) (kind : String) (ns : List Node) :
    identifiersOf r kind ns = ns.flatMap fun n => n.identifiers (r.child kind n.field n.kind) := by
  induction ns with
  | nil => rfl
  | cons n rest ih => rw [identifiersOf, ih, List.flatMap_cons]

/-- An identifier is its own and only one. -/
theorem identifiers_of_eq {n : Node} (h : n.kind = "identifier") (r : Role) :
    n.identifiers r = [(r, n.info)] := by
  cases n
  exact if_pos h

/-- The identifiers of any other node are those of its children. -/
theorem identifiers_of_ne {n : Node} (h : n.kind ≠ "identifier") (r : Role) :
    n.identifiers r =
      n.children.flatMap fun c => c.identifiers (r.child n.kind c.field c.kind) := by
  obtain ⟨info, children⟩ := n
  have hkind : ¬info.kind = "identifier" := h
  rw [identifiers, if_neg hkind, identifiersOf_eq_flatMap]
  rfl

/-- Two roles that a node passes on alike make no difference, unless it is an identifier itself. -/
theorem identifiers_congr {n : Node} {r : Role} (r' : Role) (hkind : n.kind ≠ "identifier")
    (h : ∀ field childKind, r.child n.kind field childKind = r'.child n.kind field childKind) :
    n.identifiers r = n.identifiers r' := by
  simp only [identifiers_of_ne hkind, h]

mutual

/-- Where every node passes on its own role, all identifiers of a tree have it. -/
theorem role_of_mem_identifiers {r : Role}
    (hr : ∀ kind field childKind, r.child kind field childKind = r) :
    ∀ n : Node, ∀ x ∈ n.identifiers r, x.1 = r
  | .mk info children, x, hx => by
    rw [identifiers] at hx
    split at hx
    · rw [List.mem_singleton.1 hx]
    · exact role_of_mem_identifiersOf hr info.kind children x hx

/-- A role that is passed on to every child is that of all identifiers in a list. -/
theorem role_of_mem_identifiersOf {r : Role}
    (hr : ∀ kind field childKind, r.child kind field childKind = r) (kind : String) :
    ∀ ns : List Node, ∀ x ∈ identifiersOf r kind ns, x.1 = r
  | [], x, hx => nomatch hx
  | n :: rest, x, hx => by
    rw [identifiersOf, hr] at hx
    rcases List.mem_append.1 hx with hx | hx
    · exact role_of_mem_identifiers hr n x hx
    · exact role_of_mem_identifiersOf hr kind rest x hx

end

/-- True if no node of a tree is an identifier. -/
def isNameless (n : Node) : Bool := n.infos.all fun i => i.kind ≠ "identifier"

mutual

/-- A node without names has no identifiers. -/
theorem identifiers_of_isNameless (r : Role) :
    ∀ n : Node, n.isNameless → n.identifiers r = []
  | .mk info children, h => by
    obtain ⟨hinfo, hchildren⟩ := Bool.and_eq_true_iff.1 h
    rw [identifiers, if_neg (of_decide_eq_true hinfo)]
    exact identifiersOf_of_nameless r info.kind children hchildren

/-- Nodes without names have no identifiers. -/
theorem identifiersOf_of_nameless (r : Role) (kind : String) :
    ∀ ns : List Node, (infosOf ns).all (fun i => i.kind ≠ "identifier") →
      identifiersOf r kind ns = []
  | [], _ => rfl
  | n :: rest, h => by
    rw [infosOf, List.all_append, Bool.and_eq_true] at h
    rw [identifiersOf, identifiers_of_isNameless _ n h.1, identifiersOf_of_nameless r kind rest h.2,
      List.append_nil]

end

end NameAtlas.Source.Node
