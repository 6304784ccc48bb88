import NameAtlas.Python.Syntax
import NameAtlas.Source.Text
import NameAtlas.Source.Tree
import NameAtlas.Text.Alphanumeric
import NameAtlas.Text.Line
import NameAtlas.Text.Split

/-!
# From parse trees to modeled syntax

A node of a parse tree means different things in different places: `(a, b)` is an expression on the
right of an assignment and a pattern on the left. `Part` holds a node with its meaning in each role
(`Meaning`), and the meanings of a node follow from those of its children. Reading a tree is then
one recursion, from the leaves to the root (`Part.ofNode`), and everything else here looks at a node
whose children have been read.
-/

namespace NameAtlas.Python

open Source

/-- What a node means in each role that it can play. -/
structure Meaning where
  /-- Where it is evaluated. -/
  expr : Expr
  /-- Where it is assigned to. -/
  target : Target
  /-- Where it is combined with a value and assigned to. -/
  augmented : Target
  /-- The expressions between the literal parts of a string. -/
  interpolations : List Expr
  /-- The type of a literal. -/
  literalType : Option BindingType
  /-- Where it is an annotation, what it says; nothing if it is not modeled. -/
  typeForm : Option TypeForm
  /-- Where it is an annotation, the expressions that are read. -/
  hintReads : List Expr
  /-- True if it is the literal `None`, maybe in parentheses. -/
  isNone : Bool
  /-- The values of a sequence without the parentheses around it; true marks unpacked ones. -/
  sequence : Option (List (Bool × Expr))
  /-- Where it is an assignment. -/
  assignment : Assignment
  /-- Where it is a statement. -/
  stmt : Stmt
  deriving Inhabited

/-- A node that has been read, above its children. -/
inductive Part where
  /-- The node, its text and location, what it means, and its children. -/
  | mk (info : NodeInfo) (word : Word) (meaning : Meaning) (children : List Part)
  deriving Inhabited

namespace Part

/-- The node. -/
def info : Part → NodeInfo
  | .mk i _ _ _ => i

/-- The text and location. -/
def word : Part → Word
  | .mk _ w _ _ => w

/-- What the node means. -/
def meaning : Part → Meaning
  | .mk _ _ m _ => m

/-- The children. -/
def children : Part → List Part
  | .mk _ _ _ cs => cs

/-- The kind of syntax. -/
def kind (p : Part) : String := p.info.kind

/-- The text covered. -/
def text (p : Part) : String := p.word.text

/-- Where the node stands. -/
def location (p : Part) : Location := p.word.location

/-- The named children that are no comments. -/
def named (p : Part) : List Part := p.children.filter fun c => c.info.named && c.kind ≠ "comment"

/-- The first child that fills a field. -/
def field? (p : Part) (name : String) : Option Part := p.children.find? fun c => c.info.field = name

/-- The children that fill a field. -/
def fields (p : Part) (name : String) : List Part :=
  p.children.filter fun c => c.info.field = name

/-- The expression in a field. -/
def exprField (p : Part) (name : String) : Expr :=
  ((p.field? name).map fun c => c.meaning.expr).getD .absent

/-- The expressions of the named children. -/
def parts (p : Part) : List Expr := p.named.map fun c => c.meaning.expr

/-- The statements of the named children. -/
def body (p : Part) : List Stmt := p.named.map fun c => c.meaning.stmt

/-- The statements in a field. -/
def bodyField (p : Part) (name : String) : List Stmt := ((p.field? name).map body).getD []

/-! ### Expressions -/

/-- The type of a string literal, which is that of bytes if a `b` stands in front of the quote. -/
def stringType (text : String) : BindingType :=
  let letters := text.toList.takeWhile Char.isAlpha
  .primitive (if letters.contains 'b' || letters.contains 'B' then "bytes" else "str")

/-- The type of a literal. -/
def literalType? (p : Part) : Option BindingType :=
  match p.kind with
  | "integer" => some (.primitive "int")
  | "float" => some (.primitive "float")
  | "true" | "false" => some (.primitive "bool")
  | "none" => some .noneType
  | "string" => some (stringType p.text)
  | "concatenated_string" => p.named.head?.bind fun c => c.meaning.literalType
  | _ => none

/-- The expressions between the literal parts of a string, also of strings inside it. -/
def interpolations (p : Part) : List Expr :=
  p.named.flatMap fun c =>
    match c.kind with
    | "string" => c.meaning.interpolations
    | "interpolation" => [c.exprField "expression"]
    | _ => []

/-- How the type of a literal enters a compound expression. -/
def literalOutcome (p : Part) : Outcome :=
  match literalType? p with
  | some type => .fixed type
  | none => .unknown

/-- The arguments of a call: those in the parentheses, or a comprehension that stands for them. -/
def callArguments (p : Part) : List Expr :=
  match p.field? "arguments" with
  | some a => if a.kind = "argument_list" then a.parts else [a.meaning.expr]
  | none => []

/-- A node where it is evaluated. -/
def toExpr (p : Part) : Expr :=
  match p.kind with
  | "identifier" => .name p.word
  | "attribute" =>
    match p.field? "attribute" with
    | some a => .attribute (p.exprField "object") a.word
    | none => .compound [p.exprField "object"] .unknown
  | "call" =>
    match p.field? "function" with
    | some f => .call f.meaning.expr (Text.squeezeString f.text) p.callArguments
    | none => .absent
  | "string" | "concatenated_string" => .compound p.interpolations p.literalOutcome
  | "integer" | "float" | "true" | "false" | "none" => .compound [] p.literalOutcome
  | "binary_operator" | "boolean_operator" =>
    .compound [p.exprField "left", p.exprField "right"] .ofFirst
  | "unary_operator" => .compound [p.exprField "argument"] .ofFirst
  | "not_operator" => .compound [p.exprField "argument"] (.fixed (.primitive "bool"))
  | "comparison_operator" => .compound p.parts (.fixed (.primitive "bool"))
  | "conditional_expression" => .compound p.parts .ofFirst
  | "parenthesized_expression" | "type" => p.parts.head?.getD .absent
  | "await" => .compound (p.parts.take 1) .ofFirst
  | "named_expression" =>
    match p.field? "name" with
    | some name => .walrus (p.exprField "value") name.word
    | none => .compound [p.exprField "value"] .ofFirst
  | "list" | "tuple" | "set" | "expression_list" | "subscript" | "slice" | "list_splat"
  | "dictionary_splat" | "parenthesized_list_splat" | "pair" | "dictionary" =>
    .compound p.parts .unknown
  | "keyword_argument" => .compound [p.exprField "value"] .unknown
  | "ellipsis" | "ERROR" => .absent
  | kind => .unsupported kind p.location

/-! ### Targets -/

/-- An attribute where it is assigned to. -/
def attributeTarget (p : Part) : Target :=
  match p.field? "object", p.field? "attribute" with
  | some o, some a => .attribute o.meaning.expr a.word
  | _, _ => .absent

/-- A node where it is assigned to. Broken code is passed over in silence. -/
def toTarget (p : Part) : Target :=
  match p.kind with
  | "identifier" => .name p.word
  | "attribute" => p.attributeTarget
  | "subscript" => .element p.toExpr
  | "parenthesized_expression" => (p.named.head?.map fun c => c.meaning.target).getD .absent
  | "pattern_list" | "tuple_pattern" | "list_pattern" | "expression_list" | "tuple" | "list" =>
    .pattern (p.named.map fun c => c.meaning.target)
  | kind => if p.info.malformed then .absent else .unsupported kind p.location

/-- A node where it is combined with a value and assigned to. -/
def toAugmented (p : Part) : Target :=
  match p.kind with
  | "identifier" => .name p.word
  | "attribute" => p.attributeTarget
  | "subscript" => .element p.toExpr
  | kind => .unsupported kind p.location

/-! ### Annotations -/

/-- The form of a name with dots. -/
def dottedForm (text : String) : TypeForm :=
  match (Text.splitAt '.' text.toList).map fun s => String.ofList (Text.trim s) with
  | [] => .unknown
  | [name] => .name name
  | first :: rest => .path first rest

/-- The form of a type that is written as a string: a name, maybe with dots. -/
def quotedForm (content : String) : TypeForm :=
  let name := Text.trim content.toList
  if !name.isEmpty && name.all fun c => Text.isAlphanumeric c || c = '_' || c = '.' then
    dottedForm (String.ofList name)
  else .unknown

/-- The form of a type that may also be absent. -/
def optionalForm (p : Part) : TypeForm :=
  match p.meaning.typeForm with
  | some form => .optional form
  | none => .unknown

/-- The form of a union: known if all members but one are `None`. -/
def unionForm (members : List Part) : TypeForm :=
  match members.filter fun m => !m.meaning.isNone with
  | [single] => if 1 < members.length then optionalForm single else .unknown
  | _ => .unknown

/-- The form of a type with arguments: only optional types and unions are inferred. -/
def genericForm (head : String) (arguments : List Part) : TypeForm :=
  match String.ofList ((Text.splitAt '.' head.toList).getLastD []), arguments with
  | "Optional", [inner] => optionalForm inner
  | "Union", _ => unionForm arguments
  | _, _ => .unknown

/-- The texts between the quotes of a string. -/
def stringContent (p : Part) : String :=
  String.join ((p.named.filter fun c => c.kind = "string_content").map text)

/-- A node where it is an annotation, if its shape is modeled. -/
def toTypeForm (p : Part) : Option TypeForm :=
  match p.kind with
  | "type" | "parenthesized_expression" => p.named.head?.bind fun c => c.meaning.typeForm
  | "none" => some .noneType
  | "identifier" => some (.name p.text)
  | "attribute" | "member_type" => some (dottedForm p.text)
  | "string" => some (quotedForm p.stringContent)
  | "ellipsis" => some .unknown
  | "subscript" => (p.field? "value").map fun head => genericForm head.text (p.fields "subscript")
  | "generic_type" =>
    p.named.head?.map fun head =>
      genericForm head.text
        (((p.named.find? fun c => c.kind = "type_parameter").map named).getD [])
  | "binary_operator" =>
    match p.field? "operator", p.field? "left", p.field? "right" with
    | some operator, some left, some right =>
      if operator.text = "|" then some (unionForm [left, right]) else none
    | _, _, _ => none
  | "union_type" => some (unionForm p.named)
  | _ => none

/-- The expressions that an annotation reads; what stands in quotes is not read. -/
def toHintReads (p : Part) : List Expr :=
  match p.kind with
  | "string" => []
  | "type" | "generic_type" | "union_type" | "type_parameter" =>
    p.named.flatMap fun c => c.meaning.hintReads
  | _ => [p.toExpr]

/-- True for the literal `None`, maybe in parentheses. -/
def toIsNone (p : Part) : Bool :=
  match p.kind with
  | "type" | "parenthesized_expression" => p.named.head?.any fun c => c.meaning.isNone
  | kind => kind = "none"

/-- A node as an annotation; one that is broken is as good as absent. -/
def hint? (p : Part) : Option TypeHint :=
  match p.meaning.typeForm with
  | some form => some (.form form p.meaning.hintReads)
  | none =>
    if p.info.malformed then none else some (.unsupported (Text.snippet p.text) p.location)

/-- The annotation in a field. -/
def hintField? (p : Part) (name : String) : Option TypeHint :=
  (p.field? name).bind hint?

/-! ### Assignments -/

/-- True for an element that takes or gives several values. -/
def isStarred (p : Part) : Bool :=
  p.kind = "list_splat" || p.kind = "list_splat_pattern" || p.kind = "parenthesized_list_splat"

/-- The values of a sequence without the parentheses around it. -/
def toSequence (p : Part) : Option (List (Bool × Expr)) :=
  match p.kind with
  | "type" | "parenthesized_expression" => p.named.head?.bind fun c => c.meaning.sequence
  | "expression_list" | "tuple" | "list" =>
    some (p.named.map fun c => (c.isStarred, c.meaning.expr))
  | _ => none

/-- The targets and values that belong together in `a, b = x, y`: both sides are sequences of one
length in which nothing is starred. -/
def unpackPairs? (left right : Part) : Option (List (Target × Expr)) :=
  if left.kind = "pattern_list" || left.kind = "tuple_pattern" || left.kind = "list_pattern" then
    match right.meaning.sequence with
    | some values =>
      let targets := left.named
      if targets.length = values.length && !targets.any isStarred && !values.any Prod.fst then
        some ((targets.map fun c => c.meaning.target).zip (values.map Prod.snd))
      else none
    | none => none
  else none

/-- A node where it is an assignment. -/
def toAssignment (p : Part) : Assignment :=
  let hint := p.hintField? "type"
  let target := ((p.field? "left").map fun c => c.meaning.target).getD .absent
  match (p.field? "left").bind fun left => (p.field? "right").bind (unpackPairs? left) with
  | some pairs => .unpack hint pairs
  | none =>
    match p.field? "right" with
    | some right =>
      -- In `a = b = c` the right side is itself an assignment.
      if right.kind = "assignment" then .chained hint target right.meaning.assignment
      else .plain hint target right.meaning.expr
    | none => .plain hint target .absent

/-- A part of an expression statement. -/
def toItem (p : Part) : Item :=
  match p.kind with
  | "assignment" => .assign p.meaning.assignment
  | "augmented_assignment" =>
    .augment (((p.field? "left").map fun c => c.meaning.augmented).getD .absent)
      (p.exprField "right")
  | _ => .read p.meaning.expr

/-! ### Definitions -/

/-- What a parameter with a name, an annotation and a default declares; one whose name is no name
is reported. -/
def namedParameter (p : Part) (name : Option Part) (hint : Option TypeHint)
    (default : Option Expr) : Option Parameter :=
  match name.filter fun n => n.kind = "identifier" && !n.info.missing with
  | some n => some (.named n.word hint default)
  | none =>
    if p.info.malformed then none
    else some (.unsupported p.kind (Text.snippet p.text) p.location)

/-- A node in a parameter list; separators and broken code declare nothing. -/
def parameter? (p : Part) : Option Parameter :=
  if p.info.isBroken then none
  else
    match p.kind with
    | "identifier" => p.namedParameter (some p) none none
    | "typed_parameter" =>
      match p.named.head? with
      | some name =>
        if name.kind = "identifier" then
          p.namedParameter (some name) (p.hintField? "type") none
        else if p.info.malformed then none
        else some (.unsupported name.kind (Text.snippet p.text) p.location)
      | none =>
        if p.info.malformed then none
        else some (.unsupported p.kind (Text.snippet p.text) p.location)
    | "default_parameter" | "typed_default_parameter" =>
      p.namedParameter (p.field? "name") (p.hintField? "type")
        ((p.field? "value").map fun c => c.meaning.expr)
    | "keyword_separator" | "positional_separator" => none
    | _ =>
      if p.info.malformed then none
      else some (.unsupported p.kind (Text.snippet p.text) p.location)

/-- Where a list of type parameters stands. -/
def typeParameters? (p : Part) : Option Location := (p.field? "type_parameters").map location

/-- A function definition; without a name it defines nothing. -/
def functionStmt (p : Part) : Stmt :=
  match p.field? "name" with
  | some name =>
    .function
      { node := p.info.id
        word := name.word
        span := p.location.span
        isStatic := false
        typeParameters := p.typeParameters?
        returns := p.hintField? "return_type"
        parameters := ((p.field? "parameters").map fun ps => ps.named.filterMap parameter?).getD [] }
      (p.bodyField "body")
  | none => .block []

/-- An entry of the list of bases. -/
def classArgument (p : Part) : ClassArgument :=
  if p.kind = "keyword_argument" then .keyword (p.exprField "value") else .base p.meaning.expr

/-- A class definition; without a name it defines nothing. -/
def classStmt (p : Part) : Stmt :=
  match p.field? "name" with
  | some name =>
    .class
      { node := p.info.id
        word := name.word
        span := p.location.span
        typeParameters := p.typeParameters?
        arguments := ((p.field? "superclasses").map fun as => as.named.map classArgument).getD [] }
      (p.bodyField "body")
  | none => .block []

/-- The expressions of the decorators with their texts. -/
def decorators (p : Part) : List (String × Expr) :=
  (p.named.filter fun c => c.kind = "decorator").filterMap fun c =>
    c.named.head?.map fun e => (e.text, e.meaning.expr)

/-- True for the decorator of methods without a receiver, also behind dots. -/
def isStaticDecorator (text : String) : Bool :=
  text = "staticmethod" || ".staticmethod".toList.isSuffixOf text.toList

/-- The definition, marked as one of a method without a receiver. -/
def markStatic : Stmt → Stmt
  | .function header body => .function { header with isStatic := true } body
  | s => s

/-- A definition behind its decorators. -/
def decoratedStmt (p : Part) : Stmt :=
  let static := p.decorators.any fun d => isStaticDecorator d.1
  let definition :=
    match p.field? "definition" with
    | some d => [if static then markStatic d.meaning.stmt else d.meaning.stmt]
    | none => []
  .block (.simple (p.decorators.map fun d => .read d.2) :: definition)

/-! ### Imports -/

/-- The names of a path with dots. -/
def dottedNames (text : String) : List String :=
  Text.trimmedParts (Text.splitAt '.' text.toList)

/-- The binding of an imported name that gets a new name. -/
def aliasedBinding? (source : Option String) (p : Part) : Option ImportBinding :=
  match p.field? "name", p.field? "alias" with
  | some name, some newName => some ⟨newName.text, source, dottedNames name.text⟩
  | _, _ => none

/-- What one name of an import binds: a plain import binds the first name of the path to itself. -/
def importBinding? (p : Part) : Option ImportBinding :=
  match p.kind with
  | "dotted_name" => (dottedNames p.text).head?.map fun first => ⟨first, none, [first]⟩
  | "aliased_import" => aliasedBinding? none p
  | _ => none

/-- What one name of an import from a source binds. -/
def fromBinding? (source : Option String) (p : Part) : Option ImportBinding :=
  match p.kind with
  | "dotted_name" =>
    (dottedNames p.text).getLast?.map fun last => ⟨last, source, dottedNames p.text⟩
  | "aliased_import" => aliasedBinding? source p
  | _ => none

/-- An import statement. -/
def importStmt (p : Part) : Stmt := .imports none ((p.fields "name").filterMap importBinding?)

/-- True for the star of an import of every name. -/
def isWildcard (p : Part) : Bool := p.info.named && p.kind = "wildcard_import"

/-- An import statement with a source. -/
def importFromStmt (p : Part) : Stmt :=
  .imports (if p.children.any isWildcard then some p.location else none)
    ((p.fields "name").filterMap (fromBinding? ((p.field? "module_name").map text)))

/-! ### Compound statements -/

/-- An expression that is read for itself. -/
def readField (p : Part) (name : String) : Stmt := .simple [.read (p.exprField name)]

/-- A branch behind `elif` or `else`. -/
def alternative (p : Part) : Stmt :=
  match p.kind with
  | "elif_clause" => .block (p.readField "condition" :: p.bodyField "consequence")
  | _ => .block (p.bodyField "body")

/-- The branch behind the `else` of a loop. -/
def loopElse (p : Part) : List Stmt :=
  ((p.field? "alternative").map fun a => a.bodyField "body").getD []

/-- The target behind `as`. -/
def aliasTarget? (p : Part) : Option Target :=
  (p.field? "alias").bind fun a =>
    if a.kind = "as_pattern_target" then a.named.head?.map fun c => c.meaning.target
    else some a.meaning.target

/-- An exception caught as a target; without an exception the target is bound all the same. -/
def caughtAs (p : Part) : Stmt :=
  match p.parts with
  | value :: _ => .caught value [] p.aliasTarget?
  | [] => .simple (p.aliasTarget?.toList.map .bind)

/-- What a child of an `except` clause means by itself; exceptions and targets mean nothing. -/
def exceptStmt? (p : Part) : Option Stmt :=
  match p.kind with
  | "block" => some (.block p.body)
  | "as_pattern" => some p.caughtAs
  | _ => none

/-- The statements of an `except` clause, with the exception whose target is still to come. Of the
children that are neither blocks nor `as` patterns every second one is a target of the one before. -/
def exceptBody : Option (Expr × List Stmt) → List Part → List Stmt
  | none, [] => []
  | some (value, between), [] => [.caught value between none]
  | pending, c :: rest =>
    -- A block or an `as` pattern between an exception and its target is kept for later.
    match c.exceptStmt?, pending with
    | some s, none => s :: exceptBody none rest
    | some s, some (value, between) => exceptBody (some (value, between ++ [s])) rest
    | none, none => exceptBody (some (c.meaning.expr, [])) rest
    | none, some (value, between) =>
      .caught value between (some c.meaning.target) :: exceptBody none rest

/-- A clause of a `try` statement. -/
def tryClause (p : Part) : Stmt :=
  match p.kind with
  | "block" => .block p.body
  | "except_clause" | "except_group_clause" => .block (exceptBody none p.named)
  | "else_clause" => .block (p.bodyField "body")
  | "finally_clause" =>
    .block ((p.named.filter fun c => c.kind = "block").map fun b => .block b.body)
  | _ => .block []

/-- What one item of a `with` statement reads and binds. -/
def withItem (p : Part) : List Item :=
  match p.field? "value" with
  | some value =>
    if value.kind = "as_pattern" then
      (value.parts.take 1).map .read ++ value.aliasTarget?.toList.map .bind
    else [.read value.meaning.expr]
  | none => []

/-- The items of a `with` statement. -/
def withItems (p : Part) : List Item :=
  (p.named.filter fun c => c.kind = "with_clause").flatMap fun c => c.named.flatMap withItem

/-- A node where it is a statement. -/
def toStmt (p : Part) : Stmt :=
  match p.kind with
  | "expression_statement" => .simple (p.named.map toItem)
  | "function_definition" => p.functionStmt
  | "class_definition" => p.classStmt
  | "decorated_definition" => p.decoratedStmt
  | "import_statement" => p.importStmt
  | "import_from_statement" => p.importFromStmt
  | "future_import_statement" | "pass_statement" | "break_statement" | "continue_statement" =>
    .block []
  | "return_statement" => .returns p.parts.head?
  | "if_statement" =>
    .block (p.readField "condition" :: .block (p.bodyField "consequence") ::
      (p.fields "alternative").map alternative)
  | "while_statement" =>
    .block [p.readField "condition", .block (p.bodyField "body"), .block p.loopElse]
  | "for_statement" =>
    .block [p.readField "right",
      .simple (((p.field? "left").map fun c => Item.bind c.meaning.target).toList),
      .block (p.bodyField "body"), .block p.loopElse]
  | "try_statement" => .block (p.named.map tryClause)
  | "with_statement" => .block [.simple p.withItems, .block (p.bodyField "body")]
  | "assert_statement" | "delete_statement" | "raise_statement" =>
    .simple (p.parts.map .read)
  | "global_statement" => .globals (p.named.map text)
  | "nonlocal_statement" => .nonlocals (p.named.map text)
  | "ERROR" => .block []
  | kind => .unsupported kind p.location

/-! ### Reading a tree -/

/-- A node with the meanings that follow from its children. -/
def ofChildren (source : SourceText) (info : NodeInfo) (children : List Part) : Part :=
  let word : Word := ⟨source.slice info.start info.stop, source.location info.start info.stop⟩
  -- The roles of a node look at its children only, so they can be read off a node without roles.
  let p : Part := .mk info word default children
  .mk info word
    { expr := p.toExpr
      target := p.toTarget
      augmented := p.toAugmented
      interpolations := p.interpolations
      literalType := p.literalType?
      typeForm := p.toTypeForm
      hintReads := p.toHintReads
      isNone := p.toIsNone
      sequence := p.toSequence
      assignment := p.toAssignment
      stmt := p.toStmt }
    children

mutual

/-- Reads a tree. -/
def ofNode (source : SourceText) : Node → Part
  | .mk info children => ofChildren source info (ofNodes source children)

/-- Reads some trees. -/
def ofNodes (source : SourceText) : List Node → List Part
  | [] => []
  | n :: rest => ofNode source n :: ofNodes source rest

end

end Part

/-- The text of a report of broken syntax. -/
def brokenMessage (source : SourceText) (i : NodeInfo) : String :=
  if i.missing then "missing `" ++ i.kind ++ "`"
  else "cannot parse `" ++ Text.snippet (source.slice i.start i.stop) ++ "`"

/-- The module of a parse tree. -/
def Module.ofTree (source : SourceText) (tree : Node) : Module :=
  let root := Part.ofNode source tree
  { location := root.location
    body := root.body
    brokenSyntax := tree.syntaxErrors.map fun i =>
      (brokenMessage source i, source.location i.start i.stop) }

end NameAtlas.Python
