import NameAtlas.Fact.Diagnostic
import NameAtlas.Fact.Kind
import NameAtlas.Fact.BindingType

/-!
# Records of facts

The facts about one file (`FileFacts`: scopes, declarations, references, findings and base classes,
with scopes numbered within the file) and the records of an assembled index (`File`, `Scope`,
`Symbol`, `Usage`), whose scopes and files have numbers of the whole index.
-/

namespace NameAtlas

/-- What a reference points at. -/
inductive UsageTarget where
  /-- The symbol with this name. -/
  | resolved (fqn : Fqn)
  /-- Nothing known; the text that was looked up. -/
  | unresolved (name : String)
  deriving DecidableEq, Repr, Inhabited

namespace UsageTarget

/-- The symbol of a resolved target. -/
def fqn? : UsageTarget → Option Fqn
  | .resolved f => some f
  | .unresolved _ => none

/-- True for resolved targets. -/
def isResolved : UsageTarget → Bool
  | .resolved _ => true
  | .unresolved _ => false

/-- A symbol's name, or the text behind a question mark. -/
def render : UsageTarget → String
  | .resolved f => f.render
  | .unresolved name => s!"?{name}"

/-- The target for a symbol that was found, or for the text where none was. -/
def ofOption (found : Option Fqn) (name : String) : UsageTarget :=
  match found with
  | some f => .resolved f
  | none => .unresolved name

end UsageTarget

/-- A scope of one file. -/
structure LocalScope where
  /-- What the scope belongs to. -/
  kind : ScopeKind
  /-- The module, class or function it belongs to. -/
  owner : Fqn
  /-- The position of the enclosing scope; the module scope has none. -/
  parent : Option Nat
  /-- The bytes of the defining code. -/
  span : Span
  deriving DecidableEq, Repr, Inhabited

/-- A declared symbol of one file. -/
structure Declaration where
  /-- The symbol's name. -/
  fqn : Fqn
  /-- What it is. -/
  kind : SymbolKind
  /-- Its type; for a function, the type it returns. -/
  type : BindingType
  /-- The position of the scope that declares it. -/
  scope : Nat
  /-- Where its name first stands. -/
  location : Location
  deriving DecidableEq, Repr, Inhabited

/-- A reference in one file. -/
structure Reference where
  /-- The position of the scope it stands in. -/
  scope : Nat
  /-- How it is written. -/
  kind : ReferenceKind
  /-- What it points at. -/
  target : UsageTarget
  /-- Where it stands. -/
  location : Location
  deriving DecidableEq, Repr, Inhabited

/-- One base of a class. -/
structure Inheritance where
  /-- The class. -/
  derived : Fqn
  /-- A direct base of it. -/
  base : Fqn
  deriving DecidableEq, Repr, Inhabited

/-- Everything known about one file. -/
structure FileFacts where
  /-- The path in the workspace. -/
  path : String
  /-- The module the declarations are rooted at. -/
  module : Fqn
  /-- The scopes; the module scope comes first. -/
  scopes : List LocalScope
  /-- The declared symbols in the order of their first declarations. -/
  declarations : List Declaration
  /-- The references in the order of their positions. -/
  references : List Reference
  /-- The findings in the order of their positions. -/
  findings : List Finding
  /-- The bases of the classes, in the order of the base lists. -/
  inheritances : List Inheritance
  deriving DecidableEq, Repr, Inhabited

/-- The first declaration of a name. -/
def FileFacts.declaration? (facts : FileFacts) (fqn : Fqn) : Option Declaration :=
  facts.declarations.find? fun d => d.fqn = fqn

/-- A file of an index. -/
structure File where
  /-- Its number. -/
  id : FileId
  /-- The path in the workspace. -/
  path : String
  /-- The module its declarations are rooted at. -/
  module : Fqn
  /-- The digest of its content. -/
  contentHash : String
  deriving DecidableEq, Repr, Inhabited

/-- A symbol of an index. -/
structure Symbol where
  /-- Its name, which no other symbol of the index has. -/
  fqn : Fqn
  /-- What it is. -/
  kind : SymbolKind
  /-- Its type; for a function, the type it returns. -/
  type : BindingType
  /-- The scope that declares it. -/
  scope : ScopeId
  /-- The file that declares it. -/
  file : FileId
  /-- Where its name stands. -/
  location : Location
  deriving DecidableEq, Repr, Inhabited

/-- A scope of an index. -/
structure Scope where
  /-- Its number. -/
  id : ScopeId
  /-- What it belongs to. -/
  kind : ScopeKind
  /-- The module, class or function it belongs to. -/
  owner : Fqn
  /-- The enclosing scope. -/
  parent : Option ScopeId
  /-- The file it lies in. -/
  file : FileId
  /-- The bytes of the defining code. -/
  span : Span
  /-- The names declared in it, in order. -/
  symbols : List Fqn
  deriving DecidableEq, Repr, Inhabited

/-- A reference of an index. -/
structure Usage where
  /-- The scope it stands in. -/
  scope : ScopeId
  /-- How it is written. -/
  kind : ReferenceKind
  /-- What it points at. -/
  target : UsageTarget
  /-- The file it stands in. -/
  file : FileId
  /-- Where it stands. -/
  location : Location
  deriving DecidableEq, Repr, Inhabited

end NameAtlas
