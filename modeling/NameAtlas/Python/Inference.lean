import NameAtlas.Python.ScopeTree
import NameAtlas.Python.SymbolTable
import NameAtlas.Python.Syntax

/-!
# Inference rules

What is known about the value of an expression (`Evaluated`), and the rules that give a type to a
call, to an instance, to a member and to an annotation. Types are approximate: nothing is unified,
widened or promoted, and a rule that does not apply answers that the type is unknown.
-/

namespace NameAtlas.Python

/-- What is known about the value of an expression. -/
structure Evaluated where
  /-- Its type. -/
  type : BindingType
  /-- What the expression names, if it names something. -/
  target : Option NameTarget
  deriving DecidableEq, Repr, Inhabited

namespace Evaluated

/-- A value of a type that the expression does not name. -/
def ofType (type : BindingType) : Evaluated := ⟨type, none⟩

/-- A value of which nothing is known. -/
def unknown : Evaluated := ofType .unknown

end Evaluated

/-- The type of calling a value: a declared class gives its instances and a declared function what
it returns; calling something else is a failure that quotes the callee. -/
def callType (symbols : SymbolTable) (callee : Evaluated) (written : String) : BindingType :=
  match callee.target with
  | some (.declared f) =>
    match symbols.kindOf? f with
    | some .class => .resolved f
    | some .function => symbols.typeOf f
    | _ => .unknown
  | some (.imported _) | some (.builtin _) => .error .callNotDeclared written
  | none => .error .callNotFound written

/-- The type of an instance of what a value names: a declared class, or anything imported or built
in. -/
def instanceType (symbols : SymbolTable) (value : Evaluated) : BindingType :=
  match value.target with
  | some (.declared f) => if symbols.isClass f then .resolved f else .unknown
  | some (.imported f) | some (.builtin f) => .resolved f
  | none => .unknown

/-- A member that an attribute names. -/
inductive Member where
  /-- A symbol of the file, maybe of an ancestor class. -/
  | declared (fqn : Fqn)
  /-- Something reached through an import. -/
  | external (fqn : Fqn)
  deriving DecidableEq, Repr, Inhabited

/-- The qualified name of a member. -/
def Member.fqn : Member → Fqn
  | .declared f | .external f => f

/-- The declared class that a type is, if it is one. -/
def classOf? (symbols : SymbolTable) (type : BindingType) : Option Fqn :=
  type.fqn?.filter symbols.isClass

/-- The member of a name on a value: of a declared class the one it declares or inherits, and of
something imported the name below it. -/
def memberOf? (symbols : SymbolTable) (object : Evaluated) (name : String) : Option Member :=
  match classOf? symbols object.type with
  | some c => (symbols.hierarchy.resolveMember? c name).map .declared
  | none =>
    match object.target with
    | some (.imported f) => some (.external (f.child name))
    | _ => none

/-- The type that a name stands for in an annotation. -/
def nameType (scopes : ScopeTree) (symbols : SymbolTable) (scope : Nat) (name : String) :
    BindingType :=
  match scopes.lookup scope name with
  | some (.declared f) => if symbols.isClass f then .resolved f else .unknown
  | some (.imported f) => .resolved f
  | some (.builtin f) => if isScalar name then .primitive name else .resolved f
  | none => .unknown

/-- The type that a name with names behind dots stands for in an annotation. -/
def pathType (scopes : ScopeTree) (symbols : SymbolTable) (scope : Nat) (first : String)
    (rest : List String) : BindingType :=
  match scopes.lookup scope first with
  | some (.declared f) =>
    if symbols.isClass (f.descendant rest) then .resolved (f.descendant rest) else .unknown
  | some (.imported f) => .resolved (f.descendant rest)
  | _ => .unknown

/-- The type that an annotation stands for. -/
def TypeForm.type (scopes : ScopeTree) (symbols : SymbolTable) (scope : Nat) :
    TypeForm → BindingType
  | .noneType => .noneType
  | .name text => nameType scopes symbols scope text
  | .path first rest => pathType scopes symbols scope first rest
  | .optional inner => ((inner.type scopes symbols scope).known?).getD .unknown
  | .unknown => .unknown

end NameAtlas.Python
