import NameAtlas.Fact.BindingType
import NameAtlas.Location

/-!
# Modeled syntax

What the analysis sees of a Python module. Only what matters to names and types is kept: control
flow becomes a sequence of statements in source order, because every branch is read, and operators
become compound expressions, of which only the parts and the type of the whole matter. Code outside
the model is kept as a report of where it stands, and a part that is missing as one without effect.
-/

namespace NameAtlas.Python

/-- A name where it is written. -/
structure Word where
  /-- The name. -/
  text : String
  /-- Where it stands. -/
  location : Location
  deriving DecidableEq, Repr, Inhabited

/-- How the type of a compound expression follows from its parts. -/
inductive Outcome where
  /-- Nothing is known. -/
  | unknown
  /-- The type is fixed by the form of the expression. -/
  | fixed (type : BindingType)
  /-- The type is that of the first part. -/
  | ofFirst
  deriving DecidableEq, Repr, Inhabited

/-- An expression. -/
inductive Expr where
  /-- A name. -/
  | name (word : Word)
  /-- A name behind a dot. -/
  | attribute (object : Expr) (member : Word)
  /-- A call, with the callee as it is written but without blanks. -/
  | call (callee : Expr) (written : String) (arguments : List Expr)
  /-- Parts that are read from left to right. -/
  | compound (parts : List Expr) (outcome : Outcome)
  /-- An assignment inside an expression. -/
  | walrus (value : Expr) (word : Word)
  /-- An expression that is not modeled. -/
  | unsupported (kind : String) (location : Location)
  deriving Repr, Inhabited

/-- An expression that is not there: it reads nothing and has no known type. -/
def Expr.absent : Expr := .compound [] .unknown

/-- What an assignment binds. -/
inductive Target where
  /-- A name. -/
  | name (word : Word)
  /-- A name behind a dot. -/
  | attribute (object : Expr) (member : Word)
  /-- An element of a container: the expression is read and nothing is bound. -/
  | element (read : Expr)
  /-- Several targets that share one value. -/
  | pattern (targets : List Target)
  /-- A target that is not modeled. -/
  | unsupported (kind : String) (location : Location)
  deriving Repr, Inhabited

/-- A target that is not there. -/
def Target.absent : Target := .pattern []

/-- What an annotation says, as far as it is modeled. -/
inductive TypeForm where
  /-- The literal `None`. -/
  | noneType
  /-- A name. -/
  | name (text : String)
  /-- A name with names behind dots. -/
  | path (first : String) (rest : List String)
  /-- The only member of a union that is not `None`. -/
  | optional (inner : TypeForm)
  /-- A form whose type is not inferred. -/
  | unknown
  deriving Repr, Inhabited

/-- An annotation. -/
inductive TypeHint where
  /-- A modeled annotation with the expressions that it reads. -/
  | form (form : TypeForm) (reads : List Expr)
  /-- An annotation that is not modeled, with the beginning of its text. -/
  | unsupported (snippet : String) (location : Location)
  deriving Repr, Inhabited

/-- An assignment statement. -/
inductive Assignment where
  /-- One target and its value. -/
  | plain (hint : Option TypeHint) (target : Target) (value : Expr)
  /-- Targets that are assigned the values of the same places. -/
  | unpack (hint : Option TypeHint) (pairs : List (Target × Expr))
  /-- A target whose value is that of another assignment. -/
  | chained (hint : Option TypeHint) (target : Target) (value : Assignment)
  deriving Repr, Inhabited

/-- A part of a simple statement. -/
inductive Item where
  /-- An expression that is read. -/
  | read (value : Expr)
  /-- An assignment. -/
  | assign (assignment : Assignment)
  /-- An assignment that combines the target with a value. -/
  | augment (target : Target) (value : Expr)
  /-- A target that is bound to something of unknown type. -/
  | bind (target : Target)
  deriving Repr, Inhabited

/-- A parameter of a function. -/
inductive Parameter where
  /-- A named parameter. -/
  | named (word : Word) (hint : Option TypeHint) (default : Option Expr)
  /-- A parameter that is not modeled, with the kind of its shape and the beginning of its text. -/
  | unsupported (shape : String) (snippet : String) (location : Location)
  deriving Repr, Inhabited

/-- A function definition without its body. -/
structure FunctionHeader where
  /-- The node that defines the function. -/
  node : Nat
  /-- The name of the function. -/
  word : Word
  /-- The bytes of the definition. -/
  span : Span
  /-- True for a method that takes no receiver. -/
  isStatic : Bool
  /-- Where the list of type parameters stands, if there is one. -/
  typeParameters : Option Location
  /-- The annotation of what the function returns. -/
  returns : Option TypeHint
  /-- The parameters in order. -/
  parameters : List Parameter
  deriving Repr, Inhabited

/-- What stands in the parentheses behind the name of a class. -/
inductive ClassArgument where
  /-- A base class. -/
  | base (value : Expr)
  /-- The value of a keyword. -/
  | keyword (value : Expr)
  deriving Repr, Inhabited

/-- A class definition without its body. -/
structure ClassHeader where
  /-- The node that defines the class. -/
  node : Nat
  /-- The name of the class. -/
  word : Word
  /-- The bytes of the definition. -/
  span : Span
  /-- Where the list of type parameters stands, if there is one. -/
  typeParameters : Option Location
  /-- The bases and keywords in order. -/
  arguments : List ClassArgument
  deriving Repr, Inhabited

/-- A name bound by an import, and where it comes from. -/
structure ImportBinding where
  /-- The name that is bound. -/
  name : String
  /-- The text behind `from`, if the import has one. -/
  source : Option String
  /-- The path behind that source. -/
  path : List String
  deriving DecidableEq, Repr, Inhabited

/-- A statement. -/
inductive Stmt where
  /-- A simple statement. -/
  | simple (items : List Item)
  /-- Statements that share the scope they stand in. -/
  | block (body : List Stmt)
  /-- A caught exception: the class is read, then come some statements, and then the target is
  bound to an instance of it. -/
  | caught (value : Expr) (between : List Stmt) (target : Option Target)
  /-- A function definition. -/
  | function (header : FunctionHeader) (body : List Stmt)
  /-- A class definition. -/
  | class (header : ClassHeader) (body : List Stmt)
  /-- An import, with the place of the statement if it imports every name there is. -/
  | imports (wildcard : Option Location) (bindings : List ImportBinding)
  /-- A return statement. -/
  | returns (value : Option Expr)
  /-- Names declared `global`. -/
  | globals (names : List String)
  /-- Names declared `nonlocal`. -/
  | nonlocals (names : List String)
  /-- A statement that is not modeled. -/
  | unsupported (kind : String) (location : Location)
  deriving Repr, Inhabited

/-- A function definition with its body. -/
structure FunctionBody where
  /-- The definition. -/
  header : FunctionHeader
  /-- The statements of the body. -/
  body : List Stmt
  deriving Repr, Inhabited

mutual

/-- The functions that a statement defines where it stands, in source order; those inside their
bodies are left out. -/
def Stmt.functions : Stmt → List FunctionBody
  | .function header body => [⟨header, body⟩]
  | .block body | .caught _ body _ | .class _ body => functionsOf body
  | _ => []

/-- The functions that some statements define where they stand. -/
def functionsOf : List Stmt → List FunctionBody
  | [] => []
  | s :: rest => s.functions ++ functionsOf rest

end

mutual

/-- How many functions a statement defines, those inside other functions included. -/
def Stmt.functionCount : Stmt → Nat
  | .function _ body => functionCountOf body + 1
  | .block body | .caught _ body _ | .class _ body => functionCountOf body
  | _ => 0

/-- How many functions some statements define. -/
def functionCountOf : List Stmt → Nat
  | [] => 0
  | s :: rest => s.functionCount + functionCountOf rest

end

/-- A function and those inside it. -/
def FunctionBody.weight (f : FunctionBody) : Nat := functionCountOf f.body + 1

/-- Some functions and those inside them. -/
def totalWeight : List FunctionBody → Nat
  | [] => 0
  | f :: rest => f.weight + totalWeight rest

/-- The weight of two lists of functions is the sum of their weights. -/
@[simp] theorem totalWeight_append (fs gs : List FunctionBody) :
    totalWeight (fs ++ gs) = totalWeight fs + totalWeight gs := by
  induction fs with
  | nil => simp [totalWeight]
  | cons f rest ih => simp [totalWeight, ih, Nat.add_assoc]

mutual

/-- Every function stands in one that is defined where the statement stands. -/
theorem Stmt.totalWeight_functions : ∀ s : Stmt, totalWeight s.functions = s.functionCount
  | .function _ _ => by
    simp [Stmt.functions, Stmt.functionCount, totalWeight, FunctionBody.weight]
  | .block body | .caught _ body _ | .class _ body => by
    simp [Stmt.functions, Stmt.functionCount, totalWeight_functionsOf body]
  | .simple _ | .imports _ _ | .returns _ | .globals _ | .nonlocals _ | .unsupported _ _ => by
    simp [Stmt.functions, Stmt.functionCount, totalWeight]

/-- What the functions of some code weigh together is the number of functions that stand in it. -/
theorem totalWeight_functionsOf :
    ∀ body : List Stmt, totalWeight (functionsOf body) = functionCountOf body
  | [] => rfl
  | s :: rest => by
    simp [functionsOf, functionCountOf, Stmt.totalWeight_functions s, totalWeight_functionsOf rest]

end

/-- A module. -/
structure Module where
  /-- Where the module stands in its file. -/
  location : Location
  /-- The statements. -/
  body : List Stmt
  /-- The reports of broken syntax, in source order. -/
  brokenSyntax : List (String × Location)
  deriving Repr, Inhabited

end NameAtlas.Python
