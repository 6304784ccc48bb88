import NameAtlas.Python.Import
import NameAtlas.Python.Inference

/-!
# Walking a module

A walk reads the statements of a module in source order, against the scopes and types known so far
(`Walk`). It declares symbols, binds names, records the type that each function returns, and logs
every reference and every piece of code that is not modeled. The body of a function is left for
later, because a function sees what the code around it binds behind it; `Queue` reads the bodies.

Everything but the log is kept from walk to walk: scopes belong to nodes, a function is queued once,
and symbols keep their first places, so a second walk only changes types.
-/

namespace NameAtlas.Python

/-- A function whose body waits to be read. -/
structure QueuedBody where
  /-- The function. -/
  function : FunctionBody
  /-- The scope of its body. -/
  scope : Nat
  deriving Repr, Inhabited

/-- The state of a walk. -/
structure Walk where
  /-- The scopes opened so far. -/
  scopes : ScopeTree
  /-- The symbols declared so far. -/
  symbols : SymbolTable
  /-- The scope of the body of each class. -/
  classScopes : Table Fqn Nat
  /-- The functions met so far, in the order in which their bodies are read. -/
  queue : List QueuedBody
  /-- The type of the last `return` read in each function scope. -/
  returned : Table Nat BindingType
  /-- The references logged in this walk, in the order in which they were read. -/
  references : Array Reference
  /-- The findings logged in this walk, in the order in which they were made. -/
  findings : Array Finding

instance : Inhabited Walk := ⟨⟨.ofModule .empty ⟨0, 0⟩, .empty, .empty, [], .empty, #[], #[]⟩⟩

/-- What decides where imports lead. -/
structure ImportContext where
  /-- The importing module. -/
  module : Fqn
  /-- True if its file is that of a package. -/
  isPackage : Bool
  deriving DecidableEq, Repr, Inhabited

namespace Walk

/-! ### The log -/

/-- Logs a finding. -/
def report (w : Walk) (code : DiagnosticCode) (message : String) (location : Location) : Walk :=
  { w with findings := w.findings.push (.ofCode code message location) }

/-- Logs a reference. -/
def refer (w : Walk) (scope : Nat) (kind : ReferenceKind) (target : UsageTarget)
    (location : Location) : Walk :=
  { w with references := w.references.push ⟨scope, kind, target, location⟩ }

/-- Logs the reading of a name. -/
def referName (w : Walk) (scope : Nat) (target : Option NameTarget) (word : Word) : Walk :=
  w.refer scope .simpleId (.ofOption (target.map NameTarget.fqn) word.text) word.location

/-- Logs an access to a member. -/
def referMember (w : Walk) (scope : Nat) (member : Option Fqn) (word : Word) : Walk :=
  w.refer scope .attr (.ofOption member word.text) word.location

/-- The walk with an empty log. -/
def clearLog (w : Walk) : Walk := { w with references := #[], findings := #[] }

/-! ### Symbols -/

/-- Declares a symbol. -/
def declare (w : Walk) (d : Declaration) : Walk := { w with symbols := w.symbols.declare d }

/-- Binds a name. -/
def bind (w : Walk) (scope : Nat) (name : String) (target : NameTarget) : Walk :=
  { w with scopes := w.scopes.bind scope name target }

/-- The frame that receives a binding made in `scope`, and the symbol that the name becomes. -/
def bindingPlace (w : Walk) (scope : Nat) (name : String) : Nat × Fqn :=
  let i := w.scopes.bindingScope scope name
  (i, (w.scopes.ownerOf i).child name)

/-- Declares the variable or attribute that a name written in `scope` is bound to. -/
def bindName (w : Walk) (scope : Nat) (word : Word) (type : BindingType) : Walk :=
  let (i, fqn) := w.bindingPlace scope word.text
  let kind := if w.scopes.kindOf i = .class then SymbolKind.attribute else .variable
  (w.declare ⟨fqn, kind, type, i, word.location⟩).bind i word.text (.declared fqn)

/-! ### Expressions -/

/-- Reads a name. -/
def readName (w : Walk) (scope : Nat) (word : Word) : Evaluated × Walk :=
  let target := w.scopes.lookup scope word.text
  let type :=
    match target with
    | some (.declared f) => w.symbols.typeOf f
    | _ => .unknown
  (⟨type, target⟩, w.referName scope target word)

/-- Reads a member of a value. -/
def readMember (w : Walk) (scope : Nat) (object : Evaluated) (word : Word) : Evaluated × Walk :=
  let member := memberOf? w.symbols object word.text
  let value :=
    match member with
    | some (.declared f) => ⟨w.symbols.typeOf f, some (.declared f)⟩
    | some (.external f) => ⟨.unknown, some (.imported f)⟩
    | none => .unknown
  (value, w.referMember scope (member.map Member.fqn) word)

/-- The first base of the class whose method a scope lies in. -/
def superBase? (w : Walk) (scope : Nat) : Option Fqn := do
  let i ← w.scopes.enclosingFunction? scope
  let info ← (← w.scopes.frame? i).function
  (w.symbols.basesOf (← info.owner)).head?

/-- True for the built-in that stands for the base class. -/
def isSuper (callee : Evaluated) : Bool :=
  match callee.target with
  | some (.builtin f) => f.name? = some "super"
  | _ => false

/-- The type of a call. Calling `super` in a method gives an instance of the first base. -/
def typeOfCall (w : Walk) (scope : Nat) (callee : Evaluated) (written : String) :
    BindingType :=
  match if isSuper callee then w.superBase? scope else none with
  | some base => .resolved base
  | none => callType w.symbols callee written

end Walk

/-- The type of a compound expression, given that of its first part. -/
def Outcome.type (first : BindingType) : Outcome → BindingType
  | .unknown => .unknown
  | .fixed type => type
  | .ofFirst => first

mutual

/-- Evaluates an expression in a scope. -/
def eval (scope : Nat) : Expr → Walk → Evaluated × Walk
  | .name word, w => w.readName scope word
  | .attribute object member, w =>
    let (value, w) := eval scope object w
    w.readMember scope value member
  | .call callee written arguments, w =>
    let (value, w) := eval scope callee w
    let (_, w) := evalParts scope arguments w
    (.ofType (w.typeOfCall scope value written), w)
  | .compound parts outcome, w =>
    let (first, w) := evalParts scope parts w
    (.ofType (outcome.type first), w)
  | .walrus value word, w =>
    let (value, w) := eval scope value w
    (.ofType value.type, w.bindName scope word value.type)
  | .unsupported kind location, w =>
    (.unknown,
      w.report .unsupportedExpression ("`" ++ kind ++ "` expressions are not modeled") location)

/-- Evaluates expressions from left to right, and gives the type of the first. -/
def evalParts (scope : Nat) : List Expr → Walk → BindingType × Walk
  | [], w => (.unknown, w)
  | e :: rest, w =>
    let (value, w) := eval scope e w
    let (_, w) := evalParts scope rest w
    (value.type, w)

end

namespace Walk

/-- Evaluates an expression for what it reads and binds. -/
def read (w : Walk) (scope : Nat) (e : Expr) : Walk := (eval scope e w).2

/-- Evaluates expressions for what they read and bind. -/
def readAll (w : Walk) (scope : Nat) (es : List Expr) : Walk := (evalParts scope es w).2

/-! ### Annotations -/

/-- Reads an annotation, if there is one, and gives its type if it is known. The type is that from
before the names in the annotation are read. -/
def readHint (w : Walk) (scope : Nat) : Option TypeHint → Option BindingType × Walk
  | some (.form form reads) =>
    ((form.type w.scopes w.symbols scope).known?, w.readAll scope reads)
  | some (.unsupported snippet location) =>
    (none,
      w.report .unsupportedHint ("annotation `" ++ snippet ++ "` is not modeled") location)
  | none => (none, w)

/-! ### Targets -/

/-- The declared class that a value is an instance of, with the scope of its body. -/
def ownerOf? (w : Walk) (object : Evaluated) : Option (Fqn × Nat) := do
  let c ← classOf? w.symbols object.type
  pure (c, ← w.classScopes.get? c)

/-- Assigns to a member of a value: on a class of the file this declares an attribute. Without a
type the member keeps the one it has. -/
def assignMember (w : Walk) (scope : Nat) (object : Evaluated) (word : Word)
    (type : Option BindingType) : Walk :=
  let current := memberOf? w.symbols object word.text
  match w.ownerOf? object with
  | some (c, i) =>
    let kept :=
      match current with
      | some (.declared f) => w.symbols.typeOf f
      | _ => .unknown
    let fqn := c.child word.text
    (w.declare ⟨fqn, .attribute, type.getD kept, i, word.location⟩).referMember scope (some fqn) word
  | none => w.referMember scope (current.map Member.fqn) word

/-- Reports a target that is not modeled. -/
def reportTarget (w : Walk) (kind : String) (location : Location) : Walk :=
  w.report .unsupportedTarget ("cannot assign to `" ++ kind ++ "`") location

end Walk

mutual

/-- Assigns a value of some type to a target. The targets of a pattern get no type. -/
def assign (scope : Nat) (type : BindingType) : Target → Walk → Walk
  | .name word, w => w.bindName scope word type
  | .attribute object member, w =>
    let (value, w) := eval scope object w
    w.assignMember scope value member (some type)
  | .element read, w => w.read scope read
  | .pattern targets, w => assignEach scope targets w
  | .unsupported kind location, w => w.reportTarget kind location

/-- Assigns a value of unknown type to each target. -/
def assignEach (scope : Nat) : List Target → Walk → Walk
  | [], w => w
  | t :: rest, w => assignEach scope rest (assign scope .unknown t w)

end

/-- Combines a target with a value: the target is read and keeps its type. -/
def augment (scope : Nat) : Target → Walk → Walk
  | .name word, w =>
    let (value, w) := w.readName scope word
    w.bindName scope word value.type
  | .attribute object member, w =>
    let (value, w) := eval scope object w
    w.assignMember scope value member none
  | .element read, w => w.read scope read
  | .pattern _, w => w
  | .unsupported kind location, w => w.reportTarget kind location

/-- Evaluates each value and assigns it before the next one is evaluated. -/
def assignPairs (scope : Nat) : List (Target × Expr) → Walk → Walk
  | [], w => w
  | (target, value) :: rest, w =>
    let (value, w) := eval scope value w
    assignPairs scope rest (assign scope value.type target w)

/-- Performs an assignment, and gives the type that its target got. -/
def performAssignment (scope : Nat) : Assignment → Walk → BindingType × Walk
  | .plain hint target value, w =>
    let (annotated, w) := w.readHint scope hint
    let (value, w) := eval scope value w
    let type := annotated.getD value.type
    (type, assign scope type target w)
  | .unpack hint pairs, w =>
    let (_, w) := w.readHint scope hint
    (.unknown, assignPairs scope pairs w)
  | .chained hint target value, w =>
    let (annotated, w) := w.readHint scope hint
    let (value, w) := performAssignment scope value w
    let type := annotated.getD value
    (type, assign scope type target w)

/-- Performs a part of a simple statement. -/
def performItem (scope : Nat) : Item → Walk → Walk
  | .read value, w => w.read scope value
  | .assign assignment, w => (performAssignment scope assignment w).2
  | .augment target value, w => augment scope target (w.read scope value)
  | .bind target, w => assign scope .unknown target w

namespace Walk

/-- Performs the parts of a simple statement in order. -/
def performItems (w : Walk) (scope : Nat) (items : List Item) : Walk :=
  items.foldl (fun w item => performItem scope item w) w

/-! ### Definitions -/

/-- Reports a list of type parameters, if there is one. -/
def reportTypeParameters (w : Walk) : Option Location → Walk
  | some location =>
    w.report .unsupportedExpression "type parameter lists are not modeled" location
  | none => w

/-- Reads the default of a parameter, if it has one. -/
def readDefault (w : Walk) (scope : Nat) : Option Expr → Walk
  | some e => w.read scope e
  | none => w

/-- Declares a parameter in the scope of its function. -/
def declareParameter (w : Walk) (scope : Nat) (word : Word) (type : BindingType) : Walk :=
  let fqn := (w.scopes.ownerOf scope).child word.text
  (w.declare ⟨fqn, .parameter, type, scope, word.location⟩).bind scope word.text (.declared fqn)

/-- Declares parameters in the scope of their function. Annotations and defaults are read in the
scope around it. The first parameter to be declared takes the receiver as its type. -/
def declareParameters (outer scope : Nat) : Option Fqn → List Parameter → Walk → Walk
  | _, [], w => w
  | receiver, .named word hint default :: rest, w =>
    let (annotated, w) := w.readHint outer hint
    let w := w.readDefault outer default
    let type :=
      match receiver with
      | some c => .resolved c
      | none => annotated.getD .unknown
    declareParameters outer scope none rest (w.declareParameter scope word type)
  | receiver, .unsupported shape snippet location :: rest, w =>
    declareParameters outer scope receiver rest
      (w.report .unsupportedParameter
        ("unsupported parameter syntax \"" ++ shape ++ "\" in " ++ snippet) location)

/-- Opens the scope of a definition. -/
def openScope (w : Walk) (node : Nat) (kind : ScopeKind) (owner : Fqn) (parent : Nat)
    (span : Span) : Nat × Walk :=
  let (i, scopes) := w.scopes.openFrame node kind owner parent span
  (i, { w with scopes })

/-- Puts a function at the end of the queue, unless its node has been queued before. -/
def enqueue (w : Walk) (f : FunctionBody) (scope : Nat) : Walk :=
  if w.queue.any fun q => q.function.header.node = f.header.node then w
  else { w with queue := w.queue ++ [⟨f, scope⟩] }

/-- The class that a function defined in a scope is a method of, which is the one whose body the
scope is. -/
def methodOwner? (w : Walk) (scope : Nat) : Option Fqn :=
  if w.scopes.kindOf scope = .class then some (w.scopes.ownerOf scope) else none

/-- Records what is known about the function of a scope. -/
def setFunction (w : Walk) (scope : Nat) (info : FunctionInfo) : Walk :=
  { w with scopes := w.scopes.setFunction scope info }

/-- Declares a function at its place and opens its scope. Without an annotation the type stays what
the body returned in the walk before. -/
def openFunction (w : Walk) (scope : Nat) (h : FunctionHeader) (place : Nat × Fqn)
    (annotated : Option BindingType) : Nat × Walk :=
  let w := w.declare
    ⟨place.2, .function, annotated.getD (w.symbols.typeOf place.2), place.1, h.word.location⟩
  (w.bind place.1 h.word.text (.declared place.2)).openScope h.node .function place.2 scope h.span

/-- Declares a function at its place, opens its scope and leaves its body for later. -/
def enterFunction (w : Walk) (scope : Nat) (f : FunctionBody) (place : Nat × Fqn)
    (annotated : Option BindingType) : Nat × Walk :=
  let (inner, w) := w.openFunction scope f.header place annotated
  let info : FunctionInfo := ⟨place.2, w.methodOwner? scope, annotated.isSome⟩
  (inner, (w.setFunction inner info).enqueue f inner)

/-- Declares a function, its scope and its parameters. Its body is left for later. -/
def defineFunction (w : Walk) (scope : Nat) (f : FunctionBody) : Walk :=
  let place := w.bindingPlace scope f.header.word.text
  let (annotated, w) := (w.reportTypeParameters f.header.typeParameters).readHint scope
    f.header.returns
  let (inner, w) := w.enterFunction scope f place annotated
  let receiver := if f.header.isStatic then none else w.methodOwner? scope
  declareParameters scope inner receiver f.header.parameters w

/-- Reads the arguments of a class definition, and gives the names of its bases. -/
def readBases (scope : Nat) : List ClassArgument → Walk → List Fqn × Walk
  | [], w => ([], w)
  | .keyword value :: rest, w => readBases scope rest (w.read scope value)
  | .base value :: rest, w =>
    let (value, w) := eval scope value w
    let (bases, w) := readBases scope rest w
    ((value.target.map NameTarget.fqn).toList ++ bases, w)

/-- Declares a class at its place and opens its scope. -/
def enterClass (w : Walk) (scope : Nat) (h : ClassHeader) (place : Nat × Fqn) : Nat × Walk :=
  let w := w.declare ⟨place.2, .class, .resolved place.2, place.1, h.word.location⟩
  let (inner, w) := w.openScope h.node .class place.2 scope h.span
  (inner, { w with classScopes := w.classScopes.insert place.2 inner })

/-- Declares a class with its bases, and gives the scope of its body. -/
def defineClass (w : Walk) (scope : Nat) (h : ClassHeader) (place : Nat × Fqn) : Nat × Walk :=
  let (inner, w) := (w.reportTypeParameters h.typeParameters).enterClass scope h place
  -- The bases are read as if they stood in the body.
  let (bases, w) := readBases inner h.arguments w
  (inner, { w with symbols := w.symbols.setBases place.2 bases })

/-- Notes the type of a return statement for the function it stands in. -/
def noteReturn (w : Walk) (scope : Nat) (type : BindingType) : Walk :=
  match w.scopes.enclosingFunction? scope with
  | some i => { w with returned := w.returned.insert i type }
  | none => w

/-- Binds a name of an import in the frame that receives the binding. -/
def bindImport (w : Walk) (context : ImportContext) (scope : Nat) (b : ImportBinding) : Walk :=
  w.bind (w.scopes.bindingScope scope b.name) b.name
    (.imported (b.target context.module context.isPackage))

/-- Binds the names of an import. -/
def bindImports (w : Walk) (context : ImportContext) (scope : Nat) (bindings : List ImportBinding) :
    Walk :=
  bindings.foldl (fun w b => w.bindImport context scope b) w

/-- Reports an import of every name, if it is one. -/
def reportWildcard (w : Walk) : Option Location → Walk
  | some location => w.report .unsupportedStatement "wildcard imports bind no names" location
  | none => w

/-- Declares names `global`. -/
def declareGlobals (w : Walk) (scope : Nat) (names : List String) : Walk :=
  { w with scopes := names.foldl (fun t name => t.declareGlobal scope name) w.scopes }

/-- Declares names `nonlocal`. -/
def declareNonlocals (w : Walk) (scope : Nat) (names : List String) : Walk :=
  { w with scopes := names.foldl (fun t name => t.declareNonlocal scope name) w.scopes }

end Walk

mutual

/-- Reads a statement in a scope. -/
def visit (context : ImportContext) (scope : Nat) : Stmt → Walk → Walk
  | .simple items, w => w.performItems scope items
  | .block body, w => visitAll context scope body w
  | .caught value between target, w =>
    let (value, w) := eval scope value w
    let type := instanceType w.symbols value
    let w := visitAll context scope between w
    match target with
    | some target => assign scope type target w
    | none => w
  | .function header body, w => w.defineFunction scope ⟨header, body⟩
  | .class header body, w =>
    let place := w.bindingPlace scope header.word.text
    let (inner, w) := w.defineClass scope header place
    -- The name stands for the class only behind the body.
    (visitAll context inner body w).bind place.1 header.word.text (.declared place.2)
  | .imports wildcard bindings, w => (w.reportWildcard wildcard).bindImports context scope bindings
  | .returns (some value), w =>
    let (value, w) := eval scope value w
    w.noteReturn scope value.type
  | .returns none, w => w.noteReturn scope .noneType
  | .globals names, w => w.declareGlobals scope names
  | .nonlocals names, w => w.declareNonlocals scope names
  | .unsupported kind location, w =>
    w.report .unsupportedStatement ("`" ++ kind ++ "` statements are not modeled") location

/-- Reads statements in order. -/
def visitAll (context : ImportContext) (scope : Nat) : List Stmt → Walk → Walk
  | [], w => w
  | s :: rest, w => visitAll context scope rest (visit context scope s w)

end

end NameAtlas.Python
