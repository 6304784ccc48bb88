/-!
# Kinds of facts

What a symbol, a scope or a reference is. Each kind has one written name, `ofName?` reads it back,
and no other text is a name (`ofName?_eq_some_iff`).
-/

namespace NameAtlas

/-- What a declared symbol is. -/
inductive SymbolKind where
  /-- The module itself. -/
  | module
  /-- A class. -/
  | class : SymbolKind
  /-- A function or method. -/
  | function
  /-- A parameter of a function. -/
  | parameter
  /-- A variable of a module or function. -/
  | variable
  /-- A variable of a class, or of its instances. -/
  | attribute
  deriving DecidableEq, Repr, Inhabited

namespace SymbolKind

/-- The written name. -/
def name : SymbolKind → String
  | .module => "module"
  | .class => "class"
  | .function => "function"
  | .parameter => "parameter"
  | .variable => "variable"
  | .attribute => "attribute"

/-- Every kind. -/
def all : List SymbolKind := [.module, .class, .function, .parameter, .variable, .attribute]

/-- The kind with a written name. -/
def ofName? (s : String) : Option SymbolKind := all.find? fun k => k.name = s

/-- True for the kinds whose type can change as assignments are read. -/
def isBinding : SymbolKind → Bool
  | .variable | .attribute | .parameter => true
  | _ => false

/-- True for the kinds that a definition statement gives, which override any other kind. -/
def isDefinition : SymbolKind → Bool
  | .function | .class => true
  | _ => false

/-- Reading accepts exactly what writing produces. -/
theorem ofName?_eq_some_iff {s : String} {k : SymbolKind} : ofName? s = some k ↔ s = k.name := by
  constructor
  · intro h
    have := List.find?_some h
    simpa using (of_decide_eq_true this).symm
  · rintro rfl
    cases k <;> rfl

end SymbolKind

/-- What a lexical scope belongs to. -/
inductive ScopeKind where
  /-- The module body. -/
  | module
  /-- A class body. -/
  | class : ScopeKind
  /-- A function body with its parameters. -/
  | function
  deriving DecidableEq, Repr, Inhabited

namespace ScopeKind

/-- The written name. -/
def name : ScopeKind → String
  | .module => "module"
  | .class => "class"
  | .function => "function"

/-- Every kind. -/
def all : List ScopeKind := [.module, .class, .function]

/-- The kind with a written name. -/
def ofName? (s : String) : Option ScopeKind := all.find? fun k => k.name = s

/-- Reading accepts exactly what writing produces. -/
theorem ofName?_eq_some_iff {s : String} {k : ScopeKind} : ofName? s = some k ↔ s = k.name := by
  constructor
  · intro h
    have := List.find?_some h
    simpa using (of_decide_eq_true this).symm
  · rintro rfl
    cases k <;> rfl

end ScopeKind

/-- How a reference is written. -/
inductive ReferenceKind where
  /-- A bare name. -/
  | simpleId
  /-- A name behind a dot. -/
  | attr
  deriving DecidableEq, Repr, Inhabited

namespace ReferenceKind

/-- The written name. -/
def name : ReferenceKind → String
  | .simpleId => "simple_id"
  | .attr => "attr"

/-- Every kind. -/
def all : List ReferenceKind := [.simpleId, .attr]

/-- The kind with a written name. -/
def ofName? (s : String) : Option ReferenceKind := all.find? fun k => k.name = s

/-- Reading accepts exactly what writing produces. -/
theorem ofName?_eq_some_iff {s : String} {k : ReferenceKind} :
    ofName? s = some k ↔ s = k.name := by
  constructor
  · intro h
    have := List.find?_some h
    simpa using (of_decide_eq_true this).symm
  · rintro rfl
    cases k <;> rfl

end ReferenceKind

end NameAtlas
