import NameAtlas.Fact.Record
import NameAtlas.Hierarchy

/-!
# Symbol tables

The symbols declared in one file, in the order of their first declarations, and the bases of its
classes. Declaring a name again changes its type and keeps the place and scope of the first
declaration; its kind changes only when a class or function definition declares it.
-/

namespace NameAtlas.Python

/-- The declared symbols and base classes of one file. -/
structure SymbolTable where
  /-- The declarations by name. -/
  declarations : Table Fqn Declaration
  /-- The direct bases of each class. -/
  bases : Table Fqn (List Fqn)

namespace SymbolTable

/-- The table without symbols. -/
def empty : SymbolTable := ⟨.empty, .empty⟩

instance : Inhabited SymbolTable := ⟨empty⟩

/-- The declaration of a name. -/
def get? (t : SymbolTable) (fqn : Fqn) : Option Declaration := t.declarations.get? fqn

/-- A declaration after another one of the same name. -/
def redeclare (old new : Declaration) : Declaration :=
  { old with type := new.type, kind := if new.kind.isDefinition then new.kind else old.kind }

/-- Declares a symbol, or changes the one that has its name. -/
def declare (t : SymbolTable) (d : Declaration) : SymbolTable :=
  { t with
    declarations := t.declarations.insert d.fqn
      (match t.get? d.fqn with
        | some old => redeclare old d
        | none => d) }

/-- Changes the type of a declared symbol. -/
def setType (t : SymbolTable) (fqn : Fqn) (type : BindingType) : SymbolTable :=
  { t with declarations := t.declarations.modify fqn fun d => { d with type := type } }

/-- The type of a symbol, which is unknown for names that are not declared. -/
def typeOf (t : SymbolTable) (fqn : Fqn) : BindingType :=
  ((t.get? fqn).map Declaration.type).getD .unknown

/-- The kind of a declared symbol. -/
def kindOf? (t : SymbolTable) (fqn : Fqn) : Option SymbolKind := (t.get? fqn).map Declaration.kind

/-- True for declared classes. -/
def isClass (t : SymbolTable) (fqn : Fqn) : Bool := t.kindOf? fqn = some .class

/-- Sets the direct bases of a class. -/
def setBases (t : SymbolTable) (c : Fqn) (bases : List Fqn) : SymbolTable :=
  { t with bases := t.bases.insert c bases }

/-- The direct bases of a class. -/
def basesOf (t : SymbolTable) (c : Fqn) : List Fqn := Hierarchy.basesOf t.bases c

/-- The number of symbols. -/
def size (t : SymbolTable) : Nat := t.declarations.size

/-- The names with their types, which is what inference has to settle. -/
def types (t : SymbolTable) : List (Fqn × BindingType) :=
  t.declarations.entries.map fun e => (e.1, e.2.type)

/-- The classes and members of the table. -/
def hierarchy (t : SymbolTable) : Hierarchy := ⟨t.bases, t.declarations.contains⟩

/-- The declared symbols in order. -/
def toDeclarations (t : SymbolTable) : List Declaration := t.declarations.values

/-- The pairs of a class and a base, class by class in the order of the base lists. -/
def toInheritances (t : SymbolTable) : List Inheritance :=
  t.bases.entries.flatMap fun e => e.2.map fun base => ⟨e.1, base⟩

end SymbolTable

end NameAtlas.Python
