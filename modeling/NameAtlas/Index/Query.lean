import NameAtlas.Index.Basic

/-!
# Questions to an index

Look-ups by number, path and name, the listings of an index in their fixed orders, and its counts.
-/

namespace NameAtlas.Index

/-- The file with a number. -/
def file? (index : Index) (id : FileId) : Option File := index.files[id.position]?

/-- The file at a path. -/
def fileAt? (index : Index) (path : String) : Option File :=
  index.files.find? fun f => f.path = path

/-- The symbol with a name. -/
def symbol? (index : Index) (fqn : Fqn) : Option Symbol := index.symbols.get? fqn

/-- All symbols in the order of their names. -/
def allSymbols (index : Index) : List Symbol :=
  index.symbols.values.mergeSort fun a b => a.fqn.le b.fqn

/-- The scope with a number. -/
def scope? (index : Index) (id : ScopeId) : Option Scope := index.scopes[id.position]?

/-- The scopes of a file in order. -/
def scopesOfFile (index : Index) (id : FileId) : List Scope :=
  index.scopes.filter fun s => s.file = id

/-- The symbols declared in a scope, without those that a later file has taken over. -/
def symbolsInScope (index : Index) (id : ScopeId) : List Symbol :=
  match index.scope? id with
  | some s => (s.symbols.filterMap index.symbol?).filter fun symbol => symbol.scope = id
  | none => []

/-- The references to a name. -/
def usagesOf (index : Index) (fqn : Fqn) : List Usage :=
  index.usagesByTarget.entries fqn index.usages

/-- The references in a file. -/
def usagesInFile (index : Index) (id : FileId) : List Usage :=
  index.usagesByFile.entries id index.usages

/-- The diagnostics of a file. -/
def diagnosticsOfFile (index : Index) (id : FileId) : List Diagnostic :=
  index.diagnosticsByFile.entries id index.diagnostics

/-- The diagnostics of the file at a path. -/
def diagnosticsAt (index : Index) (path : String) : List Diagnostic :=
  match index.fileAt? path with
  | some f => index.diagnosticsOfFile f.id
  | none => []

/-- The classes with their direct bases, in the order of the classes. -/
def allBases (index : Index) : List (Fqn × List Fqn) :=
  index.bases.entries.mergeSort fun a b => a.1.le b.1

/-- The classes and members of the index. -/
def hierarchy (index : Index) : Hierarchy := ⟨index.bases, index.symbols.contains⟩

/-- What an index holds, in numbers. -/
structure Summary where
  /-- The number of files. -/
  files : Nat
  /-- The number of scopes. -/
  scopes : Nat
  /-- The number of symbols. -/
  symbols : Nat
  /-- The number of references. -/
  usages : Nat
  /-- The number of references that lead to a name. -/
  resolved : Nat
  /-- The number of references that lead nowhere. -/
  unresolved : Nat
  /-- The number of diagnostics. -/
  diagnostics : Nat
  deriving DecidableEq, Repr, Inhabited

/-- The counts of an index. -/
def summary (index : Index) : Summary :=
  let resolved := index.usages.countP fun u => u.target.isResolved
  { files := index.files.length
    scopes := index.scopes.length
    symbols := index.symbols.size
    usages := index.usages.length
    resolved
    unresolved := index.usages.length - resolved
    diagnostics := index.diagnostics.length }

end NameAtlas.Index
