import NameAtlas.Fact.Record
import NameAtlas.Hierarchy
import NameAtlas.Index.Postings
import NameAtlas.Store

/-!
# The index

The facts of all files of a store merged into one view. Files and scopes get numbers in the order of
supply, which are their positions in the lists here. Symbols are found by name: when two files
declare one name the later file wins, and a finding is filed with it, except that files may share
the name of their module. References and findings keep the order of their files, and within a file
their own; posting lists, which grow with them, lead from a name or a file to them.
-/

namespace NameAtlas

/-- The merged facts of all files. -/
structure Index where
  /-- The files; the number of a file is its position. -/
  files : List File
  /-- The scopes; the number of a scope is its position. -/
  scopes : List Scope
  /-- The symbols by name. -/
  symbols : Table Fqn Symbol
  /-- The direct bases of each class. -/
  bases : Table Fqn (List Fqn)
  /-- The references. -/
  usages : List Usage
  /-- The findings. -/
  diagnostics : List Diagnostic
  /-- Where the references to each name stand. -/
  usagesByTarget : Postings Fqn
  /-- Where the references of each file stand. -/
  usagesByFile : Postings FileId
  /-- Where the findings of each file stand. -/
  diagnosticsByFile : Postings FileId
  deriving Inhabited

namespace Index

/-- The index without files. -/
def empty : Index := ⟨[], [], .empty, .empty, [], [], .empty, .empty, .empty⟩

/-- The numbers that the scopes of one file get. -/
structure Numbering where
  /-- The number of the file. -/
  file : FileId
  /-- How many scopes the files before it have. -/
  first : Nat
  /-- How many scopes the file has. -/
  count : Nat
  deriving DecidableEq, Repr, Inhabited

namespace Numbering

/-- The number of the scope at a position, if the file has one there. -/
def scope? (n : Numbering) (i : Nat) : Option ScopeId :=
  if i < n.count then some ⟨n.first + i⟩ else none

/-- The number of the scope at a position; a position that is out of range counts as that of the
first scope. -/
def scopeOrFirst? (n : Numbering) (i : Nat) : Option ScopeId :=
  match n.scope? i with
  | some id => some id
  | none => n.scope? 0

end Numbering

/-- The numbers for the next file of an index. -/
def numbering (index : Index) (facts : FileFacts) : Numbering :=
  ⟨⟨index.files.length⟩, index.scopes.length, facts.scopes.length⟩

/-- The record of a file. -/
def fileOf (n : Numbering) (stored : StoredFile) : File :=
  ⟨n.file, stored.facts.path, stored.facts.module, stored.contentHash⟩

/-- The names that a file declares in one of its scopes, each once. -/
def namesIn (n : Numbering) (facts : FileFacts) (id : ScopeId) : List Fqn :=
  ((facts.declarations.filter fun d => n.scopeOrFirst? d.scope = some id).map
    Declaration.fqn).eraseDups

/-- The records of the scopes of a file. -/
def scopesOf (n : Numbering) (facts : FileFacts) : List Scope :=
  facts.scopes.mapIdx fun i s =>
    { id := ⟨n.first + i⟩
      kind := s.kind
      owner := s.owner
      parent := s.parent.bind n.scope?
      file := n.file
      span := s.span
      symbols := namesIn n facts ⟨n.first + i⟩ }

/-- The records of the symbols of a file, in order; a file without scopes declares nothing. -/
def symbolsOf (n : Numbering) (facts : FileFacts) : List Symbol :=
  facts.declarations.filterMap fun d =>
    (n.scopeOrFirst? d.scope).map fun scope => ⟨d.fqn, d.kind, d.type, scope, n.file, d.location⟩

/-- The finding that a name is also declared in an earlier file. -/
def duplicateFinding (s : Symbol) (earlier : String) : Finding :=
  .ofCode .duplicateFqn
    ("`" ++ s.fqn.render ++ "` is also declared in " ++ earlier ++ "; this declaration wins")
    s.location

/-- True if two symbols of one name belong to different files and are not both modules. -/
def collides (previous s : Symbol) : Bool :=
  previous.file ≠ s.file && !(previous.kind = .module && s.kind = .module)

/-- The path of a file by its number. -/
def pathOf (files : List File) (id : FileId) : String :=
  (files[id.position]?.map File.path).getD "?"

/-- The findings about names that earlier files declare too, given the symbols so far. -/
def collisions (files : List File) : Table Fqn Symbol → List Symbol → List Finding
  | _, [] => []
  | table, s :: rest =>
    let found :=
      match table.get? s.fqn with
      | some previous =>
        if collides previous s then [duplicateFinding s (pathOf files previous.file)] else []
      | none => []
    found ++ collisions files (table.insert s.fqn s) rest

/-- Writes symbols over those of the same names. -/
def insertSymbols (table : Table Fqn Symbol) (symbols : List Symbol) : Table Fqn Symbol :=
  symbols.foldl (fun t s => t.insert s.fqn s) table

/-- The bases that a file gives a class. -/
def basesIn (facts : FileFacts) (c : Fqn) : List Fqn :=
  (facts.inheritances.filter fun i => i.derived = c).map Inheritance.base

/-- Writes the bases of the classes of a file over those of the same names. -/
def insertBases (table : Table Fqn (List Fqn)) (facts : FileFacts) : Table Fqn (List Fqn) :=
  facts.inheritances.foldl (fun t i => t.insert i.derived (basesIn facts i.derived)) table

/-- The records of the references of a file; a file without scopes has none. -/
def usagesOfFacts (n : Numbering) (facts : FileFacts) : List Usage :=
  facts.references.filterMap fun r =>
    (n.scopeOrFirst? r.scope).map fun scope => ⟨scope, r.kind, r.target, n.file, r.location⟩

/-- The records of findings in the order of their locations. -/
def diagnosticsOfFindings (n : Numbering) (findings : List Finding) : List Diagnostic :=
  (findings.mergeSort fun a b => a.location.le b.location).map fun f => ⟨n.file, f⟩

/-- Merges the facts of one more file. -/
def merge (index : Index) (stored : StoredFile) : Index :=
  let facts := stored.facts
  let n := index.numbering facts
  let symbols := symbolsOf n facts
  let usages := usagesOfFacts n facts
  let diagnostics :=
    diagnosticsOfFindings n (facts.findings ++ collisions index.files index.symbols symbols)
  { files := index.files ++ [fileOf n stored]
    scopes := index.scopes ++ scopesOf n facts
    symbols := insertSymbols index.symbols symbols
    bases := insertBases index.bases facts
    usages := index.usages ++ usages
    diagnostics := index.diagnostics ++ diagnostics
    usagesByTarget :=
      index.usagesByTarget.postAll (fun u => u.target.fqn?) index.usages.length usages
    usagesByFile := index.usagesByFile.postAll (fun u => some u.file) index.usages.length usages
    diagnosticsByFile :=
      index.diagnosticsByFile.postAll (fun d => some d.fileId) index.diagnostics.length
        diagnostics }

end Index

/-- The index of the files of a store. -/
def Store.index (s : Store) : Index := s.files.values.foldl Index.merge .empty

end NameAtlas
