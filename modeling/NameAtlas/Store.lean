import NameAtlas.Fact.Record
import NameAtlas.Table

/-!
# Stores of facts

The facts of every analyzed file by its path, in the order in which the paths first came in. Writing
a path again replaces its facts and keeps its place, so the order is the order of supply.
-/

namespace NameAtlas

/-- The facts about a file with the digest of the content they were taken from. -/
structure StoredFile where
  /-- The facts. -/
  facts : FileFacts
  /-- The digest of the content. -/
  contentHash : String
  deriving DecidableEq, Repr, Inhabited

/-- The facts of a workspace, file by file. -/
structure Store where
  /-- The files by path. -/
  files : Table String StoredFile
  deriving Inhabited

namespace Store

/-- The store without files. -/
def empty : Store := ⟨.empty⟩

/-- Adds the facts of a file, or replaces those of its path. -/
def upsert (s : Store) (facts : FileFacts) (contentHash : String) : Store :=
  ⟨s.files.insert facts.path ⟨facts, contentHash⟩⟩

/-- True if a path has facts. -/
def contains (s : Store) (path : String) : Bool := s.files.contains path

/-- The facts of a path. -/
def facts? (s : Store) (path : String) : Option FileFacts :=
  (s.files.get? path).map StoredFile.facts

/-- Drops the facts of a path. -/
def remove (s : Store) (path : String) : Store := ⟨s.files.erase path⟩

/-- Adds or replaces facts, and says if there were facts of the path to be replaced. -/
def supply (s : Store) (facts : FileFacts) (contentHash : String) : Bool × Store :=
  (s.contains facts.path, s.upsert facts contentHash)

/-- Drops the facts of a path, and gives them if there were any. -/
def withdraw (s : Store) (path : String) : Option FileFacts × Store :=
  (s.facts? path, s.remove path)

/-- The digest of the content of a path. -/
def contentHash? (s : Store) (path : String) : Option String :=
  (s.files.get? path).map StoredFile.contentHash

/-- The paths in the order of supply. -/
def paths (s : Store) : List String := s.files.keys

/-- The number of files. -/
def size (s : Store) : Nat := s.files.size

end Store

end NameAtlas
