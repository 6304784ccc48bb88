import NameAtlas.Fqn

/-!
# Module names

The module that a file declares, by its path in the workspace: the directories and the name without
its suffix, except that the file of a package stands for its directory.
-/

namespace NameAtlas

/-- The module of a file whose path gives no name. -/
def fallbackModule : String := "root"

/-- A text without a suffix, if it has the suffix. -/
def dropSuffix? (suffix cs : List Char) : Option (List Char) :=
  if suffix.isSuffixOf cs then some (cs.take (cs.length - suffix.length)) else none

/-- A path without the suffix of a Python source. -/
def stripSourceSuffix (path : List Char) : List Char :=
  match dropSuffix? ".pyi".toList path with
  | some stem => stem
  | none => (dropSuffix? ".py".toList path).getD path

/-- The non-empty components of a path. -/
def pathSegments (path : List Char) : List String :=
  (Text.splitAt '/' path).filterMap fun s => if s = [] then none else some (String.ofList s)

/-- The module that the file at a path declares. -/
def moduleOfPath (path : String) : Fqn :=
  let segments := pathSegments (stripSourceSuffix path.toList)
  let segments := if segments.getLast? = some "__init__" then segments.dropLast else segments
  if segments = [] then .root fallbackModule else ⟨segments⟩

end NameAtlas
