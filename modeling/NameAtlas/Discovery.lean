import NameAtlas.Failure
import NameAtlas.FileSystem.Tree
import NameAtlas.Glob.Parser

/-!
# Discovery

Which files of a workspace are looked at. A target that is a file is taken as it is. Below a target
that is a directory, every file is taken whose path in the workspace is accepted and matches no
exclude pattern, except in the directories that tools fill; these files are ordered by path. A path
that comes up again is dropped, so each file keeps its first place.
-/

namespace NameAtlas

/-- The names of directories that tools fill. -/
def toolDirectories : List String :=
  [".git", ".hg", ".svn", "node_modules", "__pycache__", ".pytest_cache", ".mypy_cache",
    ".ruff_cache", ".tox", "target", ".venv", "venv", ".env", "env", "build", "dist"]

/-- The suffix of the directories that describe an installed package. -/
def packageInfoSuffix : String := ".egg-info"

/-- True for the names that are not looked behind. -/
def isToolName (name : String) : Bool :=
  toolDirectories.contains name || packageInfoSuffix.toList.isSuffixOf name.toList

/-- A file that was found. -/
structure Discovered where
  /-- The path in the workspace. -/
  path : String
  /-- Where the file is. -/
  route : Route
  /-- What is in it. -/
  content : FileContent
  deriving Inhabited

/-- The exclude patterns as globs. -/
def excludeGlobs (patterns : List String) : Except DiscoveryError (List Glob) :=
  patterns.mapM fun pattern =>
    match Glob.parse pattern with
    | .ok g => .ok g
    | .error e =>
      .error (.invalidPattern pattern (s!"error parsing glob '{pattern}': " ++ e.message))

namespace FileSystem

/-- The files below the directory at a path, in the order of their paths. -/
def walk (fs : FileSystem) (workspace directory : Path) (route : Route) (isTaken : String → Bool) :
    List Discovered :=
  -- The path in the workspace decides, so what stands above the workspace does not count; what lies
  -- inside one of the tools is left out even if it is asked for.
  let isOpen (names : Route) : Bool :=
    !((directory.descend names).relativeTo workspace).names.any isToolName
  let found :=
    match fs.entryAt? route with
    | some e => if isOpen [] then e.files isOpen else []
    | none => []
  let files := found.map fun f =>
    ⟨(directory.descend f.1).inWorkspace workspace, route ++ f.1, f.2⟩
  (files.filter fun f => isTaken f.path).mergeSort fun a b => decide (a.path ≤ b.path)

/-- The files of a target. -/
def target (fs : FileSystem) (workspace : Path) (isTaken : String → Bool) (target : Path) :
    Except DiscoveryError (List Discovered) :=
  match fs.resolve? target with
  | none => .error (.rootNotFound target.text)
  | some route =>
    match fs.entryAt? route with
    | some (.file content) => .ok [⟨target.inWorkspace workspace, route, content⟩]
    | _ => .ok (fs.walk workspace target route isTaken)

/-- The first of the files of each path. -/
def firstOfEach (files : List Discovered) : List Discovered :=
  files.eraseDupsBy fun a b => a.path == b.path

/-- The files of a workspace that targets name, or all of them if there are no targets. -/
def discover (fs : FileSystem) (workspace : Path) (targets : List Path) (exclude : List String)
    (accepts : String → Bool) : Except DiscoveryError (List Discovered) := do
  if !fs.isDirectory workspace then throw (.rootNotFound workspace.text)
  let globs ← excludeGlobs exclude
  let isTaken (path : String) : Bool := accepts path && !globs.any fun g => g.accepts path
  let roots := if targets.isEmpty then [workspace] else targets.map workspace.join
  let files ← roots.mapM (fs.target workspace isTaken)
  pure (firstOfEach files.flatten)

end FileSystem

end NameAtlas
