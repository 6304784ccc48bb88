import NameAtlas.FileSystem.Path
import NameAtlas.Source.Tree
import NameAtlas.Table

/-!
# File systems

Files and directories as a tree. A *route* is the list of names that leads to an entry from the top,
so equal routes are the same entry; a path is resolved to a route piece by piece, as the system
does: every piece, also an empty one or a dot, needs a directory to stand in. A file holds its bytes
and, since reading Python code is not the business of this library, the parse tree of its text.
-/

namespace NameAtlas

/-- A file. -/
structure FileContent where
  /-- The bytes. -/
  bytes : ByteArray
  /-- The parse tree of the text, if there is a parser for it. -/
  tree : Option Source.Node := none
  deriving Inhabited

/-- The size of a file in bytes. -/
def FileContent.size (f : FileContent) : Nat := f.bytes.size

/-- The text of a file, if its bytes are one. -/
def FileContent.text? (f : FileContent) : Option String := String.fromUTF8? f.bytes

/-- What a name in a directory stands for. -/
inductive Entry where
  /-- A file. -/
  | file (content : FileContent)
  /-- A directory with its entries by name. -/
  | directory (entries : List (String × Entry))
  deriving Inhabited

/-- The names that lead to an entry from the top. -/
abbrev Route := List String

namespace Entry

/-- The entry behind some names. -/
def find? : Route → Entry → Option Entry
  | [], e => some e
  | _ :: _, .file _ => none
  | name :: rest, .directory es => (Table.lookup name es).bind (find? rest)

/-- Changes the entry behind some names, making the directories on the way. A file in the way stays
as it is. -/
def put (change : Option Entry → Option Entry) : Route → Entry → Entry
  | [], e => (change (some e)).getD e
  | _ :: _, .file content => .file content
  | [name], .directory es =>
    match change (Table.lookup name es) with
    | some e => .directory (Table.insertEntry name e es)
    | none => .directory (es.filter fun entry => entry.1 ≠ name)
  | name :: rest, .directory es =>
    let below := (Table.lookup name es).getD (.directory [])
    .directory (Table.insertEntry name (put change rest below) es)

mutual

/-- The files of an entry with the names that lead to them. Only what has `isKept` is looked at, files
included. -/
def files (isKept : Route → Bool) : Entry → List (Route × FileContent)
  | .file content => [([], content)]
  | .directory es => filesIn isKept es

/-- The files of the entries of a directory. -/
def filesIn (isKept : Route → Bool) : List (String × Entry) → List (Route × FileContent)
  | [] => []
  | (name, e) :: rest =>
    (if isKept [name] then
      (files (fun names => isKept (name :: names)) e).map fun f => (name :: f.1, f.2)
    else []) ++ filesIn isKept rest

end

end Entry

/-- A tree of files with a current directory. -/
structure FileSystem where
  /-- The directory at the top. -/
  top : Entry
  /-- Where relative paths start. -/
  current : Route
  deriving Inhabited

namespace FileSystem

/-- The entry at a route. -/
def entryAt? (fs : FileSystem) (route : Route) : Option Entry := fs.top.find? route

/-- The route that a piece of a path leads to from a route. -/
def step? (fs : FileSystem) (route : Route) (piece : String) : Option Route :=
  match fs.entryAt? route with
  | some (.directory es) =>
    if Path.isVoid piece then some route
    else if piece = ".." then some route.dropLast
    else if (Table.lookup piece es).isSome then some (route ++ [piece])
    else none
  | _ => none

/-- The route of a path, if there is something at it. -/
def resolve? (fs : FileSystem) (p : Path) : Option Route :=
  if p.text = "" then none
  else p.pieces.foldlM fs.step? (if p.isAbsolute then [] else fs.current)

/-- The entry at a path. -/
def entry? (fs : FileSystem) (p : Path) : Option Entry := (fs.resolve? p).bind fs.entryAt?

/-- The file at a path. -/
def file? (fs : FileSystem) (p : Path) : Option FileContent :=
  match fs.entry? p with
  | some (.file content) => some content
  | _ => none

/-- True if there is a directory at a path. -/
def isDirectory (fs : FileSystem) (p : Path) : Bool :=
  match fs.entry? p with
  | some (.directory _) => true
  | _ => false

/-- The path of the current directory. -/
def currentPath (fs : FileSystem) : Path := ⟨"/" ++ "/".intercalate fs.current⟩

/-- Writes a file, making the directories on the way. -/
def write (fs : FileSystem) (route : Route) (content : FileContent) : FileSystem :=
  { fs with top := fs.top.put (fun _ => some (.file content)) route }

/-- Makes a directory and those on the way; one that is there stays as it is. -/
def makeDirectory (fs : FileSystem) (route : Route) : FileSystem :=
  { fs with top := fs.top.put (fun e => some (e.getD (.directory []))) route }

/-- Removes what is at a route. -/
def remove (fs : FileSystem) (route : Route) : FileSystem :=
  { fs with top := fs.top.put (fun _ => none) route }

end FileSystem

end NameAtlas
