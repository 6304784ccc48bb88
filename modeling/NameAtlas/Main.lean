import NameAtlas.CommandLine
import NameAtlas.Json.Parser
import NameAtlas.Source.Encoding

/-!
# The program

Loads the files that the arguments can be about, runs the command line on them, prints what it says
and ends with its exit code. The parse tree of a Python source is expected beside it, in a file whose
name has `treeSuffix` behind that of the source.
-/

namespace NameAtlas

/-- What stands behind the name of a source in the name of the file with its parse tree. -/
def treeSuffix : String := ".tree"

/-- The parse tree in a text, if the text holds one. -/
def treeOfText? (text : String) : Option Source.Node := Json.parse? text >>= Source.Node.ofJson?

/-- The names that lead to an absolute path. -/
def routeOfPath (path : String) : Route := (Path.mk path).names

/-- A text behind the first equals sign in it, or all of it: the part of an argument that may be a
path. -/
def pathInArgument (arg : String) : String :=
  match arg.toList.dropWhile (· ≠ '=') with
  | _ :: value => String.ofList value
  | [] => arg

/-- Adds a file to a file system. -/
def loadFile (fs : FileSystem) (path : String) : IO FileSystem := do
  let bytes ← IO.FS.readBinFile path
  let tree ←
    try
      if Python.isPythonPath path then pure (treeOfText? (← IO.FS.readFile (path ++ treeSuffix)))
      else pure none
    catch _ => pure none
  return fs.write (routeOfPath path) ⟨bytes, tree⟩

/-- Adds a file, or a directory with everything below it except what tools put there. -/
partial def load (fs : FileSystem) (path : String) : IO FileSystem := do
  let place ← IO.FS.realPath path
  if ← place.isDir then
    let mut fs := fs.makeDirectory (routeOfPath place.toString)
    for entry in ← place.readDir do
      if !isToolName entry.fileName then fs ← load fs entry.path.toString
    return fs
  else loadFile fs place.toString

/-- Adds what is at a path, if something is there that can be read. -/
def loadIfPresent (fs : FileSystem) (path : String) : IO FileSystem := do
  try load fs path catch _ => return fs

end NameAtlas

open NameAtlas in
/-- Runs the program on the files of the current directory and those that the arguments name. -/
def main (args : List String) : IO UInt32 := do
  let here := (← IO.FS.realPath ".").toString
  let mut fs ← load ⟨.directory [], routeOfPath here⟩ here
  for arg in args do
    fs ← loadIfPresent fs (pathInArgument arg)
  let outcome := CommandLine.run fs args
  IO.print outcome.output
  return outcome.exitCode.toUInt32
