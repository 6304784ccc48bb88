import NameAtlas.Annotate
import NameAtlas.Indexer
import NameAtlas.Json.Printer
import NameAtlas.Response

/-!
# Commands

What the program does on request: index the files of a workspace and answer from the index, or
annotate one file. Every command loads the configuration first, from the file that the options name
or from the workspace, and puts the options over it.
-/

namespace NameAtlas

open Python

/-- The options of every command. -/
structure RunOptions where
  /-- The workspace; without it the current directory. -/
  workspace : Option Path := none
  /-- The configuration file; without it the one in the workspace, if there is one. -/
  config : Option Path := none
  /-- The module of every file. -/
  rootModule : Option String := none
  /-- The number of workers. -/
  jobs : Option Nat := none
  deriving DecidableEq, Repr, Inhabited

/-- What a command is asked to do. -/
inductive Command where
  /-- Give everything in the index. -/
  | index (targets : List Path)
  /-- Give one symbol. -/
  | symbol (fqn : String) (targets : List Path)
  /-- Give the references to a name. -/
  | usages (fqn : String) (targets : List Path)
  /-- Give the diagnostics by file. -/
  | diagnostics (targets : List Path)
  /-- Give a file with the facts about it as comments. -/
  | annotate (file : Path)
  deriving DecidableEq, Repr, Inhabited

/-- The response to an indexing of files. -/
structure IndexRunResponse where
  /-- Everything in the index. -/
  index : IndexResponse
  /-- The files that were skipped. -/
  skipped : List SkippedFile
  deriving Inhabited

/-- The JSON of the response. -/
def IndexRunResponse.toJson (r : IndexRunResponse) : Json :=
  .obj (r.index.members ++ [("skipped", Json.ofList SkippedFile.toJson r.skipped)])

/-- Reads a configuration file, which has to exist. -/
def Config.load (fs : FileSystem) (path : Path) : Except Failure Config :=
  match fs.entry? path with
  | none => .error (.ofConfig (.read path.text "No such file or directory (os error 2)"))
  | some (.directory _) => .error (.ofConfig (.read path.text "Is a directory (os error 21)"))
  | some (.file content) =>
    match Config.ofBytes path.text content.bytes with
    | .ok config => .ok config
    | .error e => .error (.ofConfig e)

namespace RunOptions

/-- The workspace of a command. -/
def workspaceIn (o : RunOptions) (fs : FileSystem) : Path := o.workspace.getD fs.currentPath

/-- The settings without those that the options give. -/
def storedConfig (o : RunOptions) (fs : FileSystem) (workspace : Path) : Except Failure Config :=
  match o.config with
  | some path => Config.load fs path
  | none =>
    let path := workspace.join ⟨Config.fileName⟩
    if (fs.resolve? path).isSome then Config.load fs path else .ok {}

/-- Puts the options over settings. -/
def override (o : RunOptions) (c : Config) : Config :=
  { c with
    index :=
      { c.index with
        rootModule := o.rootModule.or c.index.rootModule
        jobs := o.jobs.getD c.index.jobs } }

/-- The settings of a command in a workspace. -/
def loadConfig (o : RunOptions) (fs : FileSystem) (workspace : Path) : Except Failure Config :=
  (o.storedConfig fs workspace).map o.override

end RunOptions

/-- The index of the files that targets name, with the report of the run. -/
def buildIndex (fs : FileSystem) (o : RunOptions) (targets : List Path) :
    Except Failure (Index × RunReport) := do
  let workspace := o.workspaceIn fs
  let config ← o.loadConfig fs workspace
  let (ix, report) ← (Indexer.ofWorkspace workspace config false).run fs targets
  pure (ix.index, report)

/-- Reads a name that a command is asked about; none of its segments may be blank. -/
def requireFqn (text : String) : Except Failure Fqn :=
  if (Text.splitDoubleColon text.toList).any fun part => Text.trim part = [] then
    .error (.invalidArguments s!"invalid FQN `{text}`: expected segments joined by `::`")
  else .ok (.parse text)

/-- The response to `Command.index`. -/
def runIndex (fs : FileSystem) (o : RunOptions) (targets : List Path) :
    Except Failure IndexRunResponse := do
  let (index, report) ← buildIndex fs o targets
  pure ⟨.ofIndex index, report.skipped⟩

/-- The response to `Command.symbol`. -/
def runSymbol (fs : FileSystem) (o : RunOptions) (fqn : String) (targets : List Path) :
    Except Failure SymbolResponse := do
  let fqn ← requireFqn fqn
  let (index, _) ← buildIndex fs o targets
  SymbolResponse.lookup index fqn

/-- The response to `Command.usages`. -/
def runUsages (fs : FileSystem) (o : RunOptions) (fqn : String) (targets : List Path) :
    Except Failure UsagesResponse := do
  let fqn ← requireFqn fqn
  let (index, _) ← buildIndex fs o targets
  UsagesResponse.lookup index fqn

/-- The response to `Command.diagnostics`. -/
def runDiagnostics (fs : FileSystem) (o : RunOptions) (targets : List Path) :
    Except Failure DiagnosticsResponse := do
  let (index, _) ← buildIndex fs o targets
  pure (.ofIndex index)

/-- The path under which a file is annotated: the one below the workspace as it is written, with
slashes for backslashes. -/
def annotatedPath (workspace file : Path) : String :=
  String.ofList ((file.relativeTo workspace).text.toList.map fun c => if c = '\\' then '/' else c)

/-- The annotated text of a file. -/
def runAnnotate (fs : FileSystem) (o : RunOptions) (file : Path) : Except Failure String := do
  let workspace := o.workspaceIn fs
  let config ← o.loadConfig fs workspace
  let full := workspace.join file
  let some content := fs.file? full | throw (.fileNotFound file.text)
  let some text := content.text? | throw (.ofIo notUtf8)
  let path := annotatedPath workspace full
  let source : SourceFile := ⟨path, config.moduleOf path, text, content.tree⟩
  match analyze ⟨config.analysis.maxPasses, false⟩ source with
  | .ok facts => pure (Annotate.annotate text facts)
  | .error e => throw (.ofAnalysis e)

/-- What a command prints. -/
def Command.run (fs : FileSystem) (o : RunOptions) : Command → Except Failure String
  | .index targets => (runIndex fs o targets).map fun r => r.toJson.document
  | .symbol fqn targets => (runSymbol fs o fqn targets).map fun r => r.toJson.document
  | .usages fqn targets => (runUsages fs o fqn targets).map fun r => r.toJson.document
  | .diagnostics targets => (runDiagnostics fs o targets).map fun r => r.toJson.document
  | .annotate file => runAnnotate fs o file

end NameAtlas
