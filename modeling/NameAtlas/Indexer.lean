import NameAtlas.Config
import NameAtlas.Discovery
import NameAtlas.Index.Query
import NameAtlas.ModuleName
import NameAtlas.Sha256

/-!
# Indexers

An indexer keeps the facts of the files of one workspace. Each run looks at some of the files: what
has the content of an earlier run is left alone, what is new or changed is analyzed, and what cannot
be analyzed is reported as skipped. A run either reports on every file that it looked at or fails
and changes nothing.
-/

namespace NameAtlas

open Python

/-- Why a file is skipped. -/
inductive SkipReason where
  /-- It is no Python source. -/
  | unsupported
  /-- It is larger than the limit. -/
  | tooLarge (size limit : Nat)
  /-- Its bytes are no text. -/
  | unreadable (message : String)
  /-- The analysis was called off. -/
  | cancelled
  /-- The parser gave up. -/
  | parseFailed
  deriving DecidableEq, Repr, Inhabited

/-- The JSON members of a reason. -/
def SkipReason.members : SkipReason → List (String × Json)
  | .unsupported => [("reason", .str "unsupported")]
  | .tooLarge size limit =>
    [("reason", .str "too_large"), ("size_bytes", .nat size), ("limit", .nat limit)]
  | .unreadable message => [("reason", .str "unreadable"), ("message", .str message)]
  | .cancelled => [("reason", .str "cancelled")]
  | .parseFailed => [("reason", .str "parse_failed")]

/-- A file that is skipped. -/
structure SkippedFile where
  /-- The path in the workspace. -/
  path : String
  /-- Why it is skipped. -/
  reason : SkipReason
  deriving DecidableEq, Repr, Inhabited

/-- The JSON of a skipped file. -/
def SkippedFile.toJson (f : SkippedFile) : Json := .obj (("path", .str f.path) :: f.reason.members)

/-- What a run did. -/
structure RunReport where
  /-- How many files were analyzed. -/
  analyzed : Nat
  /-- How many files had not changed. -/
  unchanged : Nat
  /-- The files that were skipped, in the order in which they were found. -/
  skipped : List SkippedFile
  deriving DecidableEq, Repr, Inhabited

/-- The JSON of a report. -/
def RunReport.toJson (r : RunReport) : Json :=
  .obj [("analyzed", .nat r.analyzed), ("unchanged", .nat r.unchanged),
    ("skipped", Json.ofList SkippedFile.toJson r.skipped)]

/-- What becomes of a file in a run. -/
inductive Outcome where
  /-- It is analyzed. -/
  | analyzed (facts : FileFacts) (contentHash : String)
  /-- Its content is known. -/
  | unchanged
  /-- It is skipped. -/
  | skipped (reason : SkipReason)
  deriving DecidableEq, Repr, Inhabited

/-- The facts of a workspace with the settings by which they are collected. -/
structure Indexer where
  /-- The workspace. -/
  workspace : Path
  /-- The settings. -/
  config : Config
  /-- True if every analysis is called off. -/
  cancelled : Bool
  /-- The facts. -/
  store : Store
  deriving Inhabited

/-- The module of the file at a path under some settings. -/
def Config.moduleOf (c : Config) (path : String) : Fqn :=
  match c.index.rootModule with
  | some root => .parse root
  | none => moduleOfPath path

namespace Indexer

/-- An indexer without facts. -/
def ofWorkspace (workspace : Path) (config : Config) (cancelled : Bool) : Indexer :=
  ⟨workspace, config, cancelled, .empty⟩

/-- The module of the file at a path. -/
def moduleOf (ix : Indexer) (path : String) : Fqn := ix.config.moduleOf path

/-- How the indexer analyzes files. -/
def analysisOptions (ix : Indexer) : AnalysisOptions := ⟨ix.config.analysis.maxPasses, ix.cancelled⟩

/-- What becomes of a file. -/
def outcome (ix : Indexer) (f : Discovered) : Outcome :=
  if !isPythonPath f.path then .skipped .unsupported
  else if ix.config.index.maxFileSize < f.content.size then
    .skipped (.tooLarge f.content.size ix.config.index.maxFileSize)
  else
    match f.content.text? with
    | none => .skipped (.unreadable notUtf8)
    | some text =>
      -- Only what was analyzed under this path before counts as known.
      let hash := Sha256.digest f.content.bytes.toList
      if ix.store.contentHash? f.path = some hash then .unchanged
      else
        match analyze ix.analysisOptions ⟨f.path, ix.moduleOf f.path, text, f.content.tree⟩ with
        | .ok facts => .analyzed facts hash
        | .error (.cancelled _) => .skipped .cancelled
        | .error (.parseFailed _) => .skipped .parseFailed

/-- The store after an outcome. -/
def record (store : Store) : Outcome → Store
  | .analyzed facts hash => store.upsert facts hash
  | _ => store

/-- The report on files with their outcomes. -/
def report (outcomes : List (Discovered × Outcome)) : RunReport :=
  { analyzed := outcomes.countP fun o => o.2 matches .analyzed _ _
    unchanged := outcomes.countP fun o => o.2 matches .unchanged
    skipped := outcomes.filterMap fun o =>
      match o.2 with
      | .skipped reason => some ⟨o.1.path, reason⟩
      | _ => none }

/-- Looks at the files that targets name, or at all files if there are no targets. -/
def run (ix : Indexer) (fs : FileSystem) (targets : List Path) :
    Except Failure (Indexer × RunReport) :=
  match fs.discover ix.workspace targets ix.config.index.exclude isPythonPath with
  | .error e => .error (.ofDiscovery e)
  | .ok files =>
    let outcomes := files.map fun f => (f, ix.outcome f)
    .ok ({ ix with store := (outcomes.map Prod.snd).foldl record ix.store }, report outcomes)

/-- Drops the facts of a path. -/
def remove (ix : Indexer) (path : String) : Indexer := { ix with store := ix.store.remove path }

/-- The index of the facts. -/
def index (ix : Indexer) : Index := ix.store.index

end Indexer

end NameAtlas
