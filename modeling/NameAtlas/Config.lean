import NameAtlas.Failure
import NameAtlas.Json.Value
import NameAtlas.Toml.Parser

/-!
# Configuration

The settings of a workspace, which an optional TOML file holds. Every setting has a default, and
keys that name no setting are ignored. A section may also be written as an array, which gives its
settings in order, or as a date, which gives none of them.
-/

namespace NameAtlas

/-- How a workspace is indexed. -/
structure IndexSettings where
  /-- The module of every file; without it a file's module follows from its path. -/
  rootModule : Option String := none
  /-- The patterns of the paths to leave out. -/
  exclude : List String := []
  /-- The size in bytes beyond which a file is skipped. -/
  maxFileSize : Nat := 1024 * 1024
  /-- The number of workers, 0 for as many as the machine has. The result does not depend on it. -/
  jobs : Nat := 0
  deriving DecidableEq, Repr, Inhabited

/-- How a file is analyzed. -/
structure AnalysisSettings where
  /-- The largest number of inference passes. -/
  maxPasses : Nat := 8
  deriving DecidableEq, Repr, Inhabited

/-- The settings of a workspace. -/
structure Config where
  /-- How the workspace is indexed. -/
  index : IndexSettings := {}
  /-- How files are analyzed. -/
  analysis : AnalysisSettings := {}
  deriving DecidableEq, Repr, Inhabited

namespace Config

/-- The name of the configuration file in a workspace. -/
def fileName : String := "tugscope.toml"

/-- The values that a section gives to its settings. -/
def settings? (names : List String) : Toml.Value → Option (List (Option Toml.Value))
  | .table _ ms => some (names.map fun name => Table.lookup name ms)
  | .array items => some (names.mapIdx fun i _ => items[i]?)
  | .tables ts => some (names.mapIdx fun i _ => ts[i]?.map (.table .header))
  | .date => some (names.map fun _ => none)
  | _ => none

/-- A text. -/
def text? : Toml.Value → Option String
  | .string s => some s
  | _ => none

/-- The texts of an array. -/
def texts? : Toml.Value → Option (List String)
  | .array items => items.mapM text?
  | _ => none

/-- A number that is not negative. -/
def count? : Toml.Value → Option Nat
  | .integer n => if 0 ≤ n then some n.toNat else none
  | _ => none

/-- A setting with its default. -/
def setting? {α : Type} (read : Toml.Value → Option α) (default : α) : Option Toml.Value → Option α
  | none => some default
  | some v => read v

/-- The settings of the index section. -/
def indexSettings? (v : Toml.Value) : Option IndexSettings := do
  match ← settings? ["root_module", "exclude", "max_file_size", "jobs"] v with
  | [rootModule, exclude, maxFileSize, jobs] =>
    let standard : IndexSettings := {}
    pure
      { rootModule := ← setting? (fun v => (text? v).map some) standard.rootModule rootModule
        exclude := ← setting? texts? standard.exclude exclude
        maxFileSize := ← setting? count? standard.maxFileSize maxFileSize
        jobs := ← setting? count? standard.jobs jobs }
  | _ => none

/-- The settings of the analysis section. -/
def analysisSettings? (v : Toml.Value) : Option AnalysisSettings := do
  match ← settings? ["max_inference_passes"] v with
  | [passes] =>
    let standard : AnalysisSettings := {}
    pure { maxPasses := ← setting? count? standard.maxPasses passes }
  | _ => none

/-- The settings in a table. -/
def ofMembers? (ms : Toml.Members) : Option Config := do
  pure
    { index := ← setting? indexSettings? {} (Table.lookup "index" ms)
      analysis := ← setting? analysisSettings? {} (Table.lookup "analysis" ms) }

/-- The settings in a text. -/
def ofText? (text : String) : Option Config := Toml.parse? text >>= ofMembers?

/-- The settings in the bytes of the file at `path`. -/
def ofBytes (path : String) (bytes : ByteArray) : Except ConfigError Config :=
  match String.fromUTF8? bytes with
  | none => .error (.read path notUtf8)
  | some text =>
    match ofText? text with
    | none => .error (.parse path "not a table of settings")
    | some config => .ok config

/-- The JSON of the settings. -/
def toJson (c : Config) : Json :=
  .obj [("index", .obj [("root_module", Json.ofOption .str c.index.rootModule),
      ("exclude", Json.ofList .str c.index.exclude), ("max_file_size", .nat c.index.maxFileSize),
      ("jobs", .nat c.index.jobs)]),
    ("analysis", .obj [("max_inference_passes", .nat c.analysis.maxPasses)])]

end Config

end NameAtlas
