import NameAtlas.Fqn
import NameAtlas.Python.Analysis

/-!
# Failures

Why a command gives no result, one constructor a cause, with one text and one exit code each. The
errors of single stages (configuration, discovery, analysis, input and output) become failures of
the command here. Code that is not modeled is never a failure.
-/

namespace NameAtlas

/-- Why bytes are not read as a text. -/
def notUtf8 : String := "stream did not contain valid UTF-8"

/-- Why a configuration could not be loaded. -/
inductive ConfigError where
  /-- The file could not be read. -/
  | read (path : String) (reason : String)
  /-- The text is no configuration. -/
  | parse (path : String) (reason : String)
  deriving DecidableEq, Repr, Inhabited

/-- The text of a configuration error. -/
def ConfigError.message : ConfigError → String
  | .read path reason => s!"failed to read {path}: {reason}"
  | .parse path reason => s!"failed to parse {path}: {reason}"

/-- Why the files of a workspace could not be listed. -/
inductive DiscoveryError where
  /-- A directory or target does not exist. -/
  | rootNotFound (path : String)
  /-- An exclude pattern is malformed. -/
  | invalidPattern (pattern : String) (reason : String)
  /-- The file system failed. -/
  | io (reason : String)
  deriving DecidableEq, Repr, Inhabited

/-- The text of a discovery error. -/
def DiscoveryError.message : DiscoveryError → String
  | .rootNotFound path => s!"workspace root not found: {path}"
  | .invalidPattern pattern reason => s!"invalid exclude pattern '{pattern}': {reason}"
  | .io reason => s!"IO error: {reason}"

/-- Why a command failed. -/
inductive Failure where
  /-- The caller gave bad input. -/
  | invalidArguments (message : String)
  /-- An exclude pattern is malformed. -/
  | invalidPattern (pattern : String) (reason : String)
  /-- The configuration could not be loaded. -/
  | config (message : String)
  /-- The index has no symbol of that name. -/
  | symbolNotFound (fqn : String)
  /-- There is no such file. -/
  | fileNotFound (path : String)
  /-- A file could not be analyzed. -/
  | analysisFailed (path : String) (message : String)
  /-- The file system, or the program itself, failed. -/
  | internal (message : String)
  deriving DecidableEq, Repr, Inhabited

namespace Failure

/-- The text of a failure. -/
def message : Failure → String
  | .invalidArguments message => s!"invalid arguments: {message}"
  | .invalidPattern pattern reason =>
    "invalid arguments: " ++ (DiscoveryError.invalidPattern pattern reason).message
  | .config message => s!"configuration error: {message}"
  | .symbolNotFound fqn => s!"no symbol found for {fqn}"
  | .fileNotFound path => s!"file not found: {path}"
  | .analysisFailed path message => s!"analysis of {path} failed: {message}"
  | .internal message => s!"internal error: {message}"

/-- The exit code of a failure: 2 for bad input, 3 for something that is not there, and 10 for
everything else. -/
def code : Failure → Nat
  | .invalidArguments _ | .invalidPattern _ _ | .config _ => 2
  | .symbolNotFound _ | .fileNotFound _ => 3
  | .analysisFailed _ _ | .internal _ => 10

/-- No symbol has a name. -/
def ofMissingSymbol (fqn : Fqn) : Failure := .symbolNotFound fqn.render

/-- A file could not be read or written. -/
def ofIo (reason : String) : Failure := .internal s!"IO error: {reason}"

/-- A configuration could not be loaded. -/
def ofConfig (e : ConfigError) : Failure := .config e.message

/-- The files could not be listed. -/
def ofDiscovery : DiscoveryError → Failure
  | .rootNotFound path => .fileNotFound path
  | .invalidPattern pattern reason => .invalidPattern pattern reason
  | .io reason => .internal (DiscoveryError.io reason).message

/-- A file could not be analyzed. -/
def ofAnalysis (e : Python.AnalysisError) : Failure := .analysisFailed e.path e.message

end Failure

end NameAtlas
