import NameAtlas.Python.Queue
import NameAtlas.Python.Reading

/-!
# Analysis of a file

The facts about one source file: the module is walked until its types settle and then once more,
and the log of that last walk holds the references and findings. Broken syntax is reported apart
from the walk. References and findings are put into the order of their positions, those at one
position in the order in which they were logged.
-/

namespace NameAtlas.Python

open Source

/-- A source file as the parser leaves it. -/
structure SourceFile where
  /-- The path in the workspace. -/
  path : String
  /-- The module that the file declares. -/
  module : Fqn
  /-- The text. -/
  text : String
  /-- The parse tree of the text; none if the parser gave up. -/
  tree : Option Node

/-- How a file is analyzed. -/
structure AnalysisOptions where
  /-- The largest number of walks before the last one; 0 counts as 1. -/
  passes : Nat := 8
  /-- True if the analysis is called off before it starts. -/
  cancelled : Bool := false
  deriving DecidableEq, Repr, Inhabited

/-- Why a file could not be analyzed. -/
inductive AnalysisError where
  /-- The parser gave up. -/
  | parseFailed (path : String)
  /-- The analysis was called off. -/
  | cancelled (path : String)
  deriving DecidableEq, Repr, Inhabited

namespace AnalysisError

/-- The file concerned. -/
def path : AnalysisError → String
  | .parseFailed path | .cancelled path => path

/-- The text of the error. -/
def message : AnalysisError → String
  | .parseFailed path => s!"parser produced no tree for {path}"
  | .cancelled path => s!"analysis of {path} was cancelled"

end AnalysisError

/-- True for the file names of packages. -/
def isPackagePath (path : String) : Bool :=
  "__init__.py".toList.isSuffixOf path.toList || "__init__.pyi".toList.isSuffixOf path.toList

/-- True for the file names of Python sources. -/
def isPythonPath (path : String) : Bool :=
  ".py".toList.isSuffixOf path.toList || ".pyi".toList.isSuffixOf path.toList

/-- The state after the last walk over a module. -/
def finalWalk (path : String) (module : Fqn) (m : Module) (passes : Nat) : Walk :=
  let context : ImportContext := ⟨module, isPackagePath path⟩
  Walk.visitModule context m (Walk.settle context m (max 1 passes) (Walk.start m module))

/-- The reports of broken syntax. -/
def syntaxFindings (m : Module) : List Finding :=
  m.brokenSyntax.map fun report => .ofCode .syntaxError report.1 report.2

/-- References in the order of their positions. -/
def sortReferences (references : List Reference) : List Reference :=
  references.mergeSort fun a b => a.location.startsNoLater b.location

/-- Findings in the order of their positions. -/
def sortFindings (findings : List Finding) : List Finding :=
  findings.mergeSort fun a b => a.location.startsNoLater b.location

/-- The facts about a module whose last walk ended in `w`. -/
def factsOf (path : String) (module : Fqn) (m : Module) (w : Walk) : FileFacts :=
  { path
    module
    scopes := w.scopes.scopes
    declarations := w.symbols.toDeclarations
    references := sortReferences w.references.toList
    findings := sortFindings (w.findings.toList ++ syntaxFindings m)
    inheritances := w.symbols.toInheritances }

/-- The facts about a module. -/
def analyzeModule (path : String) (module : Fqn) (m : Module) (passes : Nat) : FileFacts :=
  factsOf path module m (finalWalk path module m passes)

/-- The facts about a file. An analysis that is called off notices it at the first statement, so a
module without statements is analyzed all the same. -/
def analyze (options : AnalysisOptions) (file : SourceFile) : Except AnalysisError FileFacts :=
  match file.tree with
  | none => .error (.parseFailed file.path)
  | some tree =>
    let m := Module.ofTree (.ofString file.text) tree
    if options.cancelled && !m.body.isEmpty then .error (.cancelled file.path)
    else .ok (analyzeModule file.path file.module m options.passes)

end NameAtlas.Python
