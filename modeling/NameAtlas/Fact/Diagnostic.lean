import NameAtlas.Location

/-!
# Diagnostics

Non-fatal reports: code that the analysis does not model, broken syntax, and names that two files
declare. A `Finding` belongs to one file, a `Diagnostic` is a finding filed in an index. No
diagnostic stops an analysis.
-/

namespace NameAtlas

/-- How serious a diagnostic is. -/
inductive Severity where
  /-- Something was left out of the analysis. -/
  | warning
  /-- A remark. -/
  | info
  deriving DecidableEq, Repr, Inhabited

namespace Severity

/-- The written name. -/
def name : Severity → String
  | .warning => "warning"
  | .info => "info"

/-- Every severity. -/
def all : List Severity := [.warning, .info]

/-- The severity with a written name. -/
def ofName? (s : String) : Option Severity := all.find? fun v => v.name = s

end Severity

/-- What a diagnostic reports. -/
inductive DiagnosticCode where
  /-- A parameter of a shape that is not modeled. -/
  | unsupportedParameter
  /-- A statement that is not modeled. -/
  | unsupportedStatement
  /-- An expression that is not modeled. -/
  | unsupportedExpression
  /-- An assignment target of a shape that is not modeled. -/
  | unsupportedTarget
  /-- An annotation of a shape that is not modeled. -/
  | unsupportedHint
  /-- Code that does not parse. -/
  | syntaxError
  /-- A name that an earlier file declares too. -/
  | duplicateFqn
  deriving DecidableEq, Repr, Inhabited

namespace DiagnosticCode

/-- The written name. -/
def name : DiagnosticCode → String
  | .unsupportedParameter => "unsupported_parameter"
  | .unsupportedStatement => "unsupported_statement"
  | .unsupportedExpression => "unsupported_expression"
  | .unsupportedTarget => "unsupported_target"
  | .unsupportedHint => "unsupported_annotation"
  | .syntaxError => "syntax_error"
  | .duplicateFqn => "duplicate_fqn"

/-- Every code. -/
def all : List DiagnosticCode :=
  [.unsupportedParameter, .unsupportedStatement, .unsupportedExpression, .unsupportedTarget,
    .unsupportedHint, .syntaxError, .duplicateFqn]

/-- The code with a written name. -/
def ofName? (s : String) : Option DiagnosticCode := all.find? fun c => c.name = s

/-- The severity a code has by default: only a name declared twice is a mere remark. -/
def severity : DiagnosticCode → Severity
  | .duplicateFqn => .info
  | _ => .warning

end DiagnosticCode

/-- A diagnostic of one file. -/
structure Finding where
  /-- What is reported. -/
  code : DiagnosticCode
  /-- The text for the reader. -/
  message : String
  /-- Where it is. -/
  location : Location
  /-- How serious it is. -/
  severity : Severity
  deriving DecidableEq, Repr, Inhabited

/-- A finding with the severity of its code. -/
def Finding.ofCode (code : DiagnosticCode) (message : String) (location : Location) : Finding :=
  ⟨code, message, location, code.severity⟩

/-- A finding filed under a file of an index. -/
structure Diagnostic where
  /-- The file it belongs to. -/
  fileId : FileId
  /-- What was found there. -/
  finding : Finding
  deriving DecidableEq, Repr, Inhabited

/-- Place, code and message on one line. -/
def Diagnostic.render (d : Diagnostic) : String :=
  s!"{d.finding.location.render} {d.finding.code.name}: {d.finding.message}"

end NameAtlas
