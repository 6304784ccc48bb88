import NameAtlas.Fact.Encoding
import NameAtlas.Failure
import NameAtlas.Index.Query

/-!
# Responses

The answers of the commands, and their JSON. Every response starts with its status and the version
of its layout. The records in it are flat: they carry the path, line and column of their place, so
that a reader needs no numbers of files and scopes.
-/

namespace NameAtlas

open Json

/-- The version of the layout of all responses. -/
def schemaVersion : String := "1"

/-- The members in front of every response. -/
def responseHead (status : String) : List (String × Json) :=
  [("status", .str status), ("schema_version", .str schemaVersion)]

/-- A place in a file of the workspace. -/
structure Place where
  /-- The path of the file, empty if the index does not have it. -/
  file : String
  /-- Where in the file. -/
  location : Location
  deriving DecidableEq, Repr, Inhabited

/-- The JSON of a place. -/
def Place.toJson (p : Place) : Json :=
  .obj [("file", .str p.file), ("line", .nat p.location.line), ("col", .nat p.location.col),
    ("byte_start", .nat p.location.span.start), ("byte_end", .nat p.location.span.stop)]

/-- The place of a location in a file of an index. -/
def Index.place (index : Index) (id : FileId) (location : Location) : Place :=
  ⟨((index.file? id).map File.path).getD "", location⟩

/-- What a response says about a symbol. -/
structure SymbolReport where
  /-- The name. -/
  fqn : Fqn
  /-- What it is. -/
  kind : SymbolKind
  /-- Its type. -/
  type : BindingType
  /-- Where it is declared. -/
  place : Place
  deriving DecidableEq, Repr, Inhabited

/-- The JSON of a symbol, with the display form of its type. -/
def SymbolReport.toJson (r : SymbolReport) : Json :=
  .obj [("fqn", r.fqn.toJson), ("kind", r.kind.toJson), ("declared_type", r.type.toJson),
    ("type_display", .str r.type.render), ("location", r.place.toJson)]

/-- The report of a symbol of an index. -/
def Index.symbolReport (index : Index) (s : Symbol) : SymbolReport :=
  ⟨s.fqn, s.kind, s.type, index.place s.file s.location⟩

/-- What a response says about a reference. -/
structure UsageReport where
  /-- How it is written. -/
  kind : ReferenceKind
  /-- What it points at. -/
  target : UsageTarget
  /-- The owner of the scope it stands in. -/
  owner : Option Fqn
  /-- Where it stands. -/
  place : Place
  deriving DecidableEq, Repr, Inhabited

/-- The JSON of a reference. -/
def UsageReport.toJson (r : UsageReport) : Json :=
  .obj [("kind", r.kind.toJson), ("target", r.target.toJson),
    ("scope", ofOption Fqn.toJson r.owner), ("location", r.place.toJson)]

/-- The report of a reference of an index. -/
def Index.usageReport (index : Index) (u : Usage) : UsageReport :=
  ⟨u.kind, u.target, (index.scope? u.scope).map Scope.owner, index.place u.file u.location⟩

/-- What a response says about a diagnostic. -/
structure DiagnosticReport where
  /-- What is reported. -/
  code : DiagnosticCode
  /-- How serious it is. -/
  severity : Severity
  /-- The text for the reader. -/
  message : String
  /-- Where it is. -/
  place : Place
  deriving DecidableEq, Repr, Inhabited

/-- The JSON of a diagnostic. -/
def DiagnosticReport.toJson (r : DiagnosticReport) : Json :=
  .obj [("code", r.code.toJson), ("severity", r.severity.toJson), ("message", .str r.message),
    ("location", r.place.toJson)]

/-- The report of a diagnostic of an index. -/
def Index.diagnosticReport (index : Index) (d : Diagnostic) : DiagnosticReport :=
  ⟨d.finding.code, d.finding.severity, d.finding.message, index.place d.fileId d.finding.location⟩

/-- The JSON of the counts of an index. -/
def Index.Summary.toJson (s : Index.Summary) : Json :=
  .obj [("files", .nat s.files), ("scopes", .nat s.scopes), ("symbols", .nat s.symbols),
    ("usages", .nat s.usages), ("resolved_usages", .nat s.resolved),
    ("unresolved_usages", .nat s.unresolved), ("diagnostics", .nat s.diagnostics)]

/-- Everything in an index. -/
structure IndexResponse where
  /-- The files, in index order. -/
  files : List File
  /-- The symbols by name. -/
  symbols : List SymbolReport
  /-- The references, in index order. -/
  usages : List UsageReport
  /-- The diagnostics, in index order. -/
  diagnostics : List DiagnosticReport
  /-- The counts. -/
  summary : Index.Summary
  deriving Inhabited

namespace IndexResponse

/-- The response for an index. -/
def ofIndex (index : Index) : IndexResponse :=
  { files := index.files
    symbols := index.allSymbols.map index.symbolReport
    usages := index.usages.map index.usageReport
    diagnostics := index.diagnostics.map index.diagnosticReport
    summary := index.summary }

/-- The JSON of a file in a response. -/
def fileJson (f : File) : Json :=
  .obj [("path", .str f.path), ("module", f.module.toJson), ("content_hash", .str f.contentHash)]

/-- The members of the response. -/
def members (r : IndexResponse) : List (String × Json) :=
  responseHead "ok" ++
    [("files", ofList fileJson r.files), ("symbols", ofList SymbolReport.toJson r.symbols),
      ("usages", ofList UsageReport.toJson r.usages),
      ("diagnostics", ofList DiagnosticReport.toJson r.diagnostics),
      ("summary", r.summary.toJson)]

/-- The JSON of the response. -/
def toJson (r : IndexResponse) : Json := .obj r.members

end IndexResponse

/-- One symbol with what is declared in it and what refers to it. -/
structure SymbolResponse where
  /-- The symbol. -/
  symbol : SymbolReport
  /-- The symbols of the scopes that it owns in its file. -/
  members : List SymbolReport
  /-- The references to it. -/
  usages : List UsageReport
  deriving Inhabited

namespace SymbolResponse

/-- The symbols of the scopes that a symbol owns in its file. -/
def membersOf (index : Index) (s : Symbol) : List Symbol :=
  ((index.scopesOfFile s.file).filter fun scope => scope.owner = s.fqn).flatMap fun scope =>
    index.symbolsInScope scope.id

/-- The response for a name, which has to be declared. -/
def lookup (index : Index) (fqn : Fqn) : Except Failure SymbolResponse :=
  match index.symbol? fqn with
  | some s =>
    .ok ⟨index.symbolReport s, (membersOf index s).map index.symbolReport,
      (index.usagesOf fqn).map index.usageReport⟩
  | none => .error (.ofMissingSymbol fqn)

/-- The JSON of the response. -/
def toJson (r : SymbolResponse) : Json :=
  .obj (responseHead "ok" ++
    [("symbol", r.symbol.toJson), ("members", ofList SymbolReport.toJson r.members),
      ("usages", ofList UsageReport.toJson r.usages)])

end SymbolResponse

/-- The references to a name. -/
structure UsagesResponse where
  /-- The name. -/
  fqn : Fqn
  /-- The references to it. -/
  usages : List UsageReport
  deriving Inhabited

namespace UsagesResponse

/-- The response for a name, which has to be declared or referred to: a built-in has references and
no declaration. -/
def lookup (index : Index) (fqn : Fqn) : Except Failure UsagesResponse :=
  let usages := index.usagesOf fqn
  if usages.isEmpty && (index.symbol? fqn).isNone then .error (.ofMissingSymbol fqn)
  else .ok ⟨fqn, usages.map index.usageReport⟩

/-- The JSON of the response. -/
def toJson (r : UsagesResponse) : Json :=
  .obj (responseHead "ok" ++
    [("fqn", r.fqn.toJson), ("usages", ofList UsageReport.toJson r.usages)])

end UsagesResponse

/-- The diagnostics of one file. -/
structure FileDiagnostics where
  /-- The path of the file. -/
  path : String
  /-- Its diagnostics in order. -/
  diagnostics : List DiagnosticReport
  deriving Inhabited

/-- The diagnostics of an index by file. -/
structure DiagnosticsResponse where
  /-- The files that have diagnostics, in index order. -/
  files : List FileDiagnostics
  /-- The number of all diagnostics. -/
  total : Nat
  deriving Inhabited

namespace DiagnosticsResponse

/-- The diagnostics of a file, unless it has none. -/
def ofFile? (index : Index) (f : File) : Option FileDiagnostics :=
  match index.diagnosticsOfFile f.id with
  | [] => none
  | ds => some ⟨f.path, ds.map index.diagnosticReport⟩

/-- The response for an index. -/
def ofIndex (index : Index) : DiagnosticsResponse :=
  ⟨index.files.filterMap (ofFile? index), index.diagnostics.length⟩

/-- The JSON of the diagnostics of one file. -/
def fileJson (f : FileDiagnostics) : Json :=
  .obj [("path", .str f.path), ("diagnostics", ofList DiagnosticReport.toJson f.diagnostics)]

/-- The JSON of the response. -/
def toJson (r : DiagnosticsResponse) : Json :=
  .obj (responseHead "ok" ++ [("files", ofList fileJson r.files), ("total", .nat r.total)])

end DiagnosticsResponse

/-- The JSON of a failure. -/
def Failure.toJson (f : Failure) : Json :=
  .obj (responseHead "error" ++
    [("error", .obj [("code", .nat f.code), ("message", .str f.message)])])

end NameAtlas
