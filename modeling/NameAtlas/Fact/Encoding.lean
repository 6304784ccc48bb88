import NameAtlas.Fact.Record
import NameAtlas.Json.Reading

/-!
# Facts as JSON

Every record of facts has one JSON form. `toJson` writes it and `ofJson?` reads it back, also from
the other layouts that `NameAtlas.Json.Reading` admits. A name is written as one string, which
reading splits again.
-/

namespace NameAtlas

open Json

/-- A name is one string. -/
def Fqn.toJson (f : Fqn) : Json := .str f.render

/-- Reads a name. -/
def Fqn.ofJson? (v : Json) : Option Fqn := (string? v).map Fqn.parse

/-- A kind of symbol is its written name. -/
def SymbolKind.toJson (k : SymbolKind) : Json := .str k.name

/-- Reads a kind of symbol. -/
def SymbolKind.ofJson? (v : Json) : Option SymbolKind := (variantName? v).bind ofName?

/-- A kind of scope is its written name. -/
def ScopeKind.toJson (k : ScopeKind) : Json := .str k.name

/-- Reads a kind of scope. -/
def ScopeKind.ofJson? (v : Json) : Option ScopeKind := (variantName? v).bind ofName?

/-- A kind of reference is its written name. -/
def ReferenceKind.toJson (k : ReferenceKind) : Json := .str k.name

/-- Reads a kind of reference. -/
def ReferenceKind.ofJson? (v : Json) : Option ReferenceKind := (variantName? v).bind ofName?

/-- A reason is its written name. -/
def FailureReason.toJson (r : FailureReason) : Json := .str r.name

/-- Reads a reason that stands alone. -/
def FailureReason.ofJson? (v : Json) : Option FailureReason := (variantName? v).bind ofName?

/-- Reads a reason inside a type. -/
def FailureReason.ofInnerJson? (v : Json) : Option FailureReason :=
  (innerVariantName? v).bind ofName?

/-- A code is its written name. -/
def DiagnosticCode.toJson (c : DiagnosticCode) : Json := .str c.name

/-- Reads a code. -/
def DiagnosticCode.ofJson? (v : Json) : Option DiagnosticCode := (variantName? v).bind ofName?

/-- A severity is its written name. -/
def Severity.toJson (s : Severity) : Json := .str s.name

/-- Reads a severity. -/
def Severity.ofJson? (v : Json) : Option Severity := (variantName? v).bind ofName?

/-- A file number is a number. -/
def FileId.toJson (id : FileId) : Json := .nat id.position

/-- Reads a file number. -/
def FileId.ofJson? (v : Json) : Option FileId := (nat32? v).map FileId.mk

/-- A scope number is a number. -/
def ScopeId.toJson (id : ScopeId) : Json := .nat id.position

/-- Reads a scope number. -/
def ScopeId.ofJson? (v : Json) : Option ScopeId := (nat32? v).map ScopeId.mk

/-- A span has its two ends. -/
def Span.toJson (s : Span) : Json := .obj [("start", .nat s.start), ("end", .nat s.stop)]

/-- Reads a span; its ends may stand in either order. -/
def Span.ofJson? (v : Json) : Option Span := do
  match ← record? ["start", "end"] v with
  | [some start, some stop] => pure ⟨← nat64? start, ← nat64? stop⟩
  | _ => none

/-- A location has its span, line and column. -/
def Location.toJson (l : Location) : Json :=
  .obj [("span", l.span.toJson), ("line", .nat l.line), ("col", .nat l.col)]

/-- Reads a location. -/
def Location.ofJson? (v : Json) : Option Location := do
  match ← record? ["span", "line", "col"] v with
  | [some span, some line, some col] => pure ⟨← Span.ofJson? span, ← nat32? line, ← nat32? col⟩
  | _ => none

/-- A type is tagged with its kind. -/
def BindingType.toJson : BindingType → Json
  | .resolved f => .obj [("kind", .str "resolved"), ("fqn", f.toJson)]
  | .primitive name => .obj [("kind", .str "primitive"), ("name", .str name)]
  | .error reason attempted =>
    .obj [("kind", .str "error"), ("reason", reason.toJson), ("attempted", .str attempted)]
  | .unknown => .obj [("kind", .str "unknown")]

/-- Reads a type. -/
def BindingType.ofJson? (v : Json) : Option BindingType := do
  let (tag, data) ← tagged? "kind" v
  if tag = "resolved" then
    match ← record? ["fqn"] data with
    | [some f] => pure (.resolved (← Fqn.ofJson? f))
    | _ => none
  else if tag = "primitive" then
    match ← record? ["name"] data with
    | [some name] => pure (.primitive (← string? name))
    | _ => none
  else if tag = "error" then
    match ← record? ["reason", "attempted"] data with
    | [some reason, some attempted] =>
      pure (.error (← FailureReason.ofInnerJson? reason) (← string? attempted))
    | _ => none
  else if tag = "unknown" then
    if isNoData data then pure .unknown else none
  else none

/-- A target is tagged with its status. -/
def UsageTarget.toJson : UsageTarget → Json
  | .resolved f => .obj [("status", .str "resolved"), ("fqn", f.toJson)]
  | .unresolved name => .obj [("status", .str "unresolved"), ("name", .str name)]

/-- Reads a target. -/
def UsageTarget.ofJson? (v : Json) : Option UsageTarget := do
  let (tag, data) ← tagged? "status" v
  if tag = "resolved" then
    match ← record? ["fqn"] data with
    | [some f] => pure (.resolved (← Fqn.ofJson? f))
    | _ => none
  else if tag = "unresolved" then
    match ← record? ["name"] data with
    | [some name] => pure (.unresolved (← string? name))
    | _ => none
  else none

/-- A file has its number, path, module and digest. -/
def File.toJson (f : File) : Json :=
  .obj [("file_id", f.id.toJson), ("path", .str f.path), ("module", f.module.toJson),
    ("content_hash", .str f.contentHash)]

/-- Reads a file. -/
def File.ofJson? (v : Json) : Option File := do
  match ← record? ["file_id", "path", "module", "content_hash"] v with
  | [some id, some path, some module, some contentHash] =>
    pure ⟨← FileId.ofJson? id, ← string? path, ← Fqn.ofJson? module, ← string? contentHash⟩
  | _ => none

/-- A symbol has its name, kind, type, scope, file and location. -/
def Symbol.toJson (s : Symbol) : Json :=
  .obj [("fqn", s.fqn.toJson), ("kind", s.kind.toJson), ("declared_type", s.type.toJson),
    ("declaring_scope", s.scope.toJson), ("file_id", s.file.toJson),
    ("location", s.location.toJson)]

/-- Reads a symbol. -/
def Symbol.ofJson? (v : Json) : Option Symbol := do
  match ← record? ["fqn", "kind", "declared_type", "declaring_scope", "file_id", "location"] v with
  | [some fqn, some kind, some type, some scope, some file, some location] =>
    pure ⟨← Fqn.ofJson? fqn, ← SymbolKind.ofJson? kind, ← BindingType.ofJson? type,
      ← ScopeId.ofJson? scope, ← FileId.ofJson? file, ← Location.ofJson? location⟩
  | _ => none

/-- A scope has its number, kind, owner, parent, file, span and symbols. -/
def Scope.toJson (s : Scope) : Json :=
  .obj [("scope_id", s.id.toJson), ("kind", s.kind.toJson), ("owner", s.owner.toJson),
    ("parent", ofOption ScopeId.toJson s.parent), ("file_id", s.file.toJson),
    ("span", s.span.toJson), ("symbols", ofList Fqn.toJson s.symbols)]

/-- Reads the parent of a scope, which may be `null` or absent. -/
def Scope.parentOfJson? : Option Json → Option (Option ScopeId)
  | none | some .null => some none
  | some v => (ScopeId.ofJson? v).map some

/-- Reads a scope. -/
def Scope.ofJson? (v : Json) : Option Scope := do
  match ← record? ["scope_id", "kind", "owner", "parent", "file_id", "span", "symbols"] v with
  | [some id, some kind, some owner, parent, some file, some span, some symbols] =>
    pure ⟨← ScopeId.ofJson? id, ← ScopeKind.ofJson? kind, ← Fqn.ofJson? owner,
      ← Scope.parentOfJson? parent, ← FileId.ofJson? file, ← Span.ofJson? span,
      ← list? Fqn.ofJson? symbols⟩
  | _ => none

/-- A usage has its scope, kind, target, file and location. -/
def Usage.toJson (u : Usage) : Json :=
  .obj [("use_site_scope", u.scope.toJson), ("kind", u.kind.toJson), ("target", u.target.toJson),
    ("file_id", u.file.toJson), ("location", u.location.toJson)]

/-- Reads a usage. -/
def Usage.ofJson? (v : Json) : Option Usage := do
  match ← record? ["use_site_scope", "kind", "target", "file_id", "location"] v with
  | [some scope, some kind, some target, some file, some location] =>
    pure ⟨← ScopeId.ofJson? scope, ← ReferenceKind.ofJson? kind, ← UsageTarget.ofJson? target,
      ← FileId.ofJson? file, ← Location.ofJson? location⟩
  | _ => none

/-- A finding has its code, message, location and severity. -/
def Finding.toJson (f : Finding) : Json :=
  .obj [("code", f.code.toJson), ("message", .str f.message), ("location", f.location.toJson),
    ("severity", f.severity.toJson)]

/-- Reads a finding. -/
def Finding.ofJson? (v : Json) : Option Finding := do
  match ← record? ["code", "message", "location", "severity"] v with
  | [some code, some message, some location, some severity] =>
    pure ⟨← DiagnosticCode.ofJson? code, ← string? message, ← Location.ofJson? location,
      ← Severity.ofJson? severity⟩
  | _ => none

/-- A diagnostic has its file in front of what was found. -/
def Diagnostic.toJson (d : Diagnostic) : Json :=
  .obj [("file_id", d.fileId.toJson), ("code", d.finding.code.toJson),
    ("message", .str d.finding.message), ("location", d.finding.location.toJson),
    ("severity", d.finding.severity.toJson)]

/-- Reads a diagnostic. -/
def Diagnostic.ofJson? (v : Json) : Option Diagnostic := do
  match ← record? ["file_id", "code", "message", "location", "severity"] v with
  | [some file, some code, some message, some location, some severity] =>
    pure ⟨← FileId.ofJson? file, ← DiagnosticCode.ofJson? code, ← string? message,
      ← Location.ofJson? location, ← Severity.ofJson? severity⟩
  | _ => none

end NameAtlas
