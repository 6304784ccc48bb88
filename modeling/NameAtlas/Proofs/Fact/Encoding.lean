import NameAtlas.Fact.Encoding
import NameAtlas.Proofs.Fqn

/-!
# Facts read back from JSON

A fact is `Portable` if its numbers fit into their widths, its spans end where they start or behind
it, and the segments of its names are words without colons. Reading undoes writing for portable
facts, whatever the constructors of the types and targets in them, so that no two of them are
written alike (`facts_lossless`). Each record goes by its fields: what its object gives for the names
of its fields is found by computing, and each field is read back by the lemma of its own type.
-/

namespace NameAtlas

open Json

/-! ### Losslessness -/

/-- A written form that keeps the values with a property apart. -/
structure Lossless {α : Type} (write : α → Json) (read? : Json → Option α) (P : α → Prop) :
    Prop where
  /-- Reading undoes writing. -/
  read_write : ∀ a, P a → read? (write a) = some a
  /-- Different values have different forms. -/
  write_ne : ∀ a b, P a → P b → a ≠ b → write a ≠ write b

/-- Values that are read back from their forms have different ones. -/
theorem Lossless.of_read_write {α : Type} {write : α → Json} {read? : Json → Option α}
    {P : α → Prop} (h : ∀ a, P a → read? (write a) = some a) : Lossless write read? P := by
  refine ⟨h, fun a b ha hb hne hsame => hne ?_⟩
  have hread : some a = some b := by
    calc some a = read? (write a) := (h a ha).symm
      _ = read? (write b) := by rw [hsame]
      _ = some b := h b hb
  exact Option.some.inj hread

/-! ### Numbers and lists -/

/-- A number under the limit is read as itself. -/
theorem below?_nat {limit n : Nat} (h : n < limit) : below? limit (.nat n) = some n := if_pos h

/-- A list is read back if its members are. -/
theorem list?_ofList {α : Type} {write : α → Json} {read? : Json → Option α} {xs : List α}
    (h : ∀ a ∈ xs, read? (write a) = some a) : list? read? (ofList write xs) = some xs := by
  rw [ofList, list?]
  induction xs with
  | nil => rfl
  | cons a xs ih =>
    have ha := h a List.mem_cons_self
    have hrest := ih fun b hb => h b (List.mem_cons_of_mem a hb)
    rw [List.map_cons, readAll, ha, hrest]
    rfl

/-! ### Names and kinds -/

/-- A plain name is read back from its text. -/
theorem Fqn.Plain.ofJson?_toJson {f : Fqn} (h : f.Plain) : Fqn.ofJson? f.toJson = some f :=
  congrArg some h.legible.parse_render

/-- The kind of a symbol is read back. -/
theorem SymbolKind.ofJson?_toJson (k : SymbolKind) : ofJson? k.toJson = some k :=
  ofName?_eq_some_iff.2 rfl

/-- The kind of a scope is read back. -/
theorem ScopeKind.ofJson?_toJson (k : ScopeKind) : ofJson? k.toJson = some k :=
  ofName?_eq_some_iff.2 rfl

/-- The kind of a reference is read back. -/
theorem ReferenceKind.ofJson?_toJson (k : ReferenceKind) : ofJson? k.toJson = some k :=
  ofName?_eq_some_iff.2 rfl

/-- The reason of a failure is read back. -/
theorem FailureReason.ofInnerJson?_toJson (r : FailureReason) : ofInnerJson? r.toJson = some r :=
  ofName?_eq_some_iff.2 rfl

/-- The code of a finding is read back. -/
theorem DiagnosticCode.ofJson?_toJson (c : DiagnosticCode) : ofJson? c.toJson = some c := by
  cases c <;> rfl

/-- The severity of a finding is read back. -/
theorem Severity.ofJson?_toJson (s : Severity) : ofJson? s.toJson = some s := by
  cases s <;> rfl

/-! ### Numbers of files and scopes, spans and locations -/

/-- A file number of 32 bits. -/
def FileId.Portable (id : FileId) : Prop := id.position < UInt32.size

/-- A scope number of 32 bits. -/
def ScopeId.Portable (id : ScopeId) : Prop := id.position < UInt32.size

instance (id : FileId) : Decidable id.Portable :=
  inferInstanceAs (Decidable (id.position < UInt32.size))

instance (id : ScopeId) : Decidable id.Portable :=
  inferInstanceAs (Decidable (id.position < UInt32.size))

/-- A span of 64-bit offsets that does not end before it starts. -/
structure Span.Portable (s : Span) : Prop where
  /-- The span does not end before it starts. -/
  start_le_stop : s.start ≤ s.stop
  /-- Its end has 64 bits, and so has its start. -/
  stop_lt : s.stop < UInt64.size

/-- A location with such a span, and a line and a column of 32 bits. -/
structure Location.Portable (l : Location) : Prop where
  /-- The span is portable. -/
  span : l.span.Portable
  /-- The line has 32 bits. -/
  line_lt : l.line < UInt32.size
  /-- The column has 32 bits. -/
  col_lt : l.col < UInt32.size

/-- The number of a file is read back. -/
theorem FileId.Portable.ofJson?_toJson {id : FileId} (h : id.Portable) :
    FileId.ofJson? id.toJson = some id := by
  rw [FileId.ofJson?, FileId.toJson, nat32?, below?_nat h]
  rfl

/-- The number of a scope is read back. -/
theorem ScopeId.Portable.ofJson?_toJson {id : ScopeId} (h : id.Portable) :
    ScopeId.ofJson? id.toJson = some id := by
  rw [ScopeId.ofJson?, ScopeId.toJson, nat32?, below?_nat h]
  rfl

/-- A span is read back. -/
theorem Span.Portable.ofJson?_toJson {s : Span} (h : s.Portable) :
    Span.ofJson? s.toJson = some s := by
  have hfields : record? ["start", "end"] s.toJson = some [some (.nat s.start), some (.nat s.stop)] :=
    rfl
  have hstart : s.start < UInt64.size := Nat.lt_of_le_of_lt h.start_le_stop h.stop_lt
  rw [Span.ofJson?, hfields]
  simp [nat64?, below?_nat hstart, below?_nat h.stop_lt]

/-- A location is read back. -/
theorem Location.Portable.ofJson?_toJson {l : Location} (h : l.Portable) :
    Location.ofJson? l.toJson = some l := by
  have hfields : record? ["span", "line", "col"] l.toJson =
      some [some l.span.toJson, some (.nat l.line), some (.nat l.col)] := rfl
  rw [Location.ofJson?, hfields]
  simp [nat32?, h.span.ofJson?_toJson, below?_nat h.line_lt, below?_nat h.col_lt]

/-! ### Types and targets -/

/-- A type that names its symbol by a plain name, if it is one. -/
def BindingType.Portable (t : BindingType) : Prop := ∀ f ∈ t.fqn?, f.Plain

/-- A target that names its symbol by a plain name, if it is resolved. -/
def UsageTarget.Portable (t : UsageTarget) : Prop := ∀ f ∈ t.fqn?, f.Plain

/-- A type is read back. -/
theorem BindingType.Portable.ofJson?_toJson {t : BindingType} (h : t.Portable) :
    BindingType.ofJson? t.toJson = some t := by
  -- The tag tells the case, and the members of the tagged object are those of the case.
  cases t with
  | resolved f =>
    have htag : tagged? "kind" (BindingType.resolved f).toJson =
        some ("resolved", .obj [("fqn", f.toJson)]) := rfl
    have hfields : record? ["fqn"] (.obj [("fqn", f.toJson)]) = some [some f.toJson] := rfl
    rw [BindingType.ofJson?, htag]
    simp [hfields, (h f rfl).ofJson?_toJson]
  | primitive name =>
    have htag : tagged? "kind" (BindingType.primitive name).toJson =
        some ("primitive", .obj [("name", .str name)]) := rfl
    have hfields : record? ["name"] (.obj [("name", .str name)]) = some [some (.str name)] := rfl
    rw [BindingType.ofJson?, htag]
    simp [hfields, string?]
  | error reason attempted =>
    have htag : tagged? "kind" (BindingType.error reason attempted).toJson =
        some ("error", .obj [("reason", reason.toJson), ("attempted", .str attempted)]) := rfl
    have hfields : record? ["reason", "attempted"]
        (.obj [("reason", reason.toJson), ("attempted", .str attempted)]) =
          some [some reason.toJson, some (.str attempted)] := rfl
    rw [BindingType.ofJson?, htag]
    simp [hfields, string?, reason.ofInnerJson?_toJson]
  | unknown => rfl

/-- The target of a reference is read back. -/
theorem UsageTarget.Portable.ofJson?_toJson {t : UsageTarget} (h : t.Portable) :
    UsageTarget.ofJson? t.toJson = some t := by
  -- The tag tells the case, as it does for types.
  cases t with
  | resolved f =>
    have htag : tagged? "status" (UsageTarget.resolved f).toJson =
        some ("resolved", .obj [("fqn", f.toJson)]) := rfl
    have hfields : record? ["fqn"] (.obj [("fqn", f.toJson)]) = some [some f.toJson] := rfl
    rw [UsageTarget.ofJson?, htag]
    simp [hfields, (h f rfl).ofJson?_toJson]
  | unresolved name =>
    have htag : tagged? "status" (UsageTarget.unresolved name).toJson =
        some ("unresolved", .obj [("name", .str name)]) := rfl
    have hfields : record? ["name"] (.obj [("name", .str name)]) = some [some (.str name)] := rfl
    rw [UsageTarget.ofJson?, htag]
    simp [hfields, string?]

/-! ### Records -/

/-- A file with a plain module name. -/
structure File.Portable (f : File) : Prop where
  /-- The number is portable. -/
  id : f.id.Portable
  /-- The module has a plain name. -/
  module : f.module.Plain

/-- A symbol whose parts are portable. -/
structure Symbol.Portable (s : Symbol) : Prop where
  /-- The symbol has a plain name. -/
  fqn : s.fqn.Plain
  /-- The type is portable. -/
  type : s.type.Portable
  /-- The scope number is portable. -/
  scope : s.scope.Portable
  /-- The file number is portable. -/
  file : s.file.Portable
  /-- The location is portable. -/
  location : s.location.Portable

/-- A scope whose parts are portable. -/
structure Scope.Portable (s : Scope) : Prop where
  /-- The number is portable. -/
  id : s.id.Portable
  /-- The owner has a plain name. -/
  owner : s.owner.Plain
  /-- The number of the parent is portable, if there is one. -/
  parent : ∀ p ∈ s.parent, p.Portable
  /-- The file number is portable. -/
  file : s.file.Portable
  /-- The span is portable. -/
  span : s.span.Portable
  /-- The symbols have plain names. -/
  symbols : ∀ f ∈ s.symbols, f.Plain

/-- A reference whose parts are portable. -/
structure Usage.Portable (u : Usage) : Prop where
  /-- The scope number is portable. -/
  scope : u.scope.Portable
  /-- The target is portable. -/
  target : u.target.Portable
  /-- The file number is portable. -/
  file : u.file.Portable
  /-- The location is portable. -/
  location : u.location.Portable

/-- A diagnostic whose parts are portable. -/
structure Diagnostic.Portable (d : Diagnostic) : Prop where
  /-- The file number is portable. -/
  fileId : d.fileId.Portable
  /-- The location is portable. -/
  location : d.finding.location.Portable

/-- A file is read back. -/
theorem File.Portable.ofJson?_toJson {f : File} (h : f.Portable) :
    File.ofJson? f.toJson = some f := by
  have hfields : record? ["file_id", "path", "module", "content_hash"] f.toJson =
      some [some f.id.toJson, some (.str f.path), some f.module.toJson,
        some (.str f.contentHash)] := rfl
  rw [File.ofJson?, hfields]
  simp [string?, h.id.ofJson?_toJson, h.module.ofJson?_toJson]

/-- A symbol is read back. -/
theorem Symbol.Portable.ofJson?_toJson {s : Symbol} (h : s.Portable) :
    Symbol.ofJson? s.toJson = some s := by
  have hfields : record? ["fqn", "kind", "declared_type", "declaring_scope", "file_id", "location"]
      s.toJson = some [some s.fqn.toJson, some s.kind.toJson, some s.type.toJson,
        some s.scope.toJson, some s.file.toJson, some s.location.toJson] := rfl
  rw [Symbol.ofJson?, hfields]
  simp [h.fqn.ofJson?_toJson, s.kind.ofJson?_toJson, h.type.ofJson?_toJson,
    h.scope.ofJson?_toJson, h.file.ofJson?_toJson, h.location.ofJson?_toJson]

/-- The parent of a scope is read back, also where there is none. -/
theorem Scope.parentOfJson?_ofOption {parent : Option ScopeId} (h : ∀ p ∈ parent, p.Portable) :
    Scope.parentOfJson? (some (ofOption ScopeId.toJson parent)) = some parent := by
  cases parent with
  | none => rfl
  | some p => exact congrArg (Option.map some) (h p rfl).ofJson?_toJson

/-- A scope is read back. -/
theorem Scope.Portable.ofJson?_toJson {s : Scope} (h : s.Portable) :
    Scope.ofJson? s.toJson = some s := by
  have hfields :
      record? ["scope_id", "kind", "owner", "parent", "file_id", "span", "symbols"] s.toJson =
        some [some s.id.toJson, some s.kind.toJson, some s.owner.toJson,
          some (ofOption ScopeId.toJson s.parent), some s.file.toJson, some s.span.toJson,
          some (ofList Fqn.toJson s.symbols)] := rfl
  have hsymbols : list? Fqn.ofJson? (ofList Fqn.toJson s.symbols) = some s.symbols :=
    list?_ofList fun f hf => (h.symbols f hf).ofJson?_toJson
  rw [Scope.ofJson?, hfields]
  simp [h.id.ofJson?_toJson, s.kind.ofJson?_toJson, h.owner.ofJson?_toJson,
    Scope.parentOfJson?_ofOption h.parent, h.file.ofJson?_toJson, h.span.ofJson?_toJson, hsymbols]

/-- A reference is read back. -/
theorem Usage.Portable.ofJson?_toJson {u : Usage} (h : u.Portable) :
    Usage.ofJson? u.toJson = some u := by
  have hfields : record? ["use_site_scope", "kind", "target", "file_id", "location"] u.toJson =
      some [some u.scope.toJson, some u.kind.toJson, some u.target.toJson, some u.file.toJson,
        some u.location.toJson] := rfl
  rw [Usage.ofJson?, hfields]
  simp [h.scope.ofJson?_toJson, u.kind.ofJson?_toJson, h.target.ofJson?_toJson,
    h.file.ofJson?_toJson, h.location.ofJson?_toJson]

/-- A finding is read back. -/
theorem Diagnostic.Portable.ofJson?_toJson {d : Diagnostic} (h : d.Portable) :
    Diagnostic.ofJson? d.toJson = some d := by
  have hfields : record? ["file_id", "code", "message", "location", "severity"] d.toJson =
      some [some d.fileId.toJson, some d.finding.code.toJson, some (.str d.finding.message),
        some d.finding.location.toJson, some d.finding.severity.toJson] := rfl
  rw [Diagnostic.ofJson?, hfields]
  simp [string?, h.fileId.ofJson?_toJson, d.finding.code.ofJson?_toJson,
    h.location.ofJson?_toJson, d.finding.severity.ofJson?_toJson]

/-- Every kind of fact survives being written as JSON and read back, and different facts of one kind
are written differently. -/
theorem facts_lossless :
    Lossless BindingType.toJson BindingType.ofJson? BindingType.Portable ∧
      Lossless UsageTarget.toJson UsageTarget.ofJson? UsageTarget.Portable ∧
      Lossless File.toJson File.ofJson? File.Portable ∧
      Lossless Symbol.toJson Symbol.ofJson? Symbol.Portable ∧
      Lossless Scope.toJson Scope.ofJson? Scope.Portable ∧
      Lossless Usage.toJson Usage.ofJson? Usage.Portable ∧
      Lossless Diagnostic.toJson Diagnostic.ofJson? Diagnostic.Portable :=
  ⟨.of_read_write fun _ h => h.ofJson?_toJson, .of_read_write fun _ h => h.ofJson?_toJson,
    .of_read_write fun _ h => h.ofJson?_toJson, .of_read_write fun _ h => h.ofJson?_toJson,
    .of_read_write fun _ h => h.ofJson?_toJson, .of_read_write fun _ h => h.ofJson?_toJson,
    .of_read_write fun _ h => h.ofJson?_toJson⟩

/-- A scope of the empty name that holds a name of two segments and the empty one comes back, and a
type that names nothing is not written like one that names a module. -/
theorem facts_lossless_scope :
    let s : Scope :=
      ⟨⟨3⟩, .function, .empty, some ⟨0⟩, ⟨1⟩, ⟨8, 8⟩, [⟨["app", "load file"]⟩, .empty]⟩
    s.Portable ∧ Scope.ofJson? s.toJson = some s ∧
      (BindingType.resolved .empty).Portable ∧ (BindingType.resolved (.root "app")).Portable ∧
      (BindingType.resolved .empty).toJson ≠ (BindingType.resolved (.root "app")).toJson := by
  intro s
  obtain ⟨htypes, -, -, -, hscopes, -, -⟩ := facts_lossless
  -- The scope meets its conditions field by field, and each of them is evaluated.
  have hs : s.Portable := by
    refine ⟨?_, ?_, ?_, ?_, ⟨?_, ?_⟩, ?_⟩ <;> decide
  have hempty : (BindingType.resolved .empty).Portable := by
    rintro f ⟨⟩
    decide
  have hroot : (BindingType.resolved (.root "app")).Portable := by
    rintro f ⟨⟩
    decide
  exact ⟨hs, hscopes.read_write s hs, hempty, hroot, htypes.write_ne _ _ hempty hroot (by decide)⟩

end NameAtlas
