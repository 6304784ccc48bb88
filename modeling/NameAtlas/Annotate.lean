import NameAtlas.Fact.Record
import NameAtlas.Text.Line

/-!
# Annotated sources

A source text with the facts of its analysis as comments behind the lines they belong to. Behind a
line come its findings, then its symbols, then one comment with all its references, each indented
like the line and each group in the order of the facts. Every line of the result ends with a line
feed.
-/

namespace NameAtlas.Annotate

/-- The comment for a finding. -/
def findingNote (f : Finding) : String := s!"ERROR {f.code.name}: {f.message}"

/-- The comment for a symbol; the module has none. -/
def symbolNote? (d : Declaration) : Option String :=
  let name := d.fqn.nameText
  let type := d.type.render
  match d.kind with
  | .module => none
  | .class => some s!"s {name} !{type}"
  | .function => some s!"f {name}() !{type}"
  | .parameter => some s!"p {name} {type}"
  | .variable | .attribute => some s!"v {name} {type}"

/-- What the comment for references says of one of them. -/
def referenceNote (r : Reference) : String :=
  "U\x7b " ++ r.kind.name ++ " " ++ r.target.render ++ " \x7d"

/-- The comments for the findings on a line. -/
def findingNotes (facts : FileFacts) (line : Nat) : List String :=
  (facts.findings.filter fun f => f.location.line = line).map findingNote

/-- The comments for the symbols on a line. -/
def symbolNotes (facts : FileFacts) (line : Nat) : List String :=
  (facts.declarations.filter fun d => d.location.line = line).filterMap symbolNote?

/-- The comment for the references on a line, if there are any. -/
def referenceNotes (facts : FileFacts) (line : Nat) : List String :=
  match (facts.references.filter fun r => r.location.line = line).map referenceNote with
  | [] => []
  | notes => [" ".intercalate notes]

/-- Every comment behind a line. -/
def notes (facts : FileFacts) (line : Nat) : List String :=
  findingNotes facts line ++ symbolNotes facts line ++ referenceNotes facts line

/-- A line of the source with the comments behind it, as lines. -/
def annotateLine (facts : FileFacts) (line : Nat) (text : List Char) : List String :=
  let indent := String.ofList (Text.leadingBlanks text)
  String.ofList text :: (notes facts line).map fun note => indent ++ "# " ++ note

/-- The lines of a source with their comments, the first of them having the number `line`. -/
def annotateLines (facts : FileFacts) : Nat → List (List Char) → List String
  | _, [] => []
  | line, text :: rest => annotateLine facts line text ++ annotateLines facts (line + 1) rest

/-- A source with the comments for its facts. -/
def annotate (source : String) (facts : FileFacts) : String :=
  String.join ((annotateLines facts 1 (Text.lines source.toList)).map (· ++ "\n"))

end NameAtlas.Annotate
