import NameAtlas.Toml.Scalar

/-!
# Reading TOML documents

A document is a list of lines, each of them empty, a header or an assignment (`documentOf?`); the
tables that it describes are put together from these afterwards (`parse?`). Arrays and tables in
braces hold values, so the reader of values recurses on the number of levels that are still allowed;
the lists inside take the reader for one level less.
-/

namespace NameAtlas.Toml

/-- Nesting and keys have to stay below this depth. -/
def depthLimit : Nat := 80

/-- A character of a key without quotation marks. -/
def isBareKey (c : Char) : Bool := c.isAlphanum || c = '-' || c = '_'

/-- One part of a dotted key. -/
def simpleKey? (cs : List Char) : Option (String × List Char) :=
  match cs with
  | '"' :: _ | '\'' :: _ => shortString? cs
  | _ =>
    let name := cs.takeWhile isBareKey
    if name = [] then none else some (String.ofList name, cs.dropWhile isBareKey)

/-- The parts of a dotted key, with blanks around each of them. -/
def keyParts? (fuel : Nat) (cs : List Char) : Option (List String × List Char) :=
  match fuel with
  | 0 => none
  | fuel + 1 => do
    let (part, rest) ← simpleKey? (skipGaps cs)
    match skipGaps rest with
    | '.' :: rest => (keyParts? fuel rest).map fun (parts, rest) => (part :: parts, rest)
    | rest => pure ([part], rest)

/-- A key with the blanks around it. -/
def key? (cs : List Char) : Option (List String × List Char) := do
  let (parts, rest) ← keyParts? (cs.length + 1) cs
  if parts.length < depthLimit then pure (parts, rest) else none

/-- An assignment with the blanks around it, given a reader for values. -/
def assignment? (value? : List Char → Option (Value × List Char)) (cs : List Char) :
    Option (Assignment × List Char) := do
  let (path, rest) ← key? cs
  let key ← path.getLast?
  let rest ← dropChar? '=' rest
  let (value, rest) ← value? (skipGaps rest)
  pure (⟨path.dropLast, key, value⟩, skipGaps rest)

/-- The items of an array behind its opening bracket, over any number of lines. A comma may follow
the last one. -/
def items? (value? : List Char → Option (Value × List Char)) (fuel : Nat) (cs : List Char) :
    Option (List Value × List Char) :=
  match fuel with
  | 0 => none
  | fuel + 1 =>
    match skipFiller false cs with
    | ']' :: rest => some ([], rest)
    | cs => do
      let (v, rest) ← value? cs
      match skipFiller false rest with
      | ',' :: rest => (items? value? fuel rest).map fun (vs, rest) => (v :: vs, rest)
      | ']' :: rest => pure ([v], rest)
      | _ => none

/-- The assignments of a table in braces behind the first of them, or behind a comma. -/
def bracedAssignments? (value? : List Char → Option (Value × List Char)) (fuel : Nat)
    (cs : List Char) : Option (List Assignment × List Char) :=
  match fuel with
  | 0 => none
  | fuel + 1 => do
    let (a, rest) ← assignment? value? cs
    match rest with
    | ',' :: rest =>
      (bracedAssignments? value? fuel rest).map fun (as, rest) => (a :: as, rest)
    | '\x7d' :: rest => pure ([a], rest)
    | _ => none

/-- A table in braces behind the opening brace, all on one line. -/
def braced? (value? : List Char → Option (Value × List Char)) (cs : List Char) :
    Option (Value × List Char) :=
  match skipGaps cs with
  | '\x7d' :: rest => some (.table .braces [], rest)
  | cs => do
    let (as, rest) ← bracedAssignments? value? (cs.length + 1) cs
    let ms ← assignAll? [] as
    pure (.table .braces ms, rest)

/-- A value that nests at most `levels` deep. -/
def value? (levels : Nat) (cs : List Char) : Option (Value × List Char) :=
  match levels, cs with
  | levels + 1, '[' :: rest =>
    (items? (value? levels) (rest.length + 1) rest).map fun (vs, rest) => (.array vs, rest)
  | levels + 1, '\x7b' :: rest => braced? (value? levels) rest
  | _, cs => scalar? cs

/-- The rest behind the end of a line, in front of which blanks and a comment may stand. -/
def lineEnd? (cs : List Char) : Option (List Char) :=
  let cs := skipGaps cs
  let cs := match cs with
    | '#' :: rest => rest.dropWhile isPlain
    | cs => cs
  if cs = [] then some [] else newline? cs

/-- The header behind its opening bracket. -/
def header? (cs : List Char) : Option (Header × List Char) :=
  match cs with
  | '[' :: rest => do
    let (path, rest) ← key? rest
    let rest ← dropChar? ']' rest
    let rest ← dropChar? ']' rest
    pure (⟨path, true⟩, rest)
  | _ => do
    let (path, rest) ← key? cs
    let rest ← dropChar? ']' rest
    pure (⟨path, false⟩, rest)

/-- What a line of a document holds. -/
inductive Line where
  /-- Nothing, or a comment. -/
  | empty
  /-- A header. -/
  | header (header : Header)
  /-- An assignment, which may go over several lines. -/
  | assignment (assignment : Assignment)
  deriving Repr, Inhabited

/-- The line at the front of a text, without its end. -/
def line? (cs : List Char) : Option (Line × List Char) :=
  match skipGaps cs with
  | [] => some (.empty, [])
  | '[' :: rest => (header? rest).map fun (h, rest) => (.header h, rest)
  | c :: rest =>
    if c = '#' ∨ c = '\n' ∨ c = '\r' then some (.empty, c :: rest)
    else (assignment? (value? (depthLimit - 1)) (c :: rest)).map fun (a, rest) =>
      (.assignment a, rest)

/-- The lines of a text. -/
def lines? (fuel : Nat) (cs : List Char) : Option (List Line) :=
  match fuel, cs with
  | 0, _ => none
  | _, [] => some []
  | fuel + 1, cs => do
    let (line, rest) ← line? cs
    let rest ← lineEnd? rest
    (lines? fuel rest).map (line :: ·)

/-- Puts a line in front of a document. -/
def Document.prepend (line : Line) (d : Document) : Document :=
  match line with
  | .empty => d
  | .assignment a => ⟨a :: d.top, d.sections⟩
  | .header h => ⟨[], (h, d.top) :: d.sections⟩

/-- A text without the mark of byte order in front of it. -/
def dropByteOrderMark : List Char → List Char
  | '\ufeff' :: rest => rest
  | cs => cs

/-- The document in a text. -/
def documentOf? (text : String) : Option Document :=
  let cs := dropByteOrderMark text.toList
  (lines? (cs.length + 1) cs).map fun ls => ls.foldr Document.prepend ⟨[], []⟩

/-- The table that a text describes. -/
def parse? (text : String) : Option Members := documentOf? text >>= Document.members?

end NameAtlas.Toml
