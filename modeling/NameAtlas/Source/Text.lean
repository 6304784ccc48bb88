import NameAtlas.Location

/-!
# Source texts

The text of a source file as bytes, with the offsets at which its lines start. Positions in a parse
tree are byte offsets; this module turns them into texts, lines and columns.
-/

namespace NameAtlas.Source

/-- A source text. -/
structure SourceText where
  /-- The text in UTF-8. -/
  bytes : ByteArray
  /-- The offsets at which lines start, in order: 0, and every offset behind a line feed. -/
  lineStarts : List Nat

namespace SourceText

/-- The offsets behind the line feeds of a text whose first byte has offset `i`. -/
def startsBehindFeeds (i : Nat) : List UInt8 → List Nat
  | [] => []
  | b :: rest => if b = 10 then (i + 1) :: startsBehindFeeds (i + 1) rest
    else startsBehindFeeds (i + 1) rest

/-- The source text of a string. -/
def ofString (s : String) : SourceText :=
  ⟨s.toUTF8, 0 :: startsBehindFeeds 0 s.toUTF8.toList⟩

/-- The text between two offsets, which is empty if they do not bound whole characters. -/
def slice (t : SourceText) (start stop : Nat) : String :=
  if start ≤ stop ∧ stop ≤ t.bytes.size then
    (String.fromUTF8? (t.bytes.extract start stop)).getD ""
  else ""

/-- The starts of the lines up to an offset. -/
def startsUpTo (t : SourceText) (offset : Nat) : List Nat :=
  t.lineStarts.takeWhile fun start => start ≤ offset

/-- The location of the bytes between two offsets. -/
def location (t : SourceText) (start stop : Nat) : Location :=
  let starts := t.startsUpTo start
  ⟨⟨start, stop⟩, starts.length, start - starts.getLastD 0 + 1⟩

end SourceText

end NameAtlas.Source
