import NameAtlas.Text.Blank

/-!
# Lines

The lines of a text. A line ends at a line feed, which is not part of it, and neither is a carriage
return just before that line feed; a text that ends with a line feed has no empty line after it.
-/

namespace NameAtlas.Text

/-- The lines of a text, without their line endings. -/
def lines : List Char → List (List Char)
  | [] => []
  | '\n' :: rest => [] :: lines rest
  | '\r' :: '\n' :: rest => [] :: lines rest
  | c :: rest =>
    match lines rest with
    | [] => [[c]]
    | line :: more => (c :: line) :: more

/-- How many characters of a line a message quotes. -/
def snippetWidth : Nat := 40

/-- The first line of a text, trimmed, and cut with an ellipsis if it is longer than
`snippetWidth` characters. -/
def snippet (s : String) : String :=
  let line := trim ((lines s.toList).head?.getD [])
  if line.length > snippetWidth then String.ofList (line.take snippetWidth) ++ "..."
  else String.ofList line

end NameAtlas.Text
