import NameAtlas.Text.Blank

/-!
# Splitting at separators

A path of names is written with a separator between its parts. Splitting keeps empty parts, so that
a text with `n` separators has `n + 1` parts; `parts` then trims each part and drops the empty ones.
-/

namespace NameAtlas.Text

/-- Puts a character in front of the first part. -/
def consFirst (c : Char) : List (List Char) → List (List Char)
  | [] => [[c]]
  | part :: parts => (c :: part) :: parts

/-- The parts of a text between the occurrences of one character. -/
def splitAt (sep : Char) : List Char → List (List Char)
  | [] => [[]]
  | c :: cs => if c = sep then [] :: splitAt sep cs else consFirst c (splitAt sep cs)

/-- The parts of a text between double colons, taken from the left: `a:::b` is `a` and `:b`. -/
def splitDoubleColon : List Char → List (List Char)
  | [] => [[]]
  | ':' :: ':' :: cs => [] :: splitDoubleColon cs
  | c :: cs => consFirst c (splitDoubleColon cs)

/-- The parts as strings, each trimmed, without the empty ones. -/
def trimmedParts (parts : List (List Char)) : List String :=
  (parts.map trim).filterMap fun part => if part = [] then none else some (String.ofList part)

end NameAtlas.Text
