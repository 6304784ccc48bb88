import NameAtlas.Json.Value
import NameAtlas.Text.Decimal

/-!
# Reading JSON

A reader for the documents of RFC 8259 on lists of characters. Each step returns what it read and
the rest of the text. A step that may call itself takes a bound on the nesting, which `parse?`
chooses larger than the text, so that no document is refused for it.
-/

namespace NameAtlas.Json

/-- Blanks between tokens. -/
def isSpace (c : Char) : Bool := c = ' ' || c = '\n' || c = '\t' || c = '\r'

/-- The rest of a text behind its blanks. -/
def skipSpaces (cs : List Char) : List Char := cs.dropWhile isSpace

/-- The value of a hexadecimal digit. -/
def hexValue? (c : Char) : Option Nat :=
  if c.isDigit then some (c.toNat - '0'.toNat)
  else if 'a' ≤ c ∧ c ≤ 'f' then some (c.toNat - 'a'.toNat + 10)
  else if 'A' ≤ c ∧ c ≤ 'F' then some (c.toNat - 'A'.toNat + 10)
  else none

/-- The number of four hexadecimal digits. -/
def hexQuad? : List Char → Option (Nat × List Char)
  | a :: b :: c :: d :: rest => do
    let a ← hexValue? a
    let b ← hexValue? b
    let c ← hexValue? c
    let d ← hexValue? d
    pure (((a * 16 + b) * 16 + c) * 16 + d, rest)
  | _ => none

/-- The character that a one-letter escape stands for. -/
def simpleEscape? : Char → Option Char
  | '"' => some '"'
  | '\\' => some '\\'
  | '/' => some '/'
  | 'b' => some (Char.ofNat 8)
  | 'f' => some (Char.ofNat 12)
  | 'n' => some '\n'
  | 'r' => some '\r'
  | 't' => some '\t'
  | _ => none

/-- The character of a surrogate pair. -/
def pairedChar (high low : Nat) : Char :=
  Char.ofNat (0x10000 + (high - 0xd800) * 0x400 + (low - 0xdc00))

/-- Reads the text of a string literal behind its opening quotation mark. A literal in which half of
a surrogate pair stands alone is read to its end and is unreadable. -/
def stringBody (fuel : Nat) (cs : List Char) (read : List Char) (sound : Bool) :
    Option (Json × List Char) :=
  match fuel, cs with
  | 0, _ => none
  | _, [] => none
  | _ + 1, '"' :: rest =>
    some (if sound then .str (String.ofList read.reverse) else .unreadable, rest)
  | fuel + 1, '\\' :: 'u' :: rest =>
    match hexQuad? rest with
    | none => none
    | some (n, rest) =>
      if 0xd800 ≤ n ∧ n < 0xdc00 then
        match rest with
        | '\\' :: 'u' :: rest' =>
          match hexQuad? rest' with
          | none => none
          | some (m, rest'') =>
            if 0xdc00 ≤ m ∧ m < 0xe000 then stringBody fuel rest'' (pairedChar n m :: read) sound
            else stringBody fuel rest read false
        | _ => stringBody fuel rest read false
      else if 0xdc00 ≤ n ∧ n < 0xe000 then stringBody fuel rest read false
      else stringBody fuel rest (Char.ofNat n :: read) sound
  | fuel + 1, '\\' :: c :: rest =>
    match simpleEscape? c with
    | some d => stringBody fuel rest (d :: read) sound
    | none => none
  | _, ['\\'] => none
  | fuel + 1, c :: rest =>
    if c.toNat < 32 then none else stringBody fuel rest (c :: read) sound

/-- Reads a number. -/
def number? (text : List Char) : Option (Json × List Char) :=
  let (signed, cs) := match text with
    | '-' :: rest => (true, rest)
    | _ => (false, text)
  let whole := cs.takeWhile Char.isDigit
  let rest := cs.dropWhile Char.isDigit
  if whole = [] ∨ (whole.head? = some '0' ∧ whole.length > 1) then none
  else do
    let (fraction, rest, pointed) ← match rest with
      | '.' :: rest' =>
        let digits := rest'.takeWhile Char.isDigit
        if digits = [] then none else some (digits, rest'.dropWhile Char.isDigit, true)
      | _ => some ([], rest, false)
    let (exponent, negative, rest, scaled) ← match rest with
      | e :: rest' =>
        if e = 'e' ∨ e = 'E' then
          let (negative, rest') := match rest' with
            | '-' :: r => (true, r)
            | '+' :: r => (false, r)
            | r => (false, r)
          let digits := rest'.takeWhile Char.isDigit
          if digits = [] then none
          else some (Text.decimalValue digits, negative, rest'.dropWhile Char.isDigit, true)
        else some (0, false, rest, false)
      | [] => some (0, false, rest, false)
    let (up, down) := if negative then (0, exponent) else (exponent, 0)
    let value :=
      if Text.exceedsDouble (whole ++ fraction) up (fraction.length + down) then .unreadable
      else if signed ∨ pointed ∨ scaled then
        .otherNumber (String.ofList (text.take (text.length - rest.length)))
      else .nat (Text.decimalValue whole)
    pure (value, rest)

/-- The rest of a text behind a word. -/
def dropWord? (word cs : List Char) : Option (List Char) :=
  if word.isPrefixOf cs then some (cs.drop word.length) else none

mutual

/-- Reads a value. -/
def value? (fuel : Nat) (cs : List Char) : Option (Json × List Char) :=
  match fuel with
  | 0 => none
  | fuel + 1 =>
    match skipSpaces cs with
    | '"' :: rest => stringBody (rest.length + 1) rest [] true
    | '[' :: rest =>
      match skipSpaces rest with
      | ']' :: rest => some (.arr [], rest)
      | rest => (items? fuel rest).map fun (vs, rest) => (.arr vs, rest)
    | '\x7b' :: rest =>
      match skipSpaces rest with
      | '\x7d' :: rest => some (.obj [], rest)
      | rest => (members? fuel rest).map fun (ms, rest) => (.obj ms, rest)
    | c :: rest =>
      if c = 'n' then (dropWord? "ull".toList rest).map (.null, ·)
      else if c = 't' then (dropWord? "rue".toList rest).map (.bool true, ·)
      else if c = 'f' then (dropWord? "alse".toList rest).map (.bool false, ·)
      else number? (c :: rest)
    | [] => none

/-- Reads the items of a non-empty array and its closing bracket. -/
def items? (fuel : Nat) (cs : List Char) : Option (List Json × List Char) :=
  match fuel with
  | 0 => none
  | fuel + 1 => do
    let (v, rest) ← value? fuel cs
    match skipSpaces rest with
    | ',' :: rest => (items? fuel rest).map fun (vs, rest) => (v :: vs, rest)
    | ']' :: rest => pure ([v], rest)
    | _ => none

/-- Reads the members of a non-empty object and its closing bracket. -/
def members? (fuel : Nat) (cs : List Char) : Option (List (String × Json) × List Char) :=
  match fuel with
  | 0 => none
  | fuel + 1 =>
    match skipSpaces cs with
    | '"' :: rest => do
      match ← stringBody (rest.length + 1) rest [] true with
      | (.str k, rest) =>
        match skipSpaces rest with
        | ':' :: rest =>
          let (v, rest) ← value? fuel rest
          match skipSpaces rest with
          | ',' :: rest => (members? fuel rest).map fun (ms, rest) => ((k, v) :: ms, rest)
          | '\x7d' :: rest => pure ([(k, v)], rest)
          | _ => none
        | _ => none
      | _ => none
    | _ => none

end

/-- Reads a document: one value with nothing but blanks around it. -/
def parse? (text : String) : Option Json := do
  let (v, rest) ← value? (2 * text.length + 2) text.toList
  if skipSpaces rest = [] then pure v else none

end NameAtlas.Json
