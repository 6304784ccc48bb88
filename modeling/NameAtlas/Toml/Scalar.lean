import NameAtlas.Text.Decimal
import NameAtlas.Toml.Value

/-!
# TOML strings, numbers and dates

Readers for the values that hold no other value. Each returns what it read and the rest of the
text. A reader takes as much as it can; what follows is checked by whoever reads on, and none of the
characters that a longer value of the kind would need can follow a value in a document.
-/

namespace NameAtlas.Toml

/-! ### Characters and line endings -/

/-- A blank inside a line. -/
def isGap (c : Char) : Bool := c = ' ' || c = '\t'

/-- The rest of a text behind the blanks of a line. -/
def skipGaps (cs : List Char) : List Char := cs.dropWhile isGap

/-- A character that texts and comments may hold as it is: no control character but the tab. -/
def isPlain (c : Char) : Bool := c = '\t' || (32 ≤ c.toNat && c.toNat ≠ 127)

/-- The rest behind a line ending. -/
def newline? : List Char → Option (List Char)
  | '\n' :: rest => some rest
  | '\r' :: '\n' :: rest => some rest
  | _ => none

/-- The rest behind blanks, line endings and comments. -/
def skipFiller (inComment : Bool) : List Char → List Char
  | [] => []
  | '\n' :: rest => skipFiller false rest
  | '\r' :: '\n' :: rest => skipFiller false rest
  | c :: rest =>
    if inComment then if isPlain c then skipFiller true rest else c :: rest
    else if isGap c then skipFiller false rest
    else if c = '#' then skipFiller true rest
    else c :: rest

/-! ### Strings -/

/-- The value of a hexadecimal digit. -/
def hexDigit? (c : Char) : Option Nat :=
  if c.isDigit then some (c.toNat - '0'.toNat)
  else if 'a' ≤ c ∧ c ≤ 'f' then some (c.toNat - 'a'.toNat + 10)
  else if 'A' ≤ c ∧ c ≤ 'F' then some (c.toNat - 'A'.toNat + 10)
  else none

/-- The character whose code point stands in exactly `count` hexadecimal digits. -/
def codePoint? (count : Nat) (cs : List Char) : Option (Char × List Char) := do
  let digits ← (cs.take count).mapM hexDigit?
  let n := digits.foldl (fun n d => 16 * n + d) 0
  if digits.length = count ∧ n.isValidChar then pure (Char.ofNat n, cs.drop count) else none

/-- The character of an escape behind its backslash. -/
def escape? : List Char → Option (Char × List Char)
  | 'b' :: rest => some (Char.ofNat 8, rest)
  | 'f' :: rest => some (Char.ofNat 12, rest)
  | 'n' :: rest => some ('\n', rest)
  | 'r' :: rest => some ('\r', rest)
  | 't' :: rest => some ('\t', rest)
  | '"' :: rest => some ('"', rest)
  | '\\' :: rest => some ('\\', rest)
  | 'u' :: rest => codePoint? 4 rest
  | 'U' :: rest => codePoint? 8 rest
  | _ => none

/-- The text up to a double quotation mark, on one line and with escapes. -/
def basicText? (fuel : Nat) (cs : List Char) (read : List Char) : Option (String × List Char) :=
  match fuel, cs with
  | 0, _ => none
  | _, [] => none
  | _ + 1, '"' :: rest => some (String.ofList read.reverse, rest)
  | fuel + 1, '\\' :: rest =>
    match escape? rest with
    | some (c, rest) => basicText? fuel rest (c :: read)
    | none => none
  | fuel + 1, c :: rest => if isPlain c then basicText? fuel rest (c :: read) else none

/-- The text up to a single quotation mark, on one line and as it stands. -/
def literalText? (cs : List Char) : Option (String × List Char) :=
  let isText (c : Char) : Bool := isPlain c && c ≠ '\''
  match cs.dropWhile isText with
  | '\'' :: rest => some (String.ofList (cs.takeWhile isText), rest)
  | _ => none

/-- The text up to three quotation marks, in front of which up to two more belong to the text. It
may go over several lines; every line ending counts as a line feed. Only between double quotation
marks are there escapes, and a backslash at the end of a line hides the blanks and line endings
behind it. -/
def longText? (quote : Char) (fuel : Nat) (cs : List Char) (read : List Char) :
    Option (String × List Char) :=
  match fuel with
  | 0 => none
  | fuel + 1 =>
    let marks := cs.takeWhile (· = quote)
    if 3 ≤ marks.length then
      let kept := min 2 (marks.length - 3)
      some (String.ofList (List.replicate kept quote ++ read).reverse, cs.drop (kept + 3))
    else if marks ≠ [] then longText? quote fuel (cs.drop marks.length) (marks ++ read)
    else
      match newline? cs with
      | some rest => longText? quote fuel rest ('\n' :: read)
      | none =>
        match cs with
        | [] => none
        | c :: rest =>
          if c = '\\' ∧ quote = '"' then
            match newline? (skipGaps rest) with
            | some rest =>
              longText? quote fuel
                (rest.dropWhile fun c => isGap c || c = '\n' || c = '\r') read
            | none =>
              match escape? rest with
              | some (c, rest) => longText? quote fuel rest (c :: read)
              | none => none
          else if isPlain c then longText? quote fuel rest (c :: read)
          else none

/-- The text of a string on one line. -/
def shortString? : List Char → Option (String × List Char)
  | '"' :: rest => basicText? (rest.length + 1) rest []
  | '\'' :: rest => literalText? rest
  | _ => none

/-- The text of a string. A line ending just behind three opening quotation marks is dropped. -/
def string? : List Char → Option (String × List Char)
  | '"' :: '"' :: '"' :: rest => longText? '"' (rest.length + 1) ((newline? rest).getD rest) []
  | '\'' :: '\'' :: '\'' :: rest =>
    longText? '\'' (rest.length + 1) ((newline? rest).getD rest) []
  | cs => shortString? cs

/-! ### Dates -/

/-- A number of exactly `count` digits between two bounds. -/
def fixedDigits? (count low high : Nat) (cs : List Char) : Option (Nat × List Char) :=
  let digits := cs.take count
  let n := Text.decimalValue digits
  if digits.length = count ∧ digits.all Char.isDigit ∧ low ≤ n ∧ n ≤ high then
    some (n, cs.drop count)
  else none

/-- The rest behind a character. -/
def dropChar? (c : Char) : List Char → Option (List Char)
  | d :: rest => if d = c then some rest else none
  | [] => none

/-- The number of days of a month. -/
def daysOf (year month : Nat) : Nat :=
  if month = 2 then if (year % 4 = 0 ∧ year % 100 ≠ 0) ∨ year % 400 = 0 then 29 else 28
  else if month ∈ [4, 6, 9, 11] then 30
  else 31

/-- The rest behind a day of the calendar. -/
def day? (cs : List Char) : Option (List Char) := do
  let (year, rest) ← fixedDigits? 4 0 9999 cs
  let rest ← dropChar? '-' rest
  let (month, rest) ← fixedDigits? 2 1 12 rest
  let rest ← dropChar? '-' rest
  let (_, rest) ← fixedDigits? 2 1 (daysOf year month) rest
  pure rest

/-- The rest behind a time of day, in which a minute may have a leap second. -/
def time? (cs : List Char) : Option (List Char) := do
  let (_, rest) ← fixedDigits? 2 0 23 cs
  let rest ← dropChar? ':' rest
  let (_, rest) ← fixedDigits? 2 0 59 rest
  let rest ← dropChar? ':' rest
  let (_, rest) ← fixedDigits? 2 0 60 rest
  match rest with
  | '.' :: fraction =>
    if fraction.takeWhile Char.isDigit = [] then none else pure (fraction.dropWhile Char.isDigit)
  | _ => pure rest

/-- The rest behind the offset of a time zone, if there is one. -/
def skipOffset (cs : List Char) : List Char :=
  let ahead (rest : List Char) : Option (List Char) := do
    let (_, rest) ← fixedDigits? 2 0 23 rest
    let rest ← dropChar? ':' rest
    let (_, rest) ← fixedDigits? 2 0 59 rest
    pure rest
  match cs with
  | 'Z' :: rest | 'z' :: rest => rest
  | '+' :: rest | '-' :: rest => (ahead rest).getD cs
  | _ => cs

/-- The rest behind a day, a time, or a day with a time. -/
def date? (cs : List Char) : Option (List Char) :=
  match day? cs with
  | none => time? cs
  | some rest =>
    match rest with
    | c :: afterMark =>
      if c = 'T' ∨ c = 't' ∨ c = ' ' then
        match time? afterMark with
        | some rest => some (skipOffset rest)
        | none => some rest
      else some rest
    | [] => some []

/-! ### Numbers -/

/-- The digits of a class at the front of a text, where an underscore may stand between two of
them. -/
def digitRun (isDigit : Char → Bool) : List Char → List Char × List Char
  | c :: '_' :: d :: rest =>
    if isDigit c ∧ isDigit d then
      let (ds, rest) := digitRun isDigit (d :: rest)
      (c :: ds, rest)
    else if isDigit c then ([c], '_' :: d :: rest)
    else ([], c :: '_' :: d :: rest)
  | c :: rest =>
    if isDigit c then
      let (ds, rest) := digitRun isDigit rest
      (c :: ds, rest)
    else ([], c :: rest)
  | [] => ([], [])

/-- True if a number is a signed integer of 64 bits. -/
def isInt64 (n : Int) : Bool := Int64.minValue.toInt ≤ n && n ≤ Int64.maxValue.toInt

/-- A whole number in another base behind its mark. -/
def based? (base : Nat) (cs : List Char) : Option (Value × List Char) :=
  let isDigit (c : Char) : Bool := (hexDigit? c).any fun d => d < base
  let (ds, rest) := digitRun isDigit cs
  let n := (ds.filterMap hexDigit?).foldl (fun n d => base * n + d) 0
  if ds = [] ∨ !isInt64 n then none else some (.integer n, rest)

/-- The digits in front of the point: no zero stands in front of others. -/
def wholeDigits : List Char → List Char × List Char
  | '0' :: rest => (['0'], rest)
  | cs => digitRun Char.isDigit cs

/-- The digits behind the point, if there is a point with digits behind it. -/
def fractionDigits? : List Char → Option (List Char × List Char)
  | '.' :: rest =>
    let (ds, rest) := digitRun Char.isDigit rest
    if ds = [] then none else some (ds, rest)
  | _ => none

/-- The exponent, if there is one: whether it is negative, and its digits. -/
def exponent? : List Char → Option (Bool × List Char × List Char)
  | e :: rest =>
    if e = 'e' ∨ e = 'E' then
      let (negative, rest) := match rest with
        | '-' :: rest => (true, rest)
        | '+' :: rest => (false, rest)
        | rest => (false, rest)
      let (ds, rest) := digitRun Char.isDigit rest
      if ds = [] then none else some (negative, ds, rest)
    else none
  | [] => none

/-- A number in base ten behind its sign. A fraction or an exponent makes it a floating-point
number, which may be too large for a double only on the negative side. -/
def decimal? (negative : Bool) (cs : List Char) : Option (Value × List Char) :=
  let (whole, rest) := wholeDigits cs
  if whole = [] then none
  else
    let (fraction, afterFraction) := (fractionDigits? rest).getD ([], rest)
    let (down, exponent, afterExponent) := (exponent? afterFraction).getD (false, [], afterFraction)
    if fraction = [] ∧ exponent = [] then
      let n : Int := Text.decimalValue whole
      let n := if negative then -n else n
      if isInt64 n then some (.integer n, rest) else none
    else
      let shift := Text.decimalValue exponent
      let (up, down) := if down then (0, shift) else (shift, 0)
      if !negative && Text.exceedsDouble (whole ++ fraction) up (fraction.length + down) then none
      else some (.float, afterExponent)

/-- The rest behind a word. -/
def dropWord? (word cs : List Char) : Option (List Char) :=
  if word.isPrefixOf cs then some (cs.drop word.length) else none

/-- A number behind its sign: infinity, no number at all, or digits. -/
def unsigned? (negative : Bool) (cs : List Char) : Option (Value × List Char) :=
  match dropWord? "inf".toList cs, dropWord? "nan".toList cs with
  | some rest, _ | none, some rest => some (.float, rest)
  | none, none => decimal? negative cs

/-- A number or a date. -/
def number? (cs : List Char) : Option (Value × List Char) :=
  match date? cs with
  | some rest => some (.date, rest)
  | none =>
    match cs with
    | '+' :: rest => unsigned? false rest
    | '-' :: rest => unsigned? true rest
    | '0' :: 'x' :: rest => based? 16 rest
    | '0' :: 'o' :: rest => based? 8 rest
    | '0' :: 'b' :: rest => based? 2 rest
    | _ => unsigned? false cs

/-- A value that holds no other value. -/
def scalar? (cs : List Char) : Option (Value × List Char) :=
  match cs with
  | '"' :: _ | '\'' :: _ => (string? cs).map fun (s, rest) => (.string s, rest)
  | 't' :: _ => (dropWord? "true".toList cs).map (.boolean true, ·)
  | 'f' :: _ => (dropWord? "false".toList cs).map (.boolean false, ·)
  | _ => number? cs

end NameAtlas.Toml
