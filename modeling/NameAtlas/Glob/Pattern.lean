/-!
# Globs

A glob describes paths. It is a list of tokens, and a path matches if the tokens, one after the
other, can use up all its bytes. The meaning of a token is the list of what it may leave of a text
(`Token.rests`), so that a sequence of tokens is run on all the rests of the tokens before it.
Stars and question marks stand for any bytes, slashes included; only two stars that fill a component
of the path are about whole components.
-/

namespace NameAtlas

namespace Glob

/-- A part of a glob. -/
inductive Token where
  /-- A character as it is. -/
  | literal (c : Char)
  /-- Any byte. -/
  | anyByte
  /-- Any bytes. -/
  | anyBytes
  /-- Any directories at the front, with the slash behind them. -/
  | leadingDirectories
  /-- A slash, any directories, and the slash behind them. -/
  | innerDirectories
  /-- A slash and anything behind it. -/
  | trailingDirectories
  /-- One byte inside, or outside, some ranges of characters. -/
  | charClass (negated : Bool) (ranges : List (Char × Char))
  /-- One of several branches. -/
  | oneOf (branches : List (List Token))
  deriving Repr, Inhabited

/-- The byte of a slash. -/
def slash : UInt8 := 47

/-- The bytes of a character. -/
def bytesOf (c : Char) : List UInt8 := String.utf8EncodeChar c

/-- The rest of a text behind some bytes. -/
def dropBytes? : List UInt8 → List UInt8 → Option (List UInt8)
  | [], text => some text
  | _ :: _, [] => none
  | a :: as, b :: bs => if a = b then dropBytes? as bs else none

/-- Every rest of a text, the text itself first. -/
def suffixes : List UInt8 → List (List UInt8)
  | [] => [[]]
  | b :: bs => (b :: bs) :: suffixes bs

/-- The rests of a text behind its slashes. -/
def behindSlashes : List UInt8 → List (List UInt8)
  | [] => []
  | b :: bs => if b = slash then bs :: behindSlashes bs else behindSlashes bs

/-- True for the bytes of a range of characters. Outside ASCII a range is one of bytes: from the
last byte of its first character to the first byte of its last one, and the other bytes of both. -/
def inRange (b : UInt8) (range : Char × Char) : Bool :=
  let low := bytesOf range.1
  let high := bytesOf range.2
  low.contains b || high.contains b || (low.getLastD 0 ≤ b && b ≤ high.headD 0)

mutual

/-- True if a token is a group in which nothing is written. -/
def Token.isHollow : Token → Bool
  | .oneOf branches => areHollow branches
  | _ => false

/-- True if nothing is written in a sequence of tokens. -/
def isHollow : List Token → Bool
  | [] => true
  | t :: ts => t.isHollow && isHollow ts

/-- True if nothing is written in any branch. -/
def areHollow : List (List Token) → Bool
  | [] => true
  | ts :: rest => isHollow ts && areHollow rest

end

mutual

/-- What a token may leave of a text. A branch in which nothing is written does not count, and a
group without branches leaves the text as it is. -/
def Token.rests : Token → List UInt8 → List (List UInt8)
  | .literal c, text => (dropBytes? (bytesOf c) text).toList
  | .anyByte, text =>
    match text with
    | [] => []
    | _ :: bs => [bs]
  | .anyBytes, text => suffixes text
  | .leadingDirectories, text => text :: behindSlashes text
  | .innerDirectories, text =>
    match text with
    | [] => []
    | b :: bs => if b = slash then bs :: behindSlashes bs else []
  | .trailingDirectories, text =>
    match text with
    | [] => []
    | b :: bs => if b = slash then suffixes bs else []
  | .charClass negated ranges, text =>
    match text with
    | [] => []
    | b :: bs => if ranges.any (inRange b) ≠ negated then [bs] else []
  | .oneOf branches, text => if areHollow branches then [text] else restsOfAny branches text

/-- What a sequence of tokens may leave of some texts. -/
def restsOfAll : List Token → List (List UInt8) → List (List UInt8)
  | [], texts => texts
  -- Equal rests are merged, or every star would multiply them.
  | t :: ts, texts => restsOfAll ts (texts.flatMap fun text => t.rests text).eraseDups

/-- What one of several branches may leave of a text. -/
def restsOfAny : List (List Token) → List UInt8 → List (List UInt8)
  | [], _ => []
  | ts :: rest, text =>
    (if isHollow ts then [] else restsOfAll ts [text]) ++ restsOfAny rest text

end

end Glob

/-- A glob. -/
structure Glob where
  /-- The tokens in order. -/
  tokens : List Glob.Token
  deriving Repr, Inhabited

/-- True for the paths that a glob describes. The glob of two stars alone describes every path. -/
def Glob.accepts (g : Glob) (path : String) : Bool :=
  match g.tokens with
  | [.leadingDirectories] => true
  | tokens => (Glob.restsOfAll tokens [path.toUTF8.toList]).contains []

end NameAtlas
