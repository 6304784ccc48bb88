/-!
# JSON values

The values of JSON documents, as far as facts and responses need them: every number that a
fact holds is a natural number. Objects keep their members in the order in which they are written.
-/

namespace NameAtlas

/-- A JSON value. -/
inductive Json where
  /-- The literal `null`. -/
  | null
  /-- The literals `true` and `false`. -/
  | bool (value : Bool)
  /-- A number written as digits alone. -/
  | nat (value : Nat)
  /-- A string. -/
  | str (value : String)
  /-- An array. -/
  | arr (items : List Json)
  /-- An object with its members in order. -/
  | obj (members : List (String × Json))
  /-- A number with a sign, a fraction or an exponent as it is written; no fact holds one. -/
  | otherNumber (written : String)
  /-- A literal of the right form that stands for no value: a string with half of a surrogate pair,
  or a number too large for a double. -/
  | unreadable
  deriving Repr, Inhabited

namespace Json

/-- A value that may be absent, which is written `null`. -/
def ofOption {α : Type} (f : α → Json) : Option α → Json
  | some a => f a
  | none => .null

/-- An array with one item for each element. -/
def ofList {α : Type} (f : α → Json) (xs : List α) : Json := .arr (xs.map f)

mutual

/-- True if every literal inside stands for a value. -/
def isReadable : Json → Bool
  | .arr items => areReadable items
  | .obj members => membersReadable members
  | .unreadable => false
  | _ => true

/-- True if every item is readable. -/
def areReadable : List Json → Bool
  | [] => true
  | v :: rest => isReadable v && areReadable rest

/-- True if the value of every member is readable. -/
def membersReadable : List (String × Json) → Bool
  | [] => true
  | (_, v) :: rest => isReadable v && membersReadable rest

end

end Json

end NameAtlas
