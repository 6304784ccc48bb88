import NameAtlas.Json.Value

/-!
# Reading values out of JSON

The conventions by which records and variants are read. A record is an object, in which members of
other names are ignored and none of its own may be repeated, or an array of exactly its fields in
order. A variant without data is its name, or an object whose only member has that name and the
value `null`. A variant with data is a record with one more member, the tag, or an array with the
tag in front; its whole text must be readable, also what is ignored.
-/

namespace NameAtlas.Json

/-- The text of a string. -/
def string? : Json → Option String
  | .str s => some s
  | _ => none

/-- A number below a limit. -/
def below? (limit : Nat) : Json → Option Nat
  | .nat n => if n < limit then some n else none
  | _ => none

/-- A number of 32 bits. -/
def nat32? : Json → Option Nat := below? UInt32.size

/-- A number of 64 bits. -/
def nat64? : Json → Option Nat := below? UInt64.size

/-- The results of reading every element, if all can be read. -/
def readAll {α : Type} (f : Json → Option α) : List Json → Option (List α)
  | [] => some []
  | v :: rest => do
    let a ← f v
    let as ← readAll f rest
    pure (a :: as)

/-- The elements of an array. -/
def list? {α : Type} (f : Json → Option α) : Json → Option (List α)
  | .arr items => readAll f items
  | _ => none

/-- The name of a variant without data. -/
def variantName? : Json → Option String
  | .str s => some s
  | .obj [(s, .null)] => some s
  | _ => none

/-- The name of a variant without data inside a variant with data, where an empty object may stand
for `null`. -/
def innerVariantName? : Json → Option String
  | .obj [(s, .obj [])] => some s
  | v => variantName? v

/-- The values of the members of an object that have a name. -/
def membersNamed (name : String) (ms : List (String × Json)) : List Json :=
  (ms.filter fun m => m.1 = name).map Prod.snd

/-- The fields of a record by their names; a field may be absent from an object. -/
def record? (names : List String) : Json → Option (List (Option Json))
  | .obj ms =>
    if names.all fun name => (membersNamed name ms).length ≤ 1 then
      some (names.map fun name => (membersNamed name ms).head?)
    else none
  | .arr items => if items.length = names.length then some (items.map some) else none
  | _ => none

/-- The name of a variant with data, and the record of the data. -/
def tagged? (tag : String) : Json → Option (String × Json)
  | .obj ms =>
    if membersReadable ms then
      match membersNamed tag ms with
      | [.str name] => some (name, .obj (ms.filter fun m => m.1 ≠ tag))
      | _ => none
    else none
  | .arr (.str name :: items) => if areReadable items then some (name, .arr items) else none
  | _ => none

/-- True for what a variant without data may carry besides its tag. -/
def isNoData : Json → Bool
  | .obj _ => true
  | .arr items => items.isEmpty
  | _ => false

end NameAtlas.Json
