import NameAtlas.Table

/-!
# TOML values and tables

The values of a TOML document, and the two ways in which a document adds to its tables: an
assignment with a dotted key (`assign?`) and a header (`enter?`). What may still be added to a table
depends on how it came to be, so every table carries its `Origin`. A table written in braces is
closed, a table with a header of its own takes no dotted keys from outside, and a table that was
only passed on the way to another one may still get its own header.
-/

namespace NameAtlas.Toml

/-- How a table came to be. -/
inductive Origin where
  /-- Written in braces. -/
  | braces
  /-- Opened by a header of its own. -/
  | header
  /-- Passed by the header of a table inside it. -/
  | passed
  /-- Passed by a dotted key. -/
  | dotted
  deriving DecidableEq, Repr, Inhabited

/-- A value of a document. The values of floating-point numbers and dates are not kept. -/
inductive Value where
  /-- A text. -/
  | string (text : String)
  /-- A whole number. -/
  | integer (value : Int)
  /-- A floating-point number. -/
  | float
  /-- A truth value. -/
  | boolean (value : Bool)
  /-- A date, a time of day or both. -/
  | date
  /-- An array written in brackets. -/
  | array (items : List Value)
  /-- A table with its members in order. -/
  | table (origin : Origin) (members : List (String × Value))
  /-- The tables that headers in double brackets collect under one name. -/
  | tables (members : List (List (String × Value)))
  deriving Repr, Inhabited

/-- The members of a table, in order. -/
abbrev Members := List (String × Value)

/-- An assignment: the keys on the way, the last key, and the value. -/
structure Assignment where
  /-- The keys of the tables on the way. -/
  path : List String
  /-- The key of the value. -/
  key : String
  /-- The value. -/
  value : Value
  deriving Repr, Inhabited

/-- Changes the last element of a list, if there is one and the change is possible. -/
def changeLast? {α : Type} (change : α → Option α) : List α → Option (List α)
  | [] => none
  | [a] => (change a).map ([·])
  | a :: rest => (changeLast? change rest).map (a :: ·)

/-- Adds a value under a dotted key. Every table that a dotted key ends in has to come from dotted
keys, and no key is assigned twice. -/
def assign? (key : String) (value : Value) : List String → Members → Option Members
  | [], ms => if (Table.lookup key ms).isSome then none else some (ms ++ [(key, value)])
  | step :: path, ms =>
    match Table.lookup step ms with
    | none => (assign? key value path []).map fun sub => ms ++ [(step, .table .dotted sub)]
    | some (.table .dotted sub) =>
      (assign? key value path sub).map fun sub =>
        Table.insertEntry step (.table .dotted sub) ms
    -- A table that headers have passed is walked through, but the value cannot land in it.
    | some (.table .passed sub) =>
      if path = [] then none
      else (assign? key value path sub).map fun sub =>
        Table.insertEntry step (.table .passed sub) ms
    | some (.tables ts) =>
      if path = [] then none
      else (changeLast? (fun sub => assign? key value path sub) ts).map fun ts =>
        Table.insertEntry step (.tables ts) ms
    | some _ => none

/-- Adds assignments from left to right. -/
def assignAll? (ms : Members) (as : List Assignment) : Option Members :=
  as.foldlM (fun ms a => assign? a.key a.value a.path ms) ms

/-- Changes what a header names. The tables on the way are passed: they may be of any origin but
braces, and of the tables collected under one name the last one counts. -/
def enter? (change : Option Value → Option Value) : List String → Members → Option Members
  | [], _ => none
  | [key], ms => (change (Table.lookup key ms)).map fun v => Table.insertEntry key v ms
  | step :: path, ms =>
    match Table.lookup step ms with
    | none => (enter? change path []).map fun sub => ms ++ [(step, .table .passed sub)]
    | some (.table origin sub) =>
      if origin = .braces then none
      else (enter? change path sub).map fun sub =>
        Table.insertEntry step (.table origin sub) ms
    | some (.tables ts) =>
      (changeLast? (fun sub => enter? change path sub) ts).map fun ts =>
        Table.insertEntry step (.tables ts) ms
    | some _ => none

/-- A header: the keys that it names, and whether it is in double brackets. -/
structure Header where
  /-- The keys. -/
  path : List String
  /-- True for double brackets, which add one more table under the name. -/
  collects : Bool
  deriving DecidableEq, Repr, Inhabited

/-- What stands under a header after its assignments are added. A table gets a header only once,
and only if it did not come from dotted keys. -/
def Header.fill? (h : Header) (as : List Assignment) (old : Option Value) : Option Value :=
  if h.collects then
    match old with
    | none => (assignAll? [] as).map fun ms => .tables [ms]
    | some (.tables ts) => (assignAll? [] as).map fun ms => .tables (ts ++ [ms])
    | some _ => none
  else
    match old with
    | none => (assignAll? [] as).map (.table .header)
    | some (.table .passed sub) => (assignAll? sub as).map (.table .header)
    | some _ => none

/-- A document: the assignments in front of the first header, and those behind each header. -/
structure Document where
  /-- The assignments in front of the first header. -/
  top : List Assignment
  /-- The headers, each with the assignments behind it. -/
  sections : List (Header × List Assignment)
  deriving Repr, Inhabited

/-- The table that a document describes. -/
def Document.members? (d : Document) : Option Members := do
  let ms ← assignAll? [] d.top
  d.sections.foldlM (fun ms s => enter? (s.1.fill? s.2) s.1.path ms) ms

end NameAtlas.Toml
