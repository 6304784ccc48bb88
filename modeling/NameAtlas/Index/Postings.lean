import NameAtlas.Table

/-!
# Posting lists

A list that only grows is searched by key without going through it: for each key `Postings` keeps
the positions of the entries that have it, in order. An entry is posted when it is put into the
list, so the postings have to grow with the list.
-/

namespace NameAtlas

/-- For each key the positions of the entries of a list that have it. -/
structure Postings (κ : Type) where
  /-- The positions by key. -/
  table : Table κ (Array Nat)
  deriving Inhabited

namespace Postings

variable {κ α : Type}

/-- The postings of a list without entries. -/
def empty : Postings κ := ⟨.empty⟩

variable [DecidableEq κ]

/-- The positions posted under a key. -/
def positions (p : Postings κ) (k : κ) : Array Nat := (p.table.get? k).getD #[]

/-- Posts a position under a key. -/
def post (p : Postings κ) (k : κ) (position : Nat) : Postings κ :=
  ⟨p.table.insert k ((p.positions k).push position)⟩

/-- Posts the entry at a position under its key, if it has one. -/
def postEntry (key : α → Option κ) (p : Postings κ) (position : Nat) (a : α) : Postings κ :=
  match key a with
  | some k => p.post k position
  | none => p

/-- Posts entries that stand one behind the other from a position on. -/
def postAll (key : α → Option κ) (p : Postings κ) : Nat → List α → Postings κ
  | _, [] => p
  | position, a :: rest => postAll key (postEntry key p position a) (position + 1) rest

/-- The entries of a list at the positions posted under a key. -/
def entries (p : Postings κ) (k : κ) (l : List α) : List α :=
  (p.positions k).toList.filterMap fun i => l[i]?

end Postings

end NameAtlas
