import NameAtlas.Fqn
import NameAtlas.Table

/-!
# Class hierarchies

Classes are flat records: a table gives each class its direct bases, and a predicate says which
names are declared. `ancestors` walks the bases depth first and from left to right, and lists each
ancestor where it is first met, so cyclic and diamond-shaped hierarchies are walked like any other.
The walk ends because each step either shortens the list of classes to visit or uses up the bases
of a class that is visited for the first time (`unused_cons_add_le`).
-/

namespace NameAtlas

/-- Classes with their bases, and the declared names. -/
structure Hierarchy where
  /-- The direct bases of each class, in the order of its base list. -/
  bases : Table Fqn (List Fqn)
  /-- True for declared names. -/
  declares : Fqn → Bool

namespace Hierarchy

/-- The direct bases of a class; a name without an entry has none. -/
def basesOf (bases : Table Fqn (List Fqn)) (c : Fqn) : List Fqn := (bases.get? c).getD []

/-- How many bases belong to classes that are not yet visited. -/
def unused (visited : List Fqn) : List (Fqn × List Fqn) → Nat
  | [] => 0
  | (c, bs) :: rest => (if c ∈ visited then 0 else bs.length) + unused visited rest

/-- Visiting one class more leaves at most as many bases unused. -/
theorem unused_cons_le (c : Fqn) (visited : List Fqn) (es : List (Fqn × List Fqn)) :
    unused (c :: visited) es ≤ unused visited es := by
  induction es with
  | nil => simp [unused]
  | cons e rest ih =>
    simp only [unused, List.mem_cons]
    split <;> split <;> grind

/-- Visiting a class for the first time uses up its bases. -/
theorem unused_cons_add_le {c : Fqn} {visited : List Fqn} (h : c ∉ visited)
    (es : List (Fqn × List Fqn)) :
    unused (c :: visited) es + ((Table.lookup c es).getD []).length ≤ unused visited es := by
  -- The induction is on the entries: the one of `c` gives up its bases, and the others lose
  -- nothing.
  induction es with
  | nil => simp [unused, Table.lookup]
  | cons e rest ih =>
    obtain ⟨c', bs⟩ := e
    by_cases hc : c = c'
    · subst hc
      have := unused_cons_le c visited rest
      simp [unused, Table.lookup, h]
      omega
    · have hc' : ¬c' = c := fun e => hc e.symm
      simp only [unused, Table.lookup, hc, if_false, List.mem_cons, hc', false_or]
      omega

/-- The classes on a stack and above them that are not yet visited, in the order in which a
depth-first walk meets them. -/
def visit (bases : Table Fqn (List Fqn)) (visited : List Fqn) : List Fqn → List Fqn
  | [] => []
  | next :: stack =>
    if next ∈ visited then visit bases visited stack
    else next :: visit bases (next :: visited) (basesOf bases next ++ stack)
termination_by stack => stack.length + unused visited bases.entries
decreasing_by
  · simp only [List.length_cons]; omega
  · rename_i h
    have := unused_cons_add_le h bases.entries
    simp only [basesOf, Table.get?, List.length_append, List.length_cons]
    omega

/-- All ancestors of a class, without the class itself. -/
def ancestors (h : Hierarchy) (c : Fqn) : List Fqn := visit h.bases [c] (basesOf h.bases c)

/-- The declaration of a name on a class or on the first of its ancestors that has one. -/
def resolveMember? (h : Hierarchy) (c : Fqn) (name : String) : Option Fqn :=
  ((c :: h.ancestors c).map fun a => a.child name).find? h.declares

end Hierarchy

end NameAtlas
