import NameAtlas.Json.Value
import NameAtlas.Source.Tree

/-!
# Parse trees in JSON

A parser hands a tree over as the array of its nodes in pre-order. A node is an array of its depth,
kind, field, and the offsets of its first byte and behind its last one; an optional text at the end
marks it, with one letter for each of: no name (`a`), missing (`m`), malformed (`e`).
-/

namespace NameAtlas.Source



/-- A node with its marks. -/
def entryOfMarks (id depth : Nat) (kind field : String) (start stop : Nat) (marks : List Char) :
    Node.Entry :=
  { depth
    info :=
      { id, kind, field, start, stop
        named := !marks.contains 'a'
        missing := marks.contains 'm'
        malformed := marks.contains 'e' } }

/-- Reads the node with a number. -/
def Node.Entry.ofJson? (id : Nat) : Json → Option Node.Entry
  | .arr [.nat depth, .str kind, .str field, .nat start, .nat stop] =>
    some (entryOfMarks id depth kind field start stop [])
  | .arr [.nat depth, .str kind, .str field, .nat start, .nat stop, .str marks] =>
    some (entryOfMarks id depth kind field start stop marks.toList)
  | _ => none

/-- Reads a tree. -/
def Node.ofJson? : Json → Option Node
  | .arr nodes => do Node.ofEntries? (← (nodes.mapIdx Node.Entry.ofJson?).mapM id)
  | _ => none

end NameAtlas.Source
