/-!
# Parse trees

The concrete syntax trees that a parser hands over. A node has a kind, the field it fills in its
parent, the bytes it covers and marks for broken code. Trees arrive as the list of their nodes in
pre-order with depths (`Entry`), and `Node.ofEntries?` puts them together; the identity of a node is
its place in that list. `Node.syntaxErrors` collects the broken nodes that stand in no other one.
-/

namespace NameAtlas.Source

/-- What is known about a node besides its children. -/
structure NodeInfo where
  /-- The identity of the node. -/
  id : Nat
  /-- The kind of syntax. -/
  kind : String
  /-- The field it fills in its parent, empty for none. -/
  field : String
  /-- The offset of its first byte. -/
  start : Nat
  /-- The offset behind its last byte. -/
  stop : Nat
  /-- False for punctuation and key words. -/
  named : Bool
  /-- True for a node that the parser supplied because the code lacks it. -/
  missing : Bool
  /-- True if the node, or one below it, is an error or missing. -/
  malformed : Bool
  deriving DecidableEq, Repr, Inhabited

/-- True for code that the parser could not place. -/
def NodeInfo.isError (i : NodeInfo) : Bool := i.kind = "ERROR"

/-- True for a node that is itself an error or missing. -/
def NodeInfo.isBroken (i : NodeInfo) : Bool := i.isError || i.missing

/-- A parse tree. -/
inductive Node where
  /-- A node above its children, which stand in source order. -/
  | mk (info : NodeInfo) (children : List Node)
  deriving Repr, Inhabited

namespace Node

/-- The node without its children. -/
def info : Node → NodeInfo
  | .mk i _ => i

/-- The children in source order. -/
def children : Node → List Node
  | .mk _ cs => cs

mutual

/-- The outermost nodes that are errors or missing, in source order. Only nodes marked as malformed
are searched. -/
def syntaxErrors : Node → List NodeInfo
  | .mk i cs =>
    if i.isBroken then [i] else if i.malformed then syntaxErrorsOf cs else []

/-- The outermost broken nodes of several trees. -/
def syntaxErrorsOf : List Node → List NodeInfo
  | [] => []
  | n :: rest => syntaxErrors n ++ syntaxErrorsOf rest

end

/-- A node of a tree with its distance from the root. -/
structure Entry where
  /-- The distance from the root. -/
  depth : Nat
  /-- The node itself. -/
  info : NodeInfo
  deriving DecidableEq, Repr, Inhabited

/-- Puts a node in front of the trees that follow it in pre-order, each with its depth: the deeper
ones at the front become its children. -/
def adopt (e : Entry) (following : List (Nat × Node)) : List (Nat × Node) :=
  let below := following.takeWhile fun t => e.depth < t.1
  (e.depth, .mk e.info (below.map Prod.snd)) :: following.dropWhile fun t => e.depth < t.1

/-- The tree of a list of nodes in pre-order, if the list describes one tree. -/
def ofEntries? (es : List Entry) : Option Node :=
  match es.foldr adopt [] with
  | [(_, n)] => some n
  | _ => none

end Node

end NameAtlas.Source
