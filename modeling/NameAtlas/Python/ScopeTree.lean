import NameAtlas.Fact.Record
import NameAtlas.Python.Builtins
import NameAtlas.Table

/-!
# Scope trees

The lexical scopes of one file with the names bound in them. Frames stand in the order in which
they were opened, the module first, and each knows the position of its parent. A frame belongs to
the node of the parse tree that defines it: opening a node again gives the frame it already has, so
that walking the same code twice builds the same tree.

Every question about a name is a question about the chain of frames from a place outwards
(`ScopeTree.chain`): reading skips the class frames on the way, a `nonlocal` name is bound in an
enclosing function, and a `global` one in the module.
-/

namespace NameAtlas.Python

/-- What a name stands for. -/
inductive NameTarget where
  /-- A symbol declared in the file. -/
  | declared (fqn : Fqn)
  /-- Something imported, which may lie outside the workspace. -/
  | imported (fqn : Fqn)
  /-- A built-in that no scope binds. -/
  | builtin (fqn : Fqn)
  deriving DecidableEq, Repr, Inhabited

/-- The qualified name that a target leads to. -/
def NameTarget.fqn : NameTarget → Fqn
  | .declared f | .imported f | .builtin f => f

/-- What a function frame knows about its function. -/
structure FunctionInfo where
  /-- The symbol of the function. -/
  symbol : Fqn
  /-- The class whose body defines it, for a method. -/
  owner : Option Fqn
  /-- True if the type it returns comes from an annotation. -/
  annotated : Bool
  deriving DecidableEq, Repr, Inhabited

/-- One lexical scope. -/
structure Frame where
  /-- What the scope belongs to. -/
  kind : ScopeKind
  /-- The module, class or function it belongs to. -/
  owner : Fqn
  /-- The position of the enclosing frame. -/
  parent : Option Nat
  /-- The bytes of the defining code. -/
  span : Span
  /-- For a function frame, what is known about the function. -/
  function : Option FunctionInfo
  /-- The names bound here. -/
  bindings : Table String NameTarget
  /-- The names declared `global` here. -/
  globals : List String
  /-- The names declared `nonlocal` here. -/
  nonlocals : List String

namespace Frame

/-- A frame that binds nothing. -/
def ofScope (kind : ScopeKind) (owner : Fqn) (parent : Option Nat) (span : Span) : Frame :=
  ⟨kind, owner, parent, span, none, .empty, [], []⟩

instance : Inhabited Frame := ⟨.ofScope .module .empty none ⟨0, 0⟩⟩

/-- The scope without its names. -/
def scope (f : Frame) : LocalScope := ⟨f.kind, f.owner, f.parent, f.span⟩

/-- Binds a name. -/
def bind (f : Frame) (name : String) (target : NameTarget) : Frame :=
  { f with bindings := f.bindings.insert name target }

/-- Declares a name `global`. -/
def declareGlobal (f : Frame) (name : String) : Frame := { f with globals := name :: f.globals }

/-- Declares a name `nonlocal`. -/
def declareNonlocal (f : Frame) (name : String) : Frame :=
  { f with nonlocals := name :: f.nonlocals }

/-- Records what is known about the function of a frame. -/
def setFunction (f : Frame) (info : FunctionInfo) : Frame := { f with function := some info }

end Frame

/-- The frames of one file. -/
structure ScopeTree where
  /-- The frames in the order in which they were opened. -/
  frames : Array Frame
  /-- The frame of each node that opened one. -/
  byNode : Table Nat Nat

namespace ScopeTree

/-- The position of the module frame. -/
def moduleScope : Nat := 0

/-- The tree of a module in which nothing is open yet. -/
def ofModule (module : Fqn) (span : Span) : ScopeTree :=
  ⟨#[Frame.ofScope .module module none span], .empty⟩

/-- The frame at a position. -/
def frame? (t : ScopeTree) (i : Nat) : Option Frame := t.frames[i]?

/-- The number of frames. -/
def size (t : ScopeTree) : Nat := t.frames.size

/-- The owner of the frame at a position. -/
def ownerOf (t : ScopeTree) (i : Nat) : Fqn := ((t.frame? i).map Frame.owner).getD .empty

/-- The kind of the frame at a position. -/
def kindOf (t : ScopeTree) (i : Nat) : ScopeKind := ((t.frame? i).map Frame.kind).getD .module

/-- The position of the frame around the one at a position. -/
def parentOf? (t : ScopeTree) (i : Nat) : Option Nat := (t.frame? i).bind Frame.parent

/-- Changes the frame at a position. -/
def modify (t : ScopeTree) (i : Nat) (f : Frame → Frame) : ScopeTree :=
  { t with frames := t.frames.modify i f }

/-- Opens the frame of a node inside `parent`, and gives its position. A node that has a frame
keeps it as it is. -/
def openFrame (t : ScopeTree) (node : Nat) (kind : ScopeKind) (owner : Fqn) (parent : Nat)
    (span : Span) : Nat × ScopeTree :=
  match t.byNode.get? node with
  | some i => (i, t)
  | none =>
    (t.size, ⟨t.frames.push (.ofScope kind owner (some parent) span), t.byNode.insert node t.size⟩)

/-- The positions from a frame outwards, itself first. A parent always stands before its frames, so
the chain ends. -/
def chain (t : ScopeTree) (i : Nat) : List Nat :=
  match t.parentOf? i with
  | some p => if p < i then i :: chain t p else [i]
  | none => [i]
termination_by i

/-- The binding of a name in one frame. -/
def binding? (t : ScopeTree) (i : Nat) (name : String) : Option NameTarget :=
  (t.frame? i).bind fun f => f.bindings.get? name

/-- True if a frame is a function's. -/
def isFunction (t : ScopeTree) (i : Nat) : Bool := t.kindOf i = .function

/-- True if a read that starts in frame `start` sees the names of frame `i`: class bodies are seen
only from themselves. -/
def sees (t : ScopeTree) (start i : Nat) : Bool := i = start || t.kindOf i ≠ .class

/-- What a name stands for where it is read: the first binding outwards that is seen, else a
built-in. -/
def lookup (t : ScopeTree) (start : Nat) (name : String) : Option NameTarget :=
  match (t.chain start).findSome? fun i => if t.sees start i then t.binding? i name else none with
  | some target => some target
  | none => if isBuiltin name then some (.builtin (.builtin name)) else none

/-- True if a frame declares a name `global`. -/
def declaresGlobal (t : ScopeTree) (i : Nat) (name : String) : Bool :=
  (t.frame? i).any fun f => f.globals.contains name

/-- True if a frame declares a name `nonlocal`. -/
def declaresNonlocal (t : ScopeTree) (i : Nat) (name : String) : Bool :=
  (t.frame? i).any fun f => f.nonlocals.contains name

/-- The function frames around a frame, innermost first. -/
def outerFunctions (t : ScopeTree) (i : Nat) : List Nat := (t.chain i).tail.filter t.isFunction

/-- The frame that receives a binding made in frame `i`: the module for a `global` name; for a
`nonlocal` one the nearest enclosing function that binds it, or else the nearest of all; and
otherwise the frame itself. -/
def bindingScope (t : ScopeTree) (i : Nat) (name : String) : Nat :=
  if t.declaresGlobal i name then moduleScope
  else if t.declaresNonlocal i name then
    match (t.outerFunctions i).find? fun j => (t.binding? j name).isSome with
    | some j => j
    | none => (t.outerFunctions i).head?.getD i
  else i

/-- Binds a name in one frame. -/
def bind (t : ScopeTree) (i : Nat) (name : String) (target : NameTarget) : ScopeTree :=
  t.modify i (·.bind name target)

/-- Declares a name `global` in one frame. -/
def declareGlobal (t : ScopeTree) (i : Nat) (name : String) : ScopeTree :=
  t.modify i (·.declareGlobal name)

/-- Declares a name `nonlocal` in one frame. -/
def declareNonlocal (t : ScopeTree) (i : Nat) (name : String) : ScopeTree :=
  t.modify i (·.declareNonlocal name)

/-- Records what is known about the function of one frame. -/
def setFunction (t : ScopeTree) (i : Nat) (info : FunctionInfo) : ScopeTree :=
  t.modify i (·.setFunction info)

/-- The nearest function frame at or around a frame. -/
def enclosingFunction? (t : ScopeTree) (i : Nat) : Option Nat := (t.chain i).find? t.isFunction

/-- The scopes without their names. -/
def scopes (t : ScopeTree) : List LocalScope := t.frames.toList.map Frame.scope

end ScopeTree

end NameAtlas.Python
