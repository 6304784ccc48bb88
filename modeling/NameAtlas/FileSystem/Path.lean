import NameAtlas.Text.Split

/-!
# Paths

A path is kept as it is written, because messages quote it. It is cut at every slash into pieces,
and a piece is a component of the path unless it is empty or a single dot, which stand for nothing;
only a dot at the very front of a path is a component. `relativeTo?` compares paths by components
and leaves the rest as it is written.
-/

namespace NameAtlas

/-- A path as it is written. -/
structure Path where
  /-- The text. -/
  text : String
  deriving DecidableEq, Repr, Inhabited

namespace Path

/-- A component of a path. -/
inductive Component where
  /-- The slash at the front of an absolute path. -/
  | top
  /-- The dot at the front of a relative path. -/
  | current
  /-- Two dots. -/
  | parent
  /-- A name. -/
  | name (name : String)
  deriving DecidableEq, Repr, Inhabited

/-- What stands between the slashes. -/
def pieces (p : Path) : List String := (Text.splitAt '/' p.text.toList).map String.ofList

/-- True for a path from the top. -/
def isAbsolute (p : Path) : Bool := p.text.toList.head? = some '/'

/-- The path `p` as seen from `base`: an absolute path stays as it is. -/
def join (base p : Path) : Path :=
  if p.isAbsolute then p
  else if base.text = "" ∨ base.text.toList.getLast? = some '/' then ⟨base.text ++ p.text⟩
  else ⟨base.text ++ "/" ++ p.text⟩

/-- The path of what some names lead to from `base`. -/
def descend (base : Path) (names : List String) : Path :=
  names.foldl (fun p name => p.join ⟨name⟩) base

/-- True for the pieces that stand for nothing. -/
def isVoid (piece : String) : Bool := piece = "" || piece = "."

/-- The component of a piece behind the front. -/
def componentOf? (piece : String) : Option Component :=
  if isVoid piece then none else if piece = ".." then some .parent else some (.name piece)

/-- The component that only the front of a path can have. -/
def front? (p : Path) : Option Component :=
  if p.isAbsolute then some .top else if p.pieces.head? = some "." then some .current else none

/-- The pieces behind the front component. -/
def body (p : Path) : List String := if p.front?.isSome then p.pieces.tail else p.pieces

/-- The components in order. -/
def components (p : Path) : List Component := p.front?.toList ++ p.body.filterMap componentOf?

/-- The names among the components. -/
def names (p : Path) : List String :=
  p.components.filterMap fun
    | .name name => some name
    | _ => none

/-- The pieces behind some components, if these are the components at the front. -/
def dropComponents? : List Component → List String → Option (List String)
  | [], ps => some ps
  | _ :: _, [] => none
  | c :: cs, p :: ps =>
    match componentOf? p with
    | none => dropComponents? (c :: cs) ps
    | some d => if c = d then dropComponents? cs ps else none

/-- The path of some pieces, without those at either end that stand for nothing. -/
def ofPieces (ps : List String) : Path :=
  ⟨"/".intercalate ((ps.dropWhile isVoid).reverse.dropWhile isVoid).reverse⟩

/-- The path below `base`, if the components of `base` are the first components of the path. -/
def relativeTo? (p base : Path) : Option Path :=
  match p.front?, base.components with
  | some _, [] => some p
  | some f, c :: cs => if c = f then (dropComponents? cs p.body).map ofPieces else none
  | none, cs => (dropComponents? cs p.body).map ofPieces

/-- The path below `base`, or the path itself if it is not below it. -/
def relativeTo (p base : Path) : Path := (p.relativeTo? base).getD p

/-- The names of a path below a workspace, with a slash between them. -/
def inWorkspace (p workspace : Path) : String := "/".intercalate (p.relativeTo workspace).names

end Path

end NameAtlas
