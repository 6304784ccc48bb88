import NameAtlas.Text.Split

/-!
# Fully qualified names

An `Fqn` is the path of segments from a module down to a declared entity, written with a double
colon between segments. Names are the keys of the index and the targets of its edges. They are
ordered segment by segment, and segments by their characters, which for code points is also the
order of their UTF-8 bytes. Reading drops empty segments and trims the others, so a name read from
text is canonical, while one built from segments may hold any text.
-/

namespace NameAtlas

/-- The path of segments that names a declared entity. -/
structure Fqn where
  /-- The segments, outermost first. -/
  segments : List String
  deriving DecidableEq, Repr, Inhabited

namespace Fqn

/-- What stands between two segments in the written form. -/
def separator : String := "::"

/-- The module under which built-in names are filed. -/
def builtinsModule : String := "builtins"

/-- The name without segments. -/
def empty : Fqn := ⟨[]⟩

/-- The name of one segment. -/
def root (module : String) : Fqn := ⟨[module]⟩

/-- The name of something built in. -/
def builtin (name : String) : Fqn := ⟨[builtinsModule, name]⟩

/-- Reads a written name: the trimmed, non-empty texts between double colons. -/
def parse (path : String) : Fqn :=
  ⟨Text.trimmedParts (Text.splitDoubleColon path.toList)⟩

/-- The written form. -/
def render (f : Fqn) : String := separator.intercalate f.segments

/-- The name one segment below. -/
def child (f : Fqn) (name : String) : Fqn := ⟨f.segments ++ [name]⟩

/-- The name some segments below. -/
def descendant (f : Fqn) (names : List String) : Fqn := ⟨f.segments ++ names⟩

/-- The enclosing name; a name of at most one segment has none. -/
def parent? (f : Fqn) : Option Fqn :=
  if f.segments.length ≤ 1 then none else some ⟨f.segments.dropLast⟩

/-- The last segment. -/
def name? (f : Fqn) : Option String := f.segments.getLast?

/-- The last segment, or nothing at all. -/
def nameText (f : Fqn) : String := f.name?.getD ""

/-- The number of segments. -/
def length (f : Fqn) : Nat := f.segments.length

/-- True if the name is `ancestor` or lies below it. -/
def liesAtOrBelow (f ancestor : Fqn) : Bool := ancestor.segments.isPrefixOf f.segments

/-- True if the name lies below `ancestor`. -/
def liesBelow (f ancestor : Fqn) : Bool := f.liesAtOrBelow ancestor && f ≠ ancestor

/-- True for a name of exactly two segments under the module of built-in names. -/
def isBuiltin (f : Fqn) : Bool :=
  match f.segments with
  | [module, _] => module = builtinsModule
  | _ => false

/-- Compares two lists of segments at their first difference; a proper initial part is smaller. -/
def compareSegments : List String → List String → Ordering
  | [], [] => .eq
  | [], _ :: _ => .lt
  | _ :: _, [] => .gt
  | a :: as, b :: bs => (compare a b).then (compareSegments as bs)

/-- The order of names. -/
def compare (f g : Fqn) : Ordering := compareSegments f.segments g.segments

/-- True if the first name does not come after the second. -/
def le (f g : Fqn) : Bool := (f.compare g).isLE

/-- A child has one segment more than its parent. -/
@[simp] theorem segments_child (f : Fqn) (name : String) :
    (f.child name).segments = f.segments ++ [name] := rfl

/-- A descendant has the segments of the names behind those of its ancestor. -/
@[simp] theorem segments_descendant (f : Fqn) (names : List String) :
    (f.descendant names).segments = f.segments ++ names := rfl

/-- A name one segment below has the name above as its parent, unless that one is empty. -/
theorem parent?_child {f : Fqn} (h : f.segments ≠ []) (name : String) :
    (f.child name).parent? = some f := by
  have : f.segments.length ≠ 0 := by simpa using h
  simp [parent?, child, this]

/-- The last segment of a child is the name it was given. -/
@[simp] theorem name?_child (f : Fqn) (name : String) : (f.child name).name? = some name := by
  simp [name?, child]

/-- Every name lies at or below itself. -/
theorem liesAtOrBelow_self (f : Fqn) : f.liesAtOrBelow f := by
  simp [liesAtOrBelow]

/-- What lies below a name lies at or below it. -/
theorem liesAtOrBelow_of_liesBelow {f ancestor : Fqn} (h : f.liesBelow ancestor) :
    f.liesAtOrBelow ancestor := by
  simp only [liesBelow, Bool.and_eq_true] at h
  exact h.1

/-- Nothing lies below itself. -/
theorem ne_of_liesBelow {f ancestor : Fqn} (h : f.liesBelow ancestor) : f ≠ ancestor := by
  simp only [liesBelow, Bool.and_eq_true, decide_eq_true_eq] at h
  exact h.2

/-- A name one segment below a name at or below an ancestor lies below the ancestor. -/
theorem liesBelow_child {f ancestor : Fqn} (h : f.liesAtOrBelow ancestor) (name : String) :
    (f.child name).liesBelow ancestor := by
  rw [liesAtOrBelow, List.isPrefixOf_iff_prefix] at h
  have hlen := h.length_le
  have hne : f.child name ≠ ancestor := fun e => by
    rw [← e, segments_child, List.length_append, List.length_singleton] at hlen
    omega
  rw [liesBelow, liesAtOrBelow, Bool.and_eq_true, List.isPrefixOf_iff_prefix]
  exact ⟨h.trans (List.prefix_append _ _), by simpa using hne⟩

/-- A child tells its parent and its own name. -/
theorem child_injective {f g : Fqn} {a b : String} (h : f.child a = g.child b) : f = g ∧ a = b := by
  have h' : f.segments ++ [a] = g.segments ++ [b] := congrArg segments h
  obtain ⟨h₁, h₂⟩ := List.append_inj' h' rfl
  cases f; cases g
  simp_all

end Fqn

end NameAtlas
