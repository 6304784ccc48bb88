/-!
# Spans and locations

A span is a half-open interval of byte offsets, a location a span with the line and column of its
start. Locations are compared by their span alone, so two of them at one place compare equal
whatever line and column they carry.
-/

namespace NameAtlas

/-- The bytes from `start` up to, and without, `stop`. -/
structure Span where
  /-- The first byte. -/
  start : Nat
  /-- The byte after the last one. -/
  stop : Nat
  deriving DecidableEq, Repr, Inhabited

namespace Span

/-- The refusal of a span that ends before it starts. -/
def reversedMessage (start stop : Nat) : String :=
  s!"Span start ({start}) must be <= end ({stop})"

/-- Makes a span, or says why the two offsets make none. -/
def ofBounds (start stop : Nat) : Except String Span :=
  if start ≤ stop then .ok ⟨start, stop⟩ else .error (reversedMessage start stop)

/-- The number of bytes covered. -/
def length (s : Span) : Nat := s.stop - s.start

/-- True if both ends are one offset. -/
def isEmpty (s : Span) : Bool := s.start = s.stop

/-- True if the other span lies within this one. -/
def contains (s other : Span) : Bool := s.start ≤ other.start && other.stop ≤ s.stop

/-- The order of spans: by start, then by end. -/
def compare (a b : Span) : Ordering :=
  (Ord.compare a.start b.start).then (Ord.compare a.stop b.stop)

/-- Two spans compare as equal only if they are the same. -/
theorem compare_eq_eq_iff {a b : Span} : a.compare b = .eq ↔ a = b := by
  cases a; cases b
  simp [compare, Ordering.then_eq_eq]

end Span

/-- A place in a source file. -/
structure Location where
  /-- The bytes covered. -/
  span : Span
  /-- The line of the first byte, counted from 1. -/
  line : Nat
  /-- The column of the first byte in bytes, counted from 1. -/
  col : Nat
  deriving DecidableEq, Repr, Inhabited

namespace Location

/-- The order of locations is the order of their spans. -/
def compare (a b : Location) : Ordering := a.span.compare b.span

/-- True if the first location does not come after the second. -/
def le (a b : Location) : Bool := (a.compare b).isLE

/-- Locations are in order by their starts, and where these are equal by their ends. -/
theorem le_iff {a b : Location} : a.le b ↔ a.span.start < b.span.start ∨
    (a.span.start = b.span.start ∧ a.span.stop ≤ b.span.stop) := by
  unfold le compare Span.compare
  rw [Ordering.isLE_then_iff_or, Nat.compare_eq_lt, Nat.compare_eq_eq, Nat.isLE_compare]

/-- True if the first location does not start after the second. -/
def startsNoLater (a b : Location) : Bool := a.span.start ≤ b.span.start

/-- Line and column with a colon between them. -/
def render (l : Location) : String := s!"{l.line}:{l.col}"

end Location

/-- The number of a file in an index, counted from 0 in supply order. -/
structure FileId where
  /-- The position of the file. -/
  position : Nat
  deriving DecidableEq, Repr, Inhabited

/-- The number of a scope in an index, counted from 0 file by file. -/
structure ScopeId where
  /-- The position of the scope. -/
  position : Nat
  deriving DecidableEq, Repr, Inhabited

/-- The written form of a file number. -/
def FileId.render (id : FileId) : String := s!"file_{id.position}"

/-- The written form of a scope number. -/
def ScopeId.render (id : ScopeId) : String := s!"scope_{id.position}"

end NameAtlas
