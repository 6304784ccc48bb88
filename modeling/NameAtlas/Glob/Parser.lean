import NameAtlas.Glob.Pattern

/-!
# Reading globs

The reader goes through a glob once. It keeps the tokens of the branch that it is in, newest first,
the groups that are open around it, and the character in front: two stars are about directories only
at the front of a branch or behind a slash, and only if a slash or the end comes next.
-/

namespace NameAtlas.Glob

/-- Why a text is no glob. -/
inductive ParseError where
  /-- A class is not closed. -/
  | unclosedClass
  /-- A range ends in front of its start. -/
  | invalidRange (low high : Char)
  /-- A group is closed that was not opened. -/
  | unopenedGroup
  /-- A group is not closed. -/
  | unclosedGroup
  /-- A backslash stands at the end. -/
  | danglingEscape
  deriving DecidableEq, Repr, Inhabited

/-- The text of an error. -/
def ParseError.message : ParseError → String
  | .unclosedClass => "unclosed character class; missing ']'"
  | .invalidRange low high => "invalid range; '" ++ low.toString ++ "' > '" ++ high.toString ++ "'"
  | .unopenedGroup => "unopened alternate group; missing '\x7b' (maybe escape '\x7d' with '[\x7d]'?)"
  | .unclosedGroup => "unclosed alternate group; missing '\x7d' (maybe escape '\x7b' with '[\x7b]'?)"
  | .danglingEscape => "dangling '\\'"

/-! ### Classes -/

/-- The inside of a class behind its opening bracket: whether it is negated, its characters and the
rest of the glob. The first character never closes the class. -/
def classBody? (cs : List Char) : Option (Bool × List Char × List Char) :=
  let negated := cs.head? = some '!' || cs.head? = some '^'
  match if negated then cs.tail else cs with
  | [] => none
  | c :: more =>
    match more.dropWhile (· ≠ ']') with
    | [] => none
    | _ :: rest => some (negated, c :: more.takeWhile (· ≠ ']'), rest)

/-- A class takes up characters, so parsing goes on with fewer of them. -/
theorem length_of_classBody? {cs body rest : List Char} {negated : Bool}
    (h : classBody? cs = some (negated, body, rest)) : rest.length < cs.length := by
  simp only [classBody?] at h
  split at h
  · simp at h
  · next c more hc =>
    -- The rest begins behind the first character, and `dropWhile` only takes more away.
    have hlen : more.length < cs.length := by
      have : (c :: more).length ≤ cs.length := by
        rw [← hc]; split <;> simp
      simp only [List.length_cons] at this
      omega
    split at h
    · simp at h
    · next d rest' hd =>
      obtain ⟨-, -, rfl⟩ : _ ∧ _ ∧ rest' = rest := by simpa using h
      have := (List.dropWhile_sublist (· ≠ ']') (l := more)).length_le
      rw [hd] at this
      simp only [List.length_cons] at this
      omega

/-- Ends the newest range at a character. -/
def extend (c : Char) : List (Char × Char) → Except ParseError (List (Char × Char))
  | [] => .ok []
  | (low, _) :: rest => if c < low then .error (.invalidRange low c) else .ok ((low, c) :: rest)

/-- The ranges of the characters of a class behind the first one, in front of the ranges so far. A
dash between two characters makes a range of them; one at the end is itself. -/
def rangesFrom (ranges : List (Char × Char)) (dashed : Bool) :
    List Char → Except ParseError (List (Char × Char))
  | [] => .ok (if dashed then ('-', '-') :: ranges else ranges)
  | c :: cs =>
    if dashed then do rangesFrom (← extend c ranges) false cs
    else if c = '-' then rangesFrom ranges true cs
    else rangesFrom ((c, c) :: ranges) false cs

/-- The ranges of the characters of a class. -/
def classRanges : List Char → Except ParseError (List (Char × Char))
  | [] => .ok []
  | c :: cs => rangesFrom [(c, c)] false cs

/-! ### Stars -/

/-- The branch behind two stars that are about directories, and nothing if they are only two stars.
They take the place of the slash in front of them, and add nothing to such stars just before. -/
def directories? (grouped : Bool) (branch : List Token) (before next : Option Char) :
    Option (List Token) :=
  match branch with
  | [] => if next = none ∨ next = some '/' then some [.leadingDirectories] else none
  | last :: earlier =>
    let opens := before = some '/' ∨ (grouped ∧ (before = some ',' ∨ before = some '\x7b'))
    let closes := next = none ∨ (grouped ∧ (next = some ',' ∨ next = some '\x7d'))
    if ¬opens ∨ ¬(closes ∨ next = some '/') then none
    else
      match last with
      | .leadingDirectories => some (.leadingDirectories :: earlier)
      | .trailingDirectories => some (.trailingDirectories :: earlier)
      | _ => some ((if closes then .trailingDirectories else .innerDirectories) :: earlier)

/-! ### Globs -/

/-- A group that is open. -/
structure OpenGroup where
  /-- The tokens in front of the group, newest first. -/
  earlier : List Token
  /-- The branches that are complete, newest first. -/
  branches : List (List Token)

/-- Reads on behind the character `before`, inside the open groups and a branch. -/
def read (groups : List OpenGroup) (branch : List Token) (before : Option Char) (cs : List Char) :
    Except ParseError (List Token) :=
  match cs with
  | [] => if groups.isEmpty then .ok branch.reverse else .error .unclosedGroup
  | '?' :: rest => read groups (.anyByte :: branch) (some '?') rest
  | '*' :: '*' :: rest =>
    match directories? (!groups.isEmpty) branch before rest.head? with
    | some branch =>
      -- The slash behind the stars is part of what they stand for.
      if rest.head? = some '/' then read groups branch (some '/') rest.tail
      else read groups branch (some '*') rest
    | none => read groups (.anyBytes :: .anyBytes :: branch) (some '*') rest
  | '*' :: rest => read groups (.anyBytes :: branch) (some '*') rest
  | '[' :: rest =>
    match h : classBody? rest with
    | none => .error .unclosedClass
    | some (negated, body, behind) =>
      have := length_of_classBody? h
      match classRanges body with
      | .ok ranges => read groups (.charClass negated ranges.reverse :: branch) (some ']') behind
      | .error e => .error e
  | '\x7b' :: rest => read (⟨branch, []⟩ :: groups) [] (some '\x7b') rest
  | '\x7d' :: rest =>
    match groups with
    | [] => .error .unopenedGroup
    | g :: outer =>
      read outer (.oneOf (branch.reverse :: g.branches).reverse :: g.earlier) (some '\x7d') rest
  | ',' :: rest =>
    match groups with
    | [] => read [] (.literal ',' :: branch) (some ',') rest
    | g :: outer => read ({ g with branches := branch.reverse :: g.branches } :: outer) [] (some ',') rest
  | '\\' :: rest =>
    match rest with
    | [] => .error .danglingEscape
    | c :: rest => read groups (.literal c :: branch) (some c) rest
  | c :: rest => read groups (.literal c :: branch) (some c) rest
  termination_by cs.length
  decreasing_by all_goals simp_all <;> omega

end Glob

/-- Reads a glob. -/
def Glob.parse (pattern : String) : Except Glob.ParseError Glob :=
  (Glob.read [] [] none pattern.toList).map Glob.mk

end NameAtlas
