import NameAtlas.Proofs.Text.Split

/-!
# Splitting at double colons

The separator of names has two characters, so a text can hold half of one. The parts of a text make
it up again (`intercalate_splitDoubleColon`), none of them holds a double colon
(`not_doubled_of_mem_splitDoubleColon`), and none but the last ends in a colon
(`getLast?_ne_of_mem_dropLast`), since splitting takes the first two colons of a run. These two
conditions are all that is needed for joined parts to fall apart again
(`splitDoubleColon_intercalate`).

Trimming exposes the colons that blanks kept apart from a separator. What trimming keeps of the parts
never takes more room than the parts (`room_kept_le`), and takes as much only if nothing was trimmed
or dropped (`kept_eq_of_room_eq`). So a text that is joined from what trimming keeps of its parts has
just these parts (`splitDoubleColon_of_kept`).
-/

namespace NameAtlas.Text

/-- The separator of names, as characters. -/
abbrev doubleColon : List Char := [':', ':']

/-- True if a text holds a double colon. -/
def Doubled (cs : List Char) : Prop := doubleColon <:+: cs

/-! ### The parts -/

/-- A split gives at least one part. -/
theorem splitDoubleColon_ne_nil (cs : List Char) : splitDoubleColon cs ≠ [] := by
  fun_cases splitDoubleColon cs with
  | case1 => exact List.cons_ne_nil _ _
  | case2 cs => exact List.cons_ne_nil _ _
  | case3 c cs _ => cases splitDoubleColon cs <;> exact List.cons_ne_nil _ _

/-- The parts make up the text again. -/
theorem intercalate_splitDoubleColon (cs : List Char) :
    doubleColon.intercalate (splitDoubleColon cs) = cs := by
  -- The cases are those of the split: the end, a double colon, and a character that goes into the
  -- first part.
  fun_induction splitDoubleColon cs with
  | case1 => rfl
  | case2 cs ih =>
    rw [List.intercalate_cons_of_ne_nil (splitDoubleColon_ne_nil cs), ih]
    rfl
  | case3 c cs _ ih =>
    obtain ⟨first, rest, hparts⟩ := List.exists_cons_of_ne_nil (splitDoubleColon_ne_nil cs)
    rw [hparts] at ih ⊢
    rw [consFirst, ← ih]
    cases rest with
    | nil => simp
    | cons next rest => simp [List.intercalate_cons_cons]

/-- What the first part starts with, the text starts with. -/
theorem cons_of_splitDoubleColon {cs part : List Char} {c : Char} {rest : List (List Char)}
    (h : splitDoubleColon cs = (c :: part) :: rest) : ∃ ds, cs = c :: ds := by
  have hjoin := intercalate_splitDoubleColon cs
  rw [h] at hjoin
  cases rest with
  | nil => exact ⟨part, by rw [← hjoin, List.intercalate_singleton]⟩
  | cons next rest =>
    rw [List.intercalate_cons_cons] at hjoin
    exact ⟨part ++ doubleColon ++ doubleColon.intercalate (next :: rest), by rw [← hjoin]; simp⟩

/-- Where the first part is empty and others follow, the text starts with the separator. -/
theorem cons_cons_of_splitDoubleColon {cs : List Char} {next : List Char}
    {rest : List (List Char)} (h : splitDoubleColon cs = [] :: next :: rest) :
    ∃ ds, cs = ':' :: ':' :: ds := by
  have hjoin := intercalate_splitDoubleColon cs
  rw [h, List.intercalate_cons_cons] at hjoin
  exact ⟨_, hjoin.symm⟩

/-- No part holds a separator. -/
theorem not_doubled_of_mem_splitDoubleColon {cs part : List Char}
    (h : part ∈ splitDoubleColon cs) : ¬Doubled part := by
  -- The cases are those of the splitting: nothing left, two colons in front, or another character.
  fun_induction splitDoubleColon cs generalizing part with
  | case1 =>
    obtain rfl := List.mem_singleton.1 h
    simp [Doubled]
  | case2 cs ih =>
    rcases List.mem_cons.1 h with rfl | h
    · simp [Doubled]
    · exact ih h
  | case3 c cs hstart ih =>
    obtain ⟨first, rest, hparts⟩ := List.exists_cons_of_ne_nil (splitDoubleColon_ne_nil cs)
    rw [hparts, consFirst] at h
    rcases List.mem_cons.1 h with rfl | h
    · intro hdoubled
      rcases List.infix_cons_iff.1 hdoubled with hfront | hinside
      · -- Both colons would stand at the start of the text.
        obtain ⟨hc, hfirst⟩ := List.cons_prefix_cons.1 hfront
        obtain ⟨part, rfl⟩ : ∃ part, first = ':' :: part := by
          cases first with
          | nil => simp at hfirst
          | cons d part => exact ⟨part, by rw [(List.cons_prefix_cons.1 hfirst).1]⟩
        obtain ⟨ds, rfl⟩ := cons_of_splitDoubleColon hparts
        exact hstart ds hc.symm rfl
      · exact ih (hparts ▸ List.mem_cons_self) hinside
    · exact ih (hparts ▸ List.mem_cons_of_mem first h)

/-- No part but the last ends in a colon: with the separator behind it, that colon would have been
half of a separator that stands further left. -/
theorem getLast?_ne_of_mem_dropLast {cs part : List Char}
    (h : part ∈ (splitDoubleColon cs).dropLast) : part.getLast? ≠ some ':' := by
  fun_induction splitDoubleColon cs generalizing part with
  | case1 => simp at h
  | case2 cs ih =>
    rw [List.dropLast_cons_of_ne_nil (splitDoubleColon_ne_nil cs)] at h
    rcases List.mem_cons.1 h with rfl | h
    · simp
    · exact ih h
  | case3 c cs hstart ih =>
    obtain ⟨first, rest, hparts⟩ := List.exists_cons_of_ne_nil (splitDoubleColon_ne_nil cs)
    rw [hparts] at ih
    rw [hparts, consFirst] at h
    cases rest with
    | nil => simp at h
    | cons next rest =>
      rw [List.dropLast_cons_of_ne_nil (List.cons_ne_nil _ _)] at h ih
      rcases List.mem_cons.1 h with rfl | h
      · cases first with
        | nil =>
          -- The text goes on with the separator, so a colon in front would have come first.
          obtain ⟨ds, rfl⟩ := cons_cons_of_splitDoubleColon hparts
          intro hc
          obtain rfl : c = ':' := by simpa using hc
          exact hstart (':' :: ds) rfl rfl
        | cons d part =>
          rw [List.getLast?_cons_cons]
          exact ih List.mem_cons_self
      · exact ih (List.mem_cons_of_mem first h)

/-! ### Joined parts -/

/-- A text without a separator is one part. -/
theorem splitDoubleColon_of_not_doubled {part : List Char} (h : ¬Doubled part) :
    splitDoubleColon part = [part] := by
  fun_induction splitDoubleColon part with
  | case1 => rfl
  | case2 cs _ => exact absurd ⟨[], cs, rfl⟩ h
  | case3 c cs _ ih =>
    have hcs : ¬Doubled cs := fun hinside => h (List.infix_cons hinside)
    rw [ih hcs, consFirst]

/-- The first part ends where the separator stands for the first time, if it does not end in half of
one. -/
theorem splitDoubleColon_append {part : List Char} (h : ¬Doubled part)
    (hlast : part.getLast? ≠ some ':') (cs : List Char) :
    splitDoubleColon (part ++ ':' :: ':' :: cs) = part :: splitDoubleColon cs := by
  induction part with
  | nil => rw [List.nil_append, splitDoubleColon]
  | cons c part ih =>
    have hpart : ¬Doubled part := fun hinside => h (List.infix_cons hinside)
    -- The text does not start with a separator: the part would hold it, or end in half of it.
    have hstart : ∀ ds, c = ':' → part ++ ':' :: ':' :: cs ≠ ':' :: ds := by
      intro ds hc hds
      cases part with
      | nil => exact hlast (by rw [hc]; rfl)
      | cons d part =>
        obtain ⟨hd, -⟩ := List.cons.inj hds
        exact h ⟨[], part, by rw [hc, hd]; rfl⟩
    have hlast' : part.getLast? ≠ some ':' := by
      cases part with
      | nil => simp
      | cons d part => rwa [List.getLast?_cons_cons] at hlast
    rw [List.cons_append, splitDoubleColon.eq_3 c _ hstart, ih hpart hlast', consFirst]

/-- Joined parts fall apart again. -/
theorem splitDoubleColon_intercalate {parts : List (List Char)} (hne : parts ≠ [])
    (h : ∀ part ∈ parts, ¬Doubled part)
    (hlast : ∀ part ∈ parts.dropLast, part.getLast? ≠ some ':') :
    splitDoubleColon (doubleColon.intercalate parts) = parts := by
  induction parts with
  | nil => exact absurd rfl hne
  | cons part rest ih =>
    -- The first part holds no double colon and does not end in a colon, so the split takes off just
    -- this part.
    have hpart := h part List.mem_cons_self
    cases rest with
    | nil => rw [List.intercalate_singleton, splitDoubleColon_of_not_doubled hpart]
    | cons next rest =>
      rw [List.dropLast_cons_of_ne_nil (List.cons_ne_nil _ _)] at hlast
      have hrest := ih (List.cons_ne_nil _ _) (fun p hp => h p (List.mem_cons_of_mem part hp))
        fun p hp => hlast p (List.mem_cons_of_mem part hp)
      rw [List.intercalate_cons_cons, List.append_assoc, List.cons_append, List.cons_append,
        List.nil_append, splitDoubleColon_append hpart (hlast part List.mem_cons_self), hrest]

/-! ### Trimmed parts -/

/-- What trimming keeps of some parts: those that are not blank, without the blanks at their ends. -/
def kept (parts : List (List Char)) : List (List Char) :=
  (parts.map trim).filter fun part => part ≠ []

/-- How many characters some parts take up, each with a separator. -/
def room : List (List Char) → Nat
  | [] => 0
  | part :: rest => part.length + 2 + room rest

/-- Joined parts have one separator less. -/
theorem length_intercalate {parts : List (List Char)} (hne : parts ≠ []) :
    (doubleColon.intercalate parts).length + 2 = room parts := by
  induction parts with
  | nil => exact absurd rfl hne
  | cons part rest ih =>
    cases rest with
    | nil => simp [room]
    | cons next rest =>
      have hrest := ih (List.cons_ne_nil _ _)
      rw [List.intercalate_cons_cons, List.length_append, List.length_append, room, ← hrest]
      change part.length + 2 + _ + 2 = _
      omega

/-- Trimming makes nothing longer. -/
theorem length_trim_le (cs : List Char) : (trim cs).length ≤ cs.length :=
  (trim_isInfix cs).sublist.length_le

/-- A blank part is dropped. -/
theorem kept_cons_of_eq_nil {part : List Char} (h : trim part = []) (rest : List (List Char)) :
    kept (part :: rest) = kept rest := by
  rw [kept, List.map_cons, List.filter_cons_of_neg (by simpa using h), kept]

/-- A part that is not blank is kept, trimmed. -/
theorem kept_cons_of_ne_nil {part : List Char} (h : trim part ≠ []) (rest : List (List Char)) :
    kept (part :: rest) = trim part :: kept rest := by
  rw [kept, List.map_cons, List.filter_cons_of_pos (by simpa using h), kept]

/-- Trimming and dropping take up no room. -/
theorem room_kept_le (parts : List (List Char)) : room (kept parts) ≤ room parts := by
  induction parts with
  | nil => exact Nat.le_refl _
  | cons part rest ih =>
    have hlen := length_trim_le part
    by_cases hpart : trim part = []
    · rw [kept_cons_of_eq_nil hpart, room]
      omega
    · rw [kept_cons_of_ne_nil hpart, room, room]
      omega

/-- Where no room is lost, nothing is trimmed and no part is dropped. -/
theorem kept_eq_of_room_eq {parts : List (List Char)} (h : room (kept parts) = room parts) :
    kept parts = parts := by
  induction parts with
  | nil => rfl
  | cons part rest ih =>
    have hlen := length_trim_le part
    have hrest := room_kept_le rest
    by_cases hpart : trim part = []
    · -- A part that is dropped loses at least the room of its separator.
      rw [kept_cons_of_eq_nil hpart, room] at h
      omega
    · rw [kept_cons_of_ne_nil hpart, room, room] at h
      have htrim : trim part = part := (trim_isInfix part).sublist.eq_of_length (by omega)
      rw [kept_cons_of_ne_nil hpart, htrim, ih (by omega)]

/-- A text that is joined from what trimming keeps of its parts has just these parts. -/
theorem splitDoubleColon_of_kept {parts : List (List Char)} (hne : parts ≠ [])
    (h : kept (splitDoubleColon (doubleColon.intercalate parts)) = parts) :
    splitDoubleColon (doubleColon.intercalate parts) = parts := by
  have hroom : room (kept (splitDoubleColon (doubleColon.intercalate parts))) =
      room (splitDoubleColon (doubleColon.intercalate parts)) := by
    rw [h, ← length_intercalate hne, ← length_intercalate (splitDoubleColon_ne_nil _),
      intercalate_splitDoubleColon]
  exact (kept_eq_of_room_eq hroom).symm.trans h

end NameAtlas.Text
