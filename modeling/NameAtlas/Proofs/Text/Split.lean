import NameAtlas.Text.Split

/-!
# Splitting what was joined

A text that is joined with a separator falls into its parts again, if none of them holds the
separator (`splitAt_intercalate`), the parts of a text make it up again (`intercalate_splitAt`), and
parts that are trimmed words survive trimming (`trimmedParts_map_toList`). So the names of a path can
be read off the path.
-/

namespace NameAtlas.Text

/-! ### Splitting -/

/-- The first part ends where the separator stands for the first time. -/
theorem splitAt_append_cons {sep : Char} {part : List Char} (h : sep ∉ part) (cs : List Char) :
    splitAt sep (part ++ sep :: cs) = part :: splitAt sep cs := by
  induction part with
  | nil => simp [splitAt]
  | cons c part ih =>
    have hc : c ≠ sep := fun heq => h (heq ▸ List.mem_cons_self)
    have hpart : sep ∉ part := fun hmem => h (List.mem_cons_of_mem c hmem)
    rw [List.cons_append, splitAt, if_neg hc, ih hpart, consFirst]

/-- A text without the separator is one part. -/
theorem splitAt_of_not_mem {sep : Char} {part : List Char} (h : sep ∉ part) :
    splitAt sep part = [part] := by
  induction part with
  | nil => rfl
  | cons c part ih =>
    have hc : c ≠ sep := fun heq => h (heq ▸ List.mem_cons_self)
    have hpart : sep ∉ part := fun hmem => h (List.mem_cons_of_mem c hmem)
    rw [splitAt, if_neg hc, ih hpart, consFirst]

/-- Joined parts fall apart again. -/
theorem splitAt_intercalate {sep : Char} {parts : List (List Char)} (hne : parts ≠ [])
    (h : ∀ part ∈ parts, sep ∉ part) : splitAt sep ([sep].intercalate parts) = parts := by
  induction parts with
  | nil => exact absurd rfl hne
  | cons part rest ih =>
    have hpart := h part List.mem_cons_self
    cases rest with
    | nil => rw [List.intercalate_singleton, splitAt_of_not_mem hpart]
    | cons next rest =>
      have hrest := ih (List.cons_ne_nil _ _) fun p hp => h p (List.mem_cons_of_mem part hp)
      rw [List.intercalate_cons_cons, List.append_assoc, List.singleton_append,
        splitAt_append_cons hpart, hrest]

/-- A split gives at least one part. -/
theorem splitAt_ne_nil (sep : Char) (cs : List Char) : splitAt sep cs ≠ [] := by
  cases cs with
  | nil => exact List.cons_ne_nil _ _
  | cons c cs =>
    rw [splitAt]
    split
    · exact List.cons_ne_nil _ _
    · cases splitAt sep cs <;> exact List.cons_ne_nil _ _

/-- A character goes into the first part, whatever comes behind. -/
theorem consFirst_append (c : Char) {parts : List (List Char)} (hne : parts ≠ [])
    (more : List (List Char)) : consFirst c (parts ++ more) = consFirst c parts ++ more := by
  cases parts with
  | nil => exact absurd rfl hne
  | cons part parts => rfl

/-- The parts around a separator are those in front of it and those behind it. -/
theorem splitAt_append_sep (sep : Char) (cs ds : List Char) :
    splitAt sep (cs ++ sep :: ds) = splitAt sep cs ++ splitAt sep ds := by
  induction cs with
  | nil => simp [splitAt]
  | cons c cs ih =>
    by_cases hc : c = sep
    · rw [List.cons_append, splitAt, splitAt, if_pos hc, if_pos hc, ih, List.cons_append]
    · rw [List.cons_append, splitAt, splitAt, if_neg hc, if_neg hc, ih,
        consFirst_append c (splitAt_ne_nil sep cs)]

/-- The parts do not hold the separator. -/
theorem not_mem_of_mem_splitAt {sep : Char} {cs part : List Char} (h : part ∈ splitAt sep cs) :
    sep ∉ part := by
  induction cs generalizing part with
  | nil =>
    obtain rfl := List.mem_singleton.1 h
    exact List.not_mem_nil
  | cons c cs ih =>
    -- A separator begins a new part, and every other character goes into the first one.
    rw [splitAt] at h
    split at h
    · rcases List.mem_cons.1 h with rfl | h
      · exact List.not_mem_nil
      · exact ih h
    · next hc =>
      cases hparts : splitAt sep cs with
      | nil => exact absurd hparts (splitAt_ne_nil sep cs)
      | cons first rest =>
        rw [hparts, consFirst] at h
        rcases List.mem_cons.1 h with rfl | h
        · intro hmem
          rcases List.mem_cons.1 hmem with heq | hmem
          · exact hc heq.symm
          · exact ih (hparts ▸ List.mem_cons_self) hmem
        · exact ih (hparts ▸ List.mem_cons_of_mem first h)

/-- The parts hold what the text holds, but for the separator. -/
theorem mem_iff_mem_splitAt {sep c : Char} (hne : c ≠ sep) (cs : List Char) :
    c ∈ cs ↔ ∃ part ∈ splitAt sep cs, c ∈ part := by
  induction cs with
  | nil => simp [splitAt]
  | cons d cs ih =>
    rw [List.mem_cons, ih, splitAt]
    split
    · next hd => simp [hd, hne]
    · obtain ⟨first, rest, hparts⟩ := List.exists_cons_of_ne_nil (splitAt_ne_nil sep cs)
      rw [hparts, consFirst]
      simp only [List.mem_cons, exists_eq_or_imp, or_assoc]

/-- The parts make up the text again. -/
theorem intercalate_splitAt (sep : Char) (cs : List Char) :
    [sep].intercalate (splitAt sep cs) = cs := by
  induction cs with
  | nil => rfl
  -- Behind each character the text splits into at least one part, which takes it up or stands
  -- behind it.
  | cons c cs ih =>
    obtain ⟨first, rest, hparts⟩ := List.exists_cons_of_ne_nil (splitAt_ne_nil sep cs)
    rw [hparts] at ih
    rw [splitAt, hparts]
    split
    · next hc => rw [List.intercalate_cons_cons, ih, hc]; rfl
    · rw [consFirst]
      cases rest with
      | nil =>
        rw [List.intercalate_singleton] at ih ⊢
        rw [ih]
      | cons next rest =>
        rw [List.intercalate_cons_cons] at ih ⊢
        rw [← ih]
        rfl

/-! ### Trimming -/

/-- True for a text that neither starts nor ends with a blank. -/
structure Trimmed (cs : List Char) : Prop where
  /-- The first character is no blank. -/
  front : ∀ c ∈ cs.head?, isBlank c = false
  /-- The last character is no blank. -/
  back : ∀ c ∈ cs.getLast?, isBlank c = false

instance (cs : List Char) : Decidable (Trimmed cs) :=
  decidable_of_iff (cs.head?.any isBlank = false ∧ cs.getLast?.any isBlank = false)
    ⟨fun h => ⟨(Option.any_eq_false _ _).1 h.1, (Option.any_eq_false _ _).1 h.2⟩,
      fun h => ⟨(Option.any_eq_false _ _).2 h.front, (Option.any_eq_false _ _).2 h.back⟩⟩

/-- A text without blanks has none at its ends. -/
theorem Trimmed.of_forall {cs : List Char} (h : ∀ c ∈ cs, isBlank c = false) : Trimmed cs :=
  ⟨fun c hc => h c (List.mem_of_head? hc), fun c hc => h c (List.mem_of_getLast? hc)⟩

/-- A text that does not begin with a blank is not trimmed in front. -/
theorem trimLeft_of_front {cs : List Char} (h : ∀ c ∈ cs.head?, isBlank c = false) :
    trimLeft cs = cs := by
  cases cs with
  | nil => rfl
  | cons c cs => rw [trimLeft, List.dropWhile_cons, h c rfl]; rfl

/-- A text that is trimmed in front does not begin with a blank. -/
theorem front_trimLeft (cs : List Char) : ∀ c ∈ (trimLeft cs).head?, isBlank c = false := by
  intro c hc
  have hfirst := List.head?_dropWhile_not isBlank cs
  rw [trimLeft, Option.mem_def] at hc
  rw [hc] at hfirst
  simpa using hfirst

/-- A text that does not end in a blank is not trimmed at its end. -/
theorem trimRight_of_back {cs : List Char} (h : ∀ c ∈ cs.getLast?, isBlank c = false) :
    trimRight cs = cs := by
  induction cs with
  | nil => rfl
  | cons c cs ih =>
    -- What is last in a longer text is last in its rest.
    cases cs with
    | nil =>
      have hc := h c rfl
      rw [trimRight, trimRight, hc]
      rfl
    | cons d ds =>
      rw [List.getLast?_cons_cons] at h
      rw [trimRight, ih h]

/-- A text that is trimmed at its end does not end in a blank. -/
theorem back_trimRight (cs : List Char) : ∀ c ∈ (trimRight cs).getLast?, isBlank c = false := by
  induction cs with
  | nil => exact fun c hc => nomatch hc
  | cons d cs ih =>
    rw [trimRight]
    -- If the rest is blank, the character decides alone; otherwise the rest goes on behind it.
    cases hrest : trimRight cs with
    | nil =>
      cases hd : isBlank d with
      | true => exact fun c hc => nomatch hc
      | false =>
        intro c hc
        obtain rfl : d = c := by simpa using hc
        exact hd
    | cons e es =>
      rw [hrest] at ih
      simpa only [List.getLast?_cons_cons] using ih

/-- A text that is trimmed at its end is the start of the text. -/
theorem trimRight_isPrefix (cs : List Char) : trimRight cs <+: cs := by
  induction cs with
  | nil => exact List.prefix_refl _
  | cons c cs ih =>
    rw [trimRight]
    cases hrest : trimRight cs with
    | nil =>
      cases isBlank c with
      | true => exact List.nil_prefix
      | false => exact List.cons_prefix_cons.2 ⟨rfl, List.nil_prefix⟩
    | cons d ds => exact List.cons_prefix_cons.2 ⟨rfl, hrest ▸ ih⟩

/-- Trimming leaves a piece of the text. -/
theorem trim_isInfix (cs : List Char) : trim cs <:+: cs :=
  (trimRight_isPrefix _).isInfix.trans (List.dropWhile_suffix isBlank).isInfix

/-- Trimming leaves no blank at either end. -/
theorem trimmed_trim (cs : List Char) : Trimmed (trim cs) := by
  refine ⟨fun c hc => front_trimLeft cs c ?_, back_trimRight (trimLeft cs)⟩
  -- What is left at the front is trimmed there, and the back is taken from behind it.
  obtain ⟨blanks, hblanks⟩ := trimRight_isPrefix (trimLeft cs)
  rw [Option.mem_def] at hc ⊢
  rw [← hblanks, List.head?_append]
  change (trim cs).head?.or _ = _
  rw [hc]
  rfl

/-- Where nothing is blank at the ends, nothing is trimmed. -/
theorem trim_of_trimmed {cs : List Char} (h : Trimmed cs) : trim cs = cs := by
  rw [trim, trimLeft_of_front h.front, trimRight_of_back h.back]

/-- Blanks at the end do not matter. -/
theorem trimRight_append_of_forall (cs : List Char) {blanks : List Char}
    (h : ∀ c ∈ blanks, isBlank c = true) : trimRight (cs ++ blanks) = trimRight cs := by
  induction cs with
  | nil =>
    induction blanks with
    | nil => rfl
    | cons c blanks ih =>
      have hrest : trimRight blanks = [] := ih fun d hd => h d (List.mem_cons_of_mem c hd)
      change trimRight (c :: blanks) = []
      rw [trimRight, hrest, h c List.mem_cons_self]
      rfl
  | cons c cs ih => rw [List.cons_append, trimRight, ih, trimRight]

/-- Trimming takes away the blanks around a trimmed text, and nothing else. -/
theorem trim_padded {front cs back : List Char} (hfront : ∀ c ∈ front, isBlank c = true)
    (hcs : Trimmed cs) (hback : ∀ c ∈ back, isBlank c = true) :
    trim (front ++ cs ++ back) = cs := by
  have hleft : trimLeft (front ++ cs ++ back) = trimLeft (cs ++ back) := by
    rw [trimLeft, List.append_assoc, List.dropWhile_append_of_pos hfront, trimLeft]
  -- Blanks in front go first, and those behind go with them if there is nothing in between.
  cases cs with
  | nil =>
    have hnone : trimLeft ([] ++ back) = [] := by
      have hdrop : (back ++ []).dropWhile isBlank = [] := List.dropWhile_append_of_pos hback
      rwa [List.append_nil] at hdrop
    rw [trim, hleft, hnone]
    rfl
  | cons c cs =>
    have hstart : trimLeft (c :: cs ++ back) = c :: cs ++ back := trimLeft_of_front hcs.front
    rw [trim, hleft, hstart, trimRight_append_of_forall _ hback, trimRight_of_back hcs.back]

/-! ### Trimmed parts -/

/-- The trimmed parts as texts. -/
theorem map_toList_trimmedParts (parts : List (List Char)) :
    (trimmedParts parts).map String.toList = (parts.map trim).filter fun part => part ≠ [] := by
  induction parts with
  | nil => rfl
  | cons part parts ih =>
    rw [trimmedParts] at ih ⊢
    by_cases hpart : trim part = []
    · rw [List.map_cons, hpart, List.filterMap_cons_none rfl, ih]
      rfl
    · rw [List.map_cons, List.filterMap_cons, if_neg hpart, List.map_cons, String.toList_ofList, ih,
        List.filter_cons_of_pos (by simpa using hpart)]

/-- Words that are neither empty nor blank at an end are parts as they stand. -/
theorem trimmedParts_map_toList {words : List String}
    (h : ∀ word ∈ words, word ≠ "" ∧ Trimmed word.toList) :
    trimmedParts (words.map String.toList) = words := by
  induction words with
  | nil => rfl
  | cons word words ih =>
    obtain ⟨hne, hends⟩ := h word List.mem_cons_self
    have hword : word.toList ≠ [] := by simpa using hne
    have hrest := ih fun w hw => h w (List.mem_cons_of_mem word hw)
    rw [trimmedParts] at hrest ⊢
    rw [List.map_cons, List.map_cons, List.filterMap_cons, trim_of_trimmed hends, if_neg hword,
      hrest, String.ofList_toList]

end NameAtlas.Text
