import NameAtlas.Annotate
import NameAtlas.Proofs.Text.Split

/-!
# Annotated sources taken apart

Behind each line of a source stand the comments for it: one for each finding, one for each symbol
besides the module, and one for all its references (`comments`). As many lines behind each line of
the source are dropped (`takeApart`), and what is left is the source again: the facts do not hide
where its lines are, and every fact that lies on a line of the source is in one comment behind that
line (`annotate_interleaves`). That comments are lines is what `FileFacts.OneLine` is for.
-/

namespace NameAtlas

/-- Facts that can be written on one line. -/
structure FileFacts.OneLine (facts : FileFacts) : Prop where
  /-- No message breaks the line. -/
  messages : ∀ f ∈ facts.findings, '\n' ∉ f.message.toList
  /-- No name does. -/
  names : ∀ d ∈ facts.declarations, '\n' ∉ d.fqn.nameText.toList
  /-- No type does. -/
  types : ∀ d ∈ facts.declarations, '\n' ∉ d.type.render.toList
  /-- No target does. -/
  targets : ∀ r ∈ facts.references, '\n' ∉ r.target.render.toList

instance (facts : FileFacts) : Decidable facts.OneLine :=
  decidable_of_iff
    ((∀ f ∈ facts.findings, '\n' ∉ f.message.toList) ∧
      (∀ d ∈ facts.declarations, '\n' ∉ d.fqn.nameText.toList) ∧
      (∀ d ∈ facts.declarations, '\n' ∉ d.type.render.toList) ∧
      ∀ r ∈ facts.references, '\n' ∉ r.target.render.toList)
    ⟨fun ⟨messages, names, types, targets⟩ => ⟨messages, names, types, targets⟩,
      fun ⟨messages, names, types, targets⟩ => ⟨messages, names, types, targets⟩⟩

/-! ### Lines -/

namespace Text

/-- No line holds a line feed. -/
theorem not_mem_of_mem_lines {text line : List Char} (h : line ∈ lines text) : '\n' ∉ line := by
  -- The cases are those of `lines`: only a character that is no newline goes into a line.
  fun_induction lines text generalizing line with
  | case1 => exact absurd h List.not_mem_nil
  | case2 rest ih =>
    obtain rfl | h := List.mem_cons.1 h
    · exact List.not_mem_nil
    · exact ih h
  | case3 rest ih =>
    obtain rfl | h := List.mem_cons.1 h
    · exact List.not_mem_nil
    · exact ih h
  | case4 c rest hfeed _ hlines ih =>
    obtain rfl := List.mem_singleton.1 h
    rw [List.mem_singleton]
    exact fun heq => hfeed heq.symm
  | case5 c rest hfeed _ first more hlines ih =>
    obtain rfl | h := List.mem_cons.1 h
    · have hfirst := ih (hlines ▸ List.mem_cons_self)
      exact fun hmem => (List.mem_cons.1 hmem).elim (fun heq => hfeed heq.symm) hfirst
    · exact ih (hlines ▸ List.mem_cons_of_mem first h)

/-- Lines that are written each with a line feed behind it are the parts between the line feeds,
up to an empty one at the end. -/
theorem splitAt_flatMap_concat {sep : Char} {lines : List (List Char)} (h : ∀ l ∈ lines, sep ∉ l) :
    splitAt sep (lines.flatMap fun l => l ++ [sep]) = lines ++ [[]] := by
  induction lines with
  | nil => rfl
  | cons l rest ih =>
    have hl : sep ∉ l := h l List.mem_cons_self
    have hrest := ih fun l' hl' => h l' (List.mem_cons_of_mem l hl')
    rw [List.flatMap_cons, List.append_assoc, List.singleton_append, splitAt_append_cons hl, hrest,
      List.cons_append]

/-- A character that stands in no part and not in the separator does not stand in the joined
text. -/
theorem not_mem_intercalate {c : Char} {sep : List Char} (hsep : c ∉ sep)
    {parts : List (List Char)} (h : ∀ part ∈ parts, c ∉ part) : c ∉ sep.intercalate parts := by
  induction parts with
  | nil => exact List.not_mem_nil
  | cons part rest ih =>
    have hpart := h part List.mem_cons_self
    cases rest with
    | nil => rwa [List.intercalate_singleton]
    | cons next rest =>
      have hrest := ih fun p hp => h p (List.mem_cons_of_mem part hp)
      rw [List.intercalate_cons_cons, List.mem_append, List.mem_append]
      exact fun hmem => hmem.elim (fun hmem => hmem.elim hpart hsep) hrest

end Text

namespace Annotate

/-- Takes a list apart into the lines of a source and what stands behind each: the line with number
`i` has `count i` entries behind it. -/
def takeApart {α : Type} (count : Nat → Nat) (i : Nat) : List α → List (α × List α)
  | [] => []
  | l :: rest =>
    (l, rest.take (count i)) :: takeApart count (i + 1) (rest.drop (count i))
termination_by ls => ls.length
decreasing_by simp only [List.length_drop, List.length_cons]; omega

/-- Entries that were put behind a line are taken from there. -/
theorem takeApart_cons_append {α : Type} {count : Nat → Nat} {i : Nat} (l : α) {behind : List α}
    (h : behind.length = count i) (rest : List α) :
    takeApart count i (l :: behind ++ rest) = (l, behind) :: takeApart count (i + 1) rest := by
  rw [List.cons_append, takeApart, ← h, List.take_left, List.drop_left]

/-! ### Facts by lines -/

variable (facts : FileFacts) (line : Nat)

/-- The findings on a line. -/
def findingsOn : List Finding := facts.findings.filter fun f => f.location.line = line

/-- The symbols on a line, without the module. -/
def symbolsOn : List Declaration :=
  facts.declarations.filter fun d => d.kind ≠ .module ∧ d.location.line = line

/-- The references on a line. -/
def referencesOn : List Reference := facts.references.filter fun r => r.location.line = line

/-- How many comments a line has: one for each finding, one for each symbol, and one if there are
references. -/
def commentCount : Nat :=
  (findingsOn facts line).length + (symbolsOn facts line).length +
    if 0 < (referencesOn facts line).length then 1 else 0

/-- The texts of the comments on a line: the findings, the symbols, and all references in one. -/
def comments : List String :=
  (findingsOn facts line).map findingNote ++ (symbolsOn facts line).filterMap symbolNote? ++
    if 0 < (referencesOn facts line).length then
      [" ".intercalate ((referencesOn facts line).map referenceNote)]
    else []

/-- Every symbol has a note but that of the module. -/
theorem isSome_symbolNote?_iff (d : Declaration) : (symbolNote? d).isSome ↔ d.kind ≠ .module := by
  rw [symbolNote?]
  cases d.kind <;> simp

/-- The module has no comment, so leaving it out beforehand changes nothing. -/
theorem symbolNotes_eq : symbolNotes facts line = (symbolsOn facts line).filterMap symbolNote? := by
  rw [symbolNotes, symbolsOn]
  induction facts.declarations with
  | nil => rfl
  | cons d rest ih =>
    have hnote : d.kind = .module → symbolNote? d = none := fun h =>
      Option.not_isSome_iff_eq_none.1 fun hsome => (isSome_symbolNote?_iff d).1 hsome h
    by_cases hline : d.location.line = line <;> by_cases hkind : d.kind = .module <;>
      simp [hline, hkind, hnote, ih, List.filterMap_cons]

/-- All references of a line share one note, if there are any. -/
theorem referenceNotes_eq : referenceNotes facts line =
    if 0 < (referencesOn facts line).length then
      [" ".intercalate ((referencesOn facts line).map referenceNote)]
    else [] := by
  have hfilter : facts.references.filter (fun r => r.location.line = line) =
      referencesOn facts line := rfl
  rw [referenceNotes, hfilter]
  cases referencesOn facts line <;> rfl

/-- The notes of a line are its comments. -/
theorem notes_eq_comments : notes facts line = comments facts line := by
  rw [notes, symbolNotes_eq, referenceNotes_eq]
  rfl

/-- A line has as many comments as the count says. -/
theorem length_comments : (comments facts line).length = commentCount facts line := by
  have hsymbols : ((symbolsOn facts line).filterMap symbolNote?).length =
      (symbolsOn facts line).length := by
    rw [List.length_filterMap_eq_countP, List.countP_eq_length]
    intro d hd
    exact (isSome_symbolNote?_iff d).2 (of_decide_eq_true (List.mem_filter.1 hd).2).1
  rw [comments, commentCount, List.length_append, List.length_append, List.length_map, hsymbols]
  split <;> rfl

/-! ### Comments are lines -/

section OneLine

variable {facts}

/-- The note of a finding is one line if its message is. -/
theorem not_mem_findingNote (h : facts.OneLine) {f : Finding} (hf : f ∈ facts.findings) :
    '\n' ∉ (findingNote f).toList := by
  have hcode : '\n' ∉ f.code.name.toList := by cases f.code <;> decide
  have hmessage := h.messages f hf
  simp [findingNote, toString, hcode, hmessage]

/-- The note of a symbol is one line if its name and type are. -/
theorem not_mem_symbolNote (h : facts.OneLine) {d : Declaration} (hd : d ∈ facts.declarations)
    {note : String} (hnote : symbolNote? d = some note) : '\n' ∉ note.toList := by
  have hname := h.names d hd
  have htype := h.types d hd
  rw [symbolNote?] at hnote
  cases hkind : d.kind <;> rw [hkind] at hnote <;> cases hnote <;>
    simp [toString, hname, htype]

/-- The note of a reference is one line if its target is. -/
theorem not_mem_referenceNote (h : facts.OneLine) {r : Reference} (hr : r ∈ facts.references) :
    '\n' ∉ (referenceNote r).toList := by
  have hkind : '\n' ∉ r.kind.name.toList := by cases r.kind <;> decide
  have htarget := h.targets r hr
  simp [referenceNote, hkind, htarget]

/-- No comment holds a line feed. -/
theorem not_mem_of_mem_comments (h : facts.OneLine) {note : String}
    (hnote : note ∈ comments facts line) : '\n' ∉ note.toList := by
  rw [comments, List.mem_append, List.mem_append] at hnote
  -- A comment is the note of a finding, of a symbol, or of all references of the line.
  obtain (hnote | hnote) | hnote := hnote
  · obtain ⟨f, hf, rfl⟩ := List.mem_map.1 hnote
    exact not_mem_findingNote h (List.mem_filter.1 hf).1
  · obtain ⟨d, hd, hnote⟩ := List.mem_filterMap.1 hnote
    exact not_mem_symbolNote h (List.mem_filter.1 hd).1 hnote
  · split at hnote
    · obtain rfl := List.mem_singleton.1 hnote
      rw [String.toList_intercalate]
      refine Text.not_mem_intercalate (by decide) fun part hpart => ?_
      obtain ⟨note, hnote, rfl⟩ := List.mem_map.1 hpart
      obtain ⟨r, hr, rfl⟩ := List.mem_map.1 hnote
      exact not_mem_referenceNote h (List.mem_filter.1 hr).1
    · cases hnote

end OneLine

/-! ### The annotated source -/

/-- The comments behind a line of the source, as they are written: behind the blanks in front of the
line, each with a mark. -/
def written (text : List Char) : List (List Char) :=
  (comments facts line).map fun note => Text.leadingBlanks text ++ "# ".toList ++ note.toList

/-- A line is written with its comments behind it. -/
theorem map_toList_annotateLine (text : List Char) :
    (annotateLine facts line text).map String.toList = text :: written facts line text := by
  rw [annotateLine, notes_eq_comments, written]
  simp

/-- The output is the annotated lines, each with a newline at its end. -/
theorem toList_annotate (source : String) :
    (annotate source facts).toList =
      ((annotateLines facts 1 (Text.lines source.toList)).map String.toList).flatMap
        fun l => l ++ ['\n'] := by
  rw [annotate, String.toList_join]
  simp [List.flatMap_map]

variable {facts line} in
/-- A line of the source without line feeds and its comments are lines. -/
theorem not_mem_annotateLine (h : facts.OneLine) {text : List Char} (htext : '\n' ∉ text) :
    ∀ l ∈ (annotateLine facts line text).map String.toList, '\n' ∉ l := by
  rw [map_toList_annotateLine, List.forall_mem_cons]
  refine ⟨htext, fun l hl => ?_⟩
  obtain ⟨note, hnote, rfl⟩ := List.mem_map.1 hl
  have hblanks : '\n' ∉ Text.leadingBlanks text := fun hmem =>
    htext (List.takeWhile_subset _ hmem)
  have hcomment := not_mem_of_mem_comments line h hnote
  simp [hblanks, hcomment]

variable {facts} in
/-- No annotated line holds a newline. -/
theorem not_mem_annotateLines (h : facts.OneLine) {texts : List (List Char)}
    (htexts : ∀ text ∈ texts, '\n' ∉ text) (i : Nat) :
    ∀ l ∈ (annotateLines facts i texts).map String.toList, '\n' ∉ l := by
  induction texts generalizing i with
  | nil => exact fun _ hl => nomatch hl
  | cons text rest ih =>
    obtain ⟨htext, hrest⟩ := List.forall_mem_cons.1 htexts
    rw [annotateLines, List.map_append]
    exact List.forall_mem_append.2 ⟨not_mem_annotateLine h htext, ih hrest (i + 1)⟩

/-- The annotated lines fall apart into the lines of the source and the comments for each. -/
theorem takeApart_annotateLines (texts : List (List Char)) (i : Nat) :
    takeApart (commentCount facts) i ((annotateLines facts i texts).map String.toList) =
      texts.mapIdx fun k text => (text, written facts (i + k) text) := by
  induction texts generalizing i with
  | nil => rw [annotateLines, List.map_nil, takeApart]; rfl
  | cons text rest ih =>
    have hlength : (written facts i text).length = commentCount facts i := by
      rw [written, List.length_map, length_comments]
    rw [annotateLines, List.map_append, map_toList_annotateLine,
      takeApart_cons_append text hlength, ih, List.mapIdx_cons]
    simp only [Nat.add_zero, Nat.add_assoc, Nat.add_comm 1]

/-- What lies on one of the first `n` lines is on one line exactly. -/
theorem flatMap_filter_perm {α : Type} (lineOf : α → Nat) (n : Nat) (xs : List α) :
    ((List.range n).flatMap fun i => xs.filter fun x => lineOf x = i + 1).Perm
      (xs.filter fun x => 1 ≤ lineOf x ∧ lineOf x ≤ n) := by
  induction n with
  | zero =>
    have hnone : (xs.filter fun x => 1 ≤ lineOf x ∧ lineOf x ≤ 0) = [] := by
      rw [List.filter_eq_nil_iff]
      intro x _
      simp only [decide_eq_true_eq]
      omega
    rw [hnone]
    exact .nil
  | succ n ih =>
    -- Those on the first lines and those on the last one make up all.
    have hsplit := List.filter_append_perm (fun x => decide (lineOf x ≤ n))
      (xs.filter fun x => 1 ≤ lineOf x ∧ lineOf x ≤ n + 1)
    rw [List.filter_filter, List.filter_filter] at hsplit
    have hfirst : (xs.filter fun x => decide (lineOf x ≤ n) &&
        decide (1 ≤ lineOf x ∧ lineOf x ≤ n + 1)) =
          xs.filter fun x => 1 ≤ lineOf x ∧ lineOf x ≤ n := by
      refine List.filter_congr fun x _ => ?_
      rw [← Bool.decide_and, decide_eq_decide]
      omega
    have hlast : (xs.filter fun x => !decide (lineOf x ≤ n) &&
        decide (1 ≤ lineOf x ∧ lineOf x ≤ n + 1)) = xs.filter fun x => lineOf x = n + 1 := by
      refine List.filter_congr fun x _ => ?_
      rw [← decide_not, ← Bool.decide_and, decide_eq_decide]
      omega
    rw [hfirst, hlast] at hsplit
    rw [List.range_succ, List.flatMap_append, List.flatMap_singleton]
    exact (ih.append_right _).trans hsplit

variable {facts} in
/-- An annotated source, split at its line feeds, is taken apart into the lines of the source, in
order, and the comments behind each, of which there are as many as facts ask for. A fact on a line of
the source is in the comments for that line, and for no other; each fact counts as often as it is
listed. -/
theorem annotate_interleaves (source : String) (h : facts.OneLine) :
    let texts := Text.lines source.toList
    ∃ lines, Text.splitAt '\n' (annotate source facts).toList = lines ++ [[]] ∧
      (takeApart (commentCount facts) 1 lines).map Prod.fst = texts ∧
      (takeApart (commentCount facts) 1 lines).map Prod.snd =
        texts.mapIdx (fun i text => written facts (i + 1) text) ∧
      (∀ line, (comments facts line).length = commentCount facts line) ∧
      ((List.range texts.length).flatMap fun i => findingsOn facts (i + 1)).Perm
        (facts.findings.filter fun f =>
          1 ≤ f.location.line ∧ f.location.line ≤ texts.length) ∧
      ((List.range texts.length).flatMap fun i => symbolsOn facts (i + 1)).Perm
        ((facts.declarations.filter fun d => d.kind ≠ .module).filter fun d =>
          1 ≤ d.location.line ∧ d.location.line ≤ texts.length) ∧
      ((List.range texts.length).flatMap fun i => referencesOn facts (i + 1)).Perm
        (facts.references.filter fun r =>
          1 ≤ r.location.line ∧ r.location.line ≤ texts.length) := by
  intro texts
  have htexts : ∀ text ∈ texts, '\n' ∉ text := fun _ htext => Text.not_mem_of_mem_lines htext
  -- Every written line ends in a newline, so the split gives them back, with an empty rest.
  have hsplit := Text.splitAt_flatMap_concat (not_mem_annotateLines h htexts 1)
  rw [← toList_annotate] at hsplit
  have hapart := takeApart_annotateLines facts texts 1
  refine ⟨_, hsplit, ?_, ?_, length_comments facts, flatMap_filter_perm _ _ _, ?_,
    flatMap_filter_perm _ _ _⟩
  · rw [hapart]
    exact List.ext_getElem (by simp) fun i _ _ => by simp
  · rw [hapart]
    exact List.ext_getElem (by simp) fun i _ _ => by simp [Nat.add_comm]
  · have hsymbols (line : Nat) : symbolsOn facts line =
        (facts.declarations.filter fun d => d.kind ≠ .module).filter
          fun d => d.location.line = line := by
      rw [symbolsOn, List.filter_filter]
      refine List.filter_congr fun d _ => ?_
      rw [← Bool.decide_and, decide_eq_decide]
      exact And.comm
    simp only [hsymbols]
    exact flatMap_filter_perm _ _ _

/-- The facts about the two lines of code in a file, given out of order, one of them on a line that the
file does not have. -/
def scatteredFacts : FileFacts :=
  { path := "m.py"
    module := .root "m"
    scopes := [⟨.module, ⟨["m"]⟩, none, ⟨0, 26⟩⟩, ⟨.class, ⟨["m", "C"]⟩, some 0, ⟨0, 26⟩⟩]
    declarations := [⟨⟨["m"]⟩, .module, .resolved ⟨["m"]⟩, 0, ⟨⟨0, 26⟩, 1, 1⟩⟩,
      ⟨⟨["m", "C", "x"]⟩, .attribute, .unknown, 1, ⟨⟨16, 17⟩, 3, 5⟩⟩,
      ⟨⟨["m", "C"]⟩, .class, .resolved ⟨["m", "C"]⟩, 0, ⟨⟨6, 7⟩, 1, 7⟩⟩]
    references := [⟨1, .simpleId, .unresolved "y", ⟨⟨20, 21⟩, 3, 9⟩⟩,
      ⟨1, .attr, .unresolved "z", ⟨⟨22, 23⟩, 3, 11⟩⟩]
    findings := [.ofCode .syntaxError "missing `)`" ⟨⟨26, 26⟩, 4, 1⟩,
      .ofCode .unsupportedExpression "`yield` expressions are not modeled" ⟨⟨20, 23⟩, 3, 9⟩]
    inheritances := [] }

/-- Two lines that end with a carriage return as well, the second of them blank, and one that does not
end are found again. -/
theorem annotate_interleaves_scattered :
    scatteredFacts.OneLine ∧
      ∃ lines, Text.splitAt '\n'
          (annotate "class C:\r\n  \r\n    x = y.z" scatteredFacts).toList = lines ++ [[]] ∧
        (takeApart (commentCount scatteredFacts) 1 lines).map Prod.fst =
          ["class C:".toList, "  ".toList, "    x = y.z".toList] ∧
        (takeApart (commentCount scatteredFacts) 1 lines).map Prod.snd =
          [["# s C !m::C".toList], [],
            ["    # ERROR unsupported_expression: `yield` expressions are not modeled".toList,
              "    # v x ?".toList,
              "    # U\x7b simple_id ?y \x7d U\x7b attr ?z \x7d".toList]] := by
  have hlines : scatteredFacts.OneLine := by decide
  obtain ⟨lines, hsplit, hkept, hdropped, -⟩ :=
    annotate_interleaves "class C:\r\n  \r\n    x = y.z" hlines
  -- The general theorem says what is kept and dropped, and only that is evaluated.
  exact ⟨hlines, lines, hsplit, hkept.trans (by decide +kernel), hdropped.trans (by decide +kernel)⟩

end Annotate

end NameAtlas
