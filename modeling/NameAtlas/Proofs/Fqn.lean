import NameAtlas.Fqn
import NameAtlas.Proofs.Text.DoubleColon

/-!
# Names and their written forms

A name is read back from its written form exactly if it is `Legible`: the separators that stand
between its segments must be the ones that reading finds first (`parse_render_iff`). Whatever text a
name is read from, its segments are not empty, trimmed and without a double colon
(`legible_parse_iff`), so one thing alone can go wrong: blanks that were trimmed had kept a colon
apart from the separator behind it, and in the written form the two run together
(`parse_render_parse_iff`). A name whose segments hold no colon at all is `Plain`, and so legible.
-/

namespace NameAtlas.Fqn

open Text

/-- No segment but the last ends in a colon. -/
def ColonsApart (f : Fqn) : Prop :=
  ∀ segment ∈ f.segments.dropLast, segment.toList.getLast? ≠ some ':'

instance (f : Fqn) : Decidable f.ColonsApart :=
  inferInstanceAs (Decidable (∀ segment ∈ f.segments.dropLast, segment.toList.getLast? ≠ some ':'))

/-- The names whose written form shows where their segments begin and end. -/
structure Legible (f : Fqn) : Prop where
  /-- No segment is empty. -/
  ne_empty : ∀ segment ∈ f.segments, segment ≠ ""
  /-- No segment starts or ends with a blank. -/
  trimmed : ∀ segment ∈ f.segments, Trimmed segment.toList
  /-- No segment holds the separator. -/
  not_doubled : ∀ segment ∈ f.segments, ¬Doubled segment.toList
  /-- No separator has a colon in front of it. -/
  apart : f.ColonsApart

/-- The names whose segments are words without colons: not empty, and with no blank at either
end. -/
structure Plain (f : Fqn) : Prop where
  /-- No segment is empty. -/
  ne_empty : ∀ segment ∈ f.segments, segment ≠ ""
  /-- No segment holds a colon. -/
  no_colon : ∀ segment ∈ f.segments, ':' ∉ segment.toList
  /-- No segment starts or ends with a blank. -/
  trimmed : ∀ segment ∈ f.segments, Trimmed segment.toList

instance (f : Fqn) : Decidable f.Plain :=
  decidable_of_iff ((∀ segment ∈ f.segments, segment ≠ "") ∧
    (∀ segment ∈ f.segments, ':' ∉ segment.toList) ∧ ∀ segment ∈ f.segments, Trimmed segment.toList)
    ⟨fun h => ⟨h.1, h.2.1, h.2.2⟩, fun h => ⟨h.ne_empty, h.no_colon, h.trimmed⟩⟩

/-- A plain name is legible. -/
theorem Plain.legible {f : Fqn} (h : f.Plain) : f.Legible where
  ne_empty := h.ne_empty
  trimmed := h.trimmed
  not_doubled segment hmem hdoubled := h.no_colon segment hmem (hdoubled.subset (by simp))
  apart segment hmem hlast :=
    h.no_colon segment ((List.dropLast_prefix _).subset hmem) (List.mem_of_getLast? hlast)

/-- A written name, as characters. -/
theorem toList_render (f : Fqn) :
    f.render.toList = doubleColon.intercalate (f.segments.map String.toList) :=
  String.toList_intercalate

/-- The segments of a name that is read are what trimming keeps of the parts of the text. -/
theorem map_toList_parse (s : String) :
    (parse s).segments.map String.toList = kept (splitDoubleColon s.toList) :=
  map_toList_trimmedParts _

/-- The segments stand apart if none but the last ends in a colon. -/
theorem colonsApart_iff (f : Fqn) : f.ColonsApart ↔
    ∀ part ∈ (f.segments.map String.toList).dropLast, part.getLast? ≠ some ':' := by
  rw [← List.map_dropLast, List.forall_mem_map]
  rfl

/-- A legible name is read back as it was. -/
theorem Legible.parse_render {f : Fqn} (h : f.Legible) : parse f.render = f := by
  have hwords : trimmedParts (f.segments.map String.toList) = f.segments :=
    trimmedParts_map_toList fun segment hmem => ⟨h.ne_empty segment hmem, h.trimmed segment hmem⟩
  by_cases hnil : f.segments = []
  · cases f
    cases hnil
    rfl
  -- A split at double colons undoes the join, and nothing is trimmed from legible segments.
  · have hsplit : splitDoubleColon f.render.toList = f.segments.map String.toList := by
      rw [toList_render]
      refine splitDoubleColon_intercalate (by simpa using hnil) ?_ ((colonsApart_iff f).1 h.apart)
      exact List.forall_mem_map.2 h.not_doubled
    rw [parse, hsplit, hwords]

/-- A segment of a name that is read is what trimming leaves of a part of the text. -/
theorem exists_part_of_mem_parse {s segment : String} (h : segment ∈ (parse s).segments) :
    segment ≠ "" ∧ ∃ part ∈ splitDoubleColon s.toList, trim part = segment.toList := by
  have hmem : segment.toList ∈ kept (splitDoubleColon s.toList) := by
    rw [← map_toList_parse]
    exact List.mem_map_of_mem h
  obtain ⟨htrim, hne⟩ := List.mem_filter.1 hmem
  exact ⟨by simpa using hne, List.mem_map.1 htrim⟩

/-- Of a name that is read only the colons in front of its separators are open. -/
theorem legible_parse_iff (s : String) : (parse s).Legible ↔ (parse s).ColonsApart := by
  refine ⟨Legible.apart, fun hapart => ⟨fun segment h => (exists_part_of_mem_parse h).1,
    fun segment h => ?_, fun segment h => ?_, hapart⟩⟩
  · obtain ⟨-, part, -, htrim⟩ := exists_part_of_mem_parse h
    rw [← htrim]
    exact trimmed_trim part
  · obtain ⟨-, part, hpart, htrim⟩ := exists_part_of_mem_parse h
    intro hdoubled
    rw [← htrim] at hdoubled
    exact not_doubled_of_mem_splitDoubleColon hpart (hdoubled.trans (trim_isInfix part))

/-- The names that are read back as they were are the legible ones. -/
theorem parse_render_iff (f : Fqn) : parse f.render = f ↔ f.Legible := by
  refine ⟨fun h => ?_, Legible.parse_render⟩
  rw [← h, legible_parse_iff, h, colonsApart_iff]
  by_cases hnil : f.segments = []
  · rw [hnil]
    exact fun part hpart => nomatch hpart
  · -- The written form falls into just the segments, so none of them but the last ends in a colon.
    have hkept : kept (splitDoubleColon (doubleColon.intercalate (f.segments.map String.toList))) =
        f.segments.map String.toList := by
      rw [← toList_render, ← map_toList_parse, h]
    rw [← splitDoubleColon_of_kept (by simpa using hnil) hkept]
    exact fun part hpart => getLast?_ne_of_mem_dropLast hpart

/-- A name that is read, written and read again is the same exactly if none of its segments but the
last ends in a colon. Different names of this kind are not written alike. -/
theorem parse_render_parse_iff (s s' : String) :
    (parse (parse s).render = parse s ↔ (parse s).ColonsApart) ∧
      ((parse s).ColonsApart → (parse s').ColonsApart → (parse s).render = (parse s').render →
        parse s = parse s') := by
  refine ⟨(parse_render_iff (parse s)).trans (legible_parse_iff s), fun h h' hsame => ?_⟩
  calc parse s = parse (parse s).render := ((legible_parse_iff s).2 h).parse_render.symm
    _ = parse (parse s').render := by rw [hsame]
    _ = parse s' := ((legible_parse_iff s').2 h').parse_render

/-- Two spellings of a name whose last segment ends in a colon: written alike, they are one name,
which is read back as it was. -/
theorem parse_render_parse_spellings :
    (parse " a ::b:").ColonsApart ∧ (parse "a:: ::b: ").ColonsApart ∧
      (parse " a ::b:").render = (parse "a:: ::b: ").render ∧
      parse " a ::b:" = parse "a:: ::b: " ∧ parse (parse " a ::b:").render = parse " a ::b:" := by
  have h : (parse " a ::b:").ColonsApart := by decide
  have h' : (parse "a:: ::b: ").ColonsApart := by decide
  have hsame : (parse " a ::b:").render = (parse "a:: ::b: ").render := by decide
  obtain ⟨hback, hname⟩ := parse_render_parse_iff " a ::b:" "a:: ::b: "
  exact ⟨h, h', hsame, hname h h' hsame, hback.2 h⟩

/-- The blank in `a: ::b` keeps the colon of the first segment apart from the separator. The written
form is `a:::b`, and so is that of another name, whose second segment starts with the colon. -/
theorem exists_parse_render_parse_ne :
    parse (parse "a: ::b").render ≠ parse "a: ::b" ∧
      parse "a: ::b" ≠ parse "a:::b" ∧ (parse "a: ::b").render = (parse "a:::b").render := by
  decide

end NameAtlas.Fqn
