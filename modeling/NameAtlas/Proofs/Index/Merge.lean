import Mathlib.Data.List.Induction
import NameAtlas.Index.Query

/-!
# What merging a file does to an index

A file is merged behind those that are there: its scopes get the numbers behind theirs
(`scope?_merge_of_some`, `scope?_merge_add`), and each of its names and classes takes the place of
an earlier one. So a look-up by name gives the last symbol of that name
(`get?_insertSymbols`). A class gets the bases that the file lists for it, and keeps those it has
when the file lists none (`basesOf_insertBases`).
-/

namespace NameAtlas.Index

/-- No value is left twice where repetitions are erased. -/
theorem nodup_eraseDups {α : Type} [DecidableEq α] (l : List α) : l.eraseDups.Nodup := by
  cases l with
  | nil => simp
  | cons a rest =>
    rw [List.eraseDups_cons, List.nodup_cons]
    constructor
    · simp [List.mem_eraseDups]
    · exact nodup_eraseDups _
termination_by l.length
decreasing_by
  have hle := List.length_filter_le (fun b => !b == a) rest
  simp only [List.length_cons]
  omega

/-! ### The fields of a merged index -/

section Fields

variable (index : Index) (stored : StoredFile)

/-- Merging a file appends its entry. -/
theorem merge_files : (index.merge stored).files =
    index.files ++ [fileOf (index.numbering stored.facts) stored] := rfl

/-- Merging a file appends its scopes. -/
theorem merge_scopes : (index.merge stored).scopes =
    index.scopes ++ scopesOf (index.numbering stored.facts) stored.facts := rfl

/-- Merging a file inserts its symbols over those that are there. -/
theorem merge_symbols : (index.merge stored).symbols =
    insertSymbols index.symbols (symbolsOf (index.numbering stored.facts) stored.facts) := rfl

/-- Merging a file inserts the bases of its classes over those that are there. -/
theorem merge_bases : (index.merge stored).bases = insertBases index.bases stored.facts := rfl

/-- Merging a file appends its references. -/
theorem merge_usages : (index.merge stored).usages =
    index.usages ++ usagesOfFacts (index.numbering stored.facts) stored.facts := rfl

end Fields

/-! ### Numbers of scopes -/

/-- A scope of a file is one of those that the file brings. -/
theorem Numbering.lt_of_scope? {n : Numbering} {i : Nat} {id : ScopeId} (h : n.scope? i = some id) :
    ∃ j, j < n.count ∧ id = ⟨n.first + j⟩ := by
  rw [Numbering.scope?] at h
  split at h
  · next hlt => exact ⟨i, hlt, (Option.some.inj h).symm⟩
  · cases h

/-- The scope that a record of a file is filed under is one of those that the file brings. -/
theorem Numbering.lt_of_scopeOrFirst? {n : Numbering} {i : Nat} {id : ScopeId}
    (h : n.scopeOrFirst? i = some id) : ∃ j, j < n.count ∧ id = ⟨n.first + j⟩ := by
  rw [Numbering.scopeOrFirst?] at h
  split at h
  · next hscope => exact Numbering.lt_of_scope? (hscope.trans h)
  · exact Numbering.lt_of_scope? h

/-- A file brings in as many scopes as it has. -/
theorem length_scopesOf (n : Numbering) (facts : FileFacts) :
    (scopesOf n facts).length = facts.scopes.length := by
  rw [scopesOf, List.length_mapIdx]

/-- The scopes of an index keep their numbers. -/
theorem scope?_merge_of_some {index : Index} {id : ScopeId} {q : Scope}
    (h : index.scope? id = some q) (stored : StoredFile) :
    (index.merge stored).scope? id = some q := by
  have hlt := (List.getElem?_eq_some_iff.1 h).1
  rw [scope?, merge, List.getElem?_append_left hlt]
  exact h

/-- The scopes of a merged file stand behind those of the index, and list the names that the file
declares in them. -/
theorem scope?_merge_add (index : Index) {stored : StoredFile} {j : Nat}
    (h : j < stored.facts.scopes.length) :
    ∃ q, (index.merge stored).scope? ⟨index.scopes.length + j⟩ = some q ∧
      q.file = ⟨index.files.length⟩ ∧
      q.symbols = namesIn (index.numbering stored.facts) stored.facts
        ⟨index.scopes.length + j⟩ := by
  -- The new scopes are behind all the old ones.
  have hlt : j < (scopesOf (index.numbering stored.facts) stored.facts).length := by
    rw [length_scopesOf]
    exact h
  refine ⟨(scopesOf (index.numbering stored.facts) stored.facts)[j], ?_, ?_, ?_⟩
  · rw [scope?, merge, List.getElem?_append_right (Nat.le_add_right _ _), Nat.add_sub_cancel_left]
    exact List.getElem?_eq_getElem hlt
  · simp only [scopesOf, List.getElem_mapIdx]
    rfl
  · simp only [scopesOf, List.getElem_mapIdx]
    rfl

/-! ### Symbols by name -/

/-- Of the symbols written with one name the last one is found. -/
theorem get?_insertSymbols (table : Table Fqn Symbol) (symbols : List Symbol) (k : Fqn) :
    (insertSymbols table symbols).get? k =
      ((symbols.filter fun s => s.fqn = k).getLast?).or (table.get? k) := by
  induction symbols using List.reverseRecOn with
  | nil => rfl
  | append_singleton earlier s ih =>
    have hstep : insertSymbols table (earlier ++ [s]) =
        (insertSymbols table earlier).insert s.fqn s := by
      rw [insertSymbols, List.foldl_append]
      rfl
    rw [hstep, Table.get?_insert, List.filter_append]
    -- The symbol written last is found under its own name, and hides nothing else.
    by_cases hk : k = s.fqn
    · simp [hk]
    · have hk' : ¬s.fqn = k := fun h => hk h.symm
      simpa [hk, hk'] using ih

/-- A symbol found after a file was merged is declared by the file, or was there before and its
name is not declared by the file. -/
theorem symbol?_merge {index : Index} {stored : StoredFile} {k : Fqn} {s : Symbol}
    (h : (index.merge stored).symbol? k = some s) :
    (s ∈ symbolsOf (index.numbering stored.facts) stored.facts ∧ s.fqn = k) ∨
      (index.symbol? k = some s ∧
        ∀ s' ∈ symbolsOf (index.numbering stored.facts) stored.facts, s'.fqn ≠ k) := by
  rw [symbol?, merge, get?_insertSymbols] at h
  -- The last symbol of the file with this name decides, if there is one.
  cases hlast : ((symbolsOf (index.numbering stored.facts) stored.facts).filter
      fun s' => s'.fqn = k).getLast? with
  | some s' =>
    rw [hlast] at h
    obtain rfl : s' = s := Option.some.inj h
    have hmem := List.mem_filter.1 (List.mem_of_getLast? hlast)
    exact .inl ⟨hmem.1, of_decide_eq_true hmem.2⟩
  | none =>
    rw [hlast] at h
    refine .inr ⟨h, fun s' hs' hk => ?_⟩
    have hempty := List.getLast?_eq_none_iff.1 hlast
    have hmem : s' ∈ ([] : List Symbol) :=
      hempty ▸ List.mem_filter.2 ⟨hs', decide_eq_true hk⟩
    exact absurd hmem List.not_mem_nil

/-- A symbol of a file comes from one of its declarations. -/
theorem mem_symbolsOf {n : Numbering} {facts : FileFacts} {s : Symbol} :
    s ∈ symbolsOf n facts ↔ ∃ d ∈ facts.declarations, ∃ scope, n.scopeOrFirst? d.scope = some scope ∧
      s = ⟨d.fqn, d.kind, d.type, scope, n.file, d.location⟩ := by
  simp only [symbolsOf, List.mem_filterMap, Option.map_eq_some_iff, eq_comm (a := s)]

/-- A scope lists the names of the symbols that are filed under it. -/
theorem fqn_mem_namesIn {n : Numbering} {facts : FileFacts} {s : Symbol}
    (h : s ∈ symbolsOf n facts) : s.fqn ∈ namesIn n facts s.scope := by
  obtain ⟨d, hd, scope, hscope, rfl⟩ := mem_symbolsOf.1 h
  rw [namesIn, List.mem_eraseDups]
  exact List.mem_map.2 ⟨d, List.mem_filter.2 ⟨hd, decide_eq_true hscope⟩, rfl⟩

/-! ### Bases -/

/-- A file lists no bases of a class exactly if no inheritance has this class. -/
theorem basesIn_eq_nil_iff {facts : FileFacts} {c : Fqn} :
    basesIn facts c = [] ↔ ∀ i ∈ facts.inheritances, i.derived ≠ c := by
  simp [basesIn, List.filter_eq_nil_iff]

/-- Writing the same function of each key leaves its value at the keys that are written. -/
theorem get?_foldl_insert (f : Fqn → List Fqn) (is : List Inheritance) (c : Fqn)
    (table : Table Fqn (List Fqn)) :
    (is.foldl (fun t i => t.insert i.derived (f i.derived)) table).get? c =
      if ∃ i ∈ is, i.derived = c then some (f c) else table.get? c := by
  induction is generalizing table with
  | nil => simp
  | cons i rest ih =>
    rw [List.foldl_cons, ih, Table.get?_insert]
    by_cases hi : i.derived = c
    · subst hi
      simp
    · simp [hi, Ne.symm hi]

/-- A class has the bases that the merged file lists for it; if it lists none, the class has those
it had. -/
theorem basesOf_insertBases (table : Table Fqn (List Fqn)) (facts : FileFacts) (c : Fqn) :
    Hierarchy.basesOf (insertBases table facts) c =
      if basesIn facts c = [] then Hierarchy.basesOf table c else basesIn facts c := by
  -- Bases are collected class by class, so a class without an inheritance keeps its entry.
  rw [Hierarchy.basesOf, insertBases, get?_foldl_insert]
  by_cases hc : basesIn facts c = []
  · have hnone : ¬∃ i ∈ facts.inheritances, i.derived = c := by
      rintro ⟨i, hi, hderived⟩
      exact basesIn_eq_nil_iff.1 hc i hi hderived
    rw [if_pos hc, if_neg hnone]
    rfl
  · have hsome : ∃ i ∈ facts.inheritances, i.derived = c := by
      by_contra hnot
      exact hc (basesIn_eq_nil_iff.2 fun i hi hderived => hnot ⟨i, hi, hderived⟩)
    rw [if_neg hc, if_pos hsome]
    rfl

end NameAtlas.Index
