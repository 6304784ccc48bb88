import Mathlib.Data.List.Induction
import NameAtlas.Store

/-!
# Histories of stores

A store is only changed by `upsert` and `remove`, so a store in use is what a list of `Change`s
makes of the empty one (`Store.after`). Such a store keeps each file under the path of its facts
(`values_path_after`), no path twice, and holds nothing that was not supplied (`forall_values_after`).
-/

namespace NameAtlas

namespace Table

variable {α β : Type} [DecidableEq α]

/-- The values are those that a look-up finds. -/
theorem mem_values_iff (t : Table α β) (v : β) : v ∈ t.values ↔ ∃ k, t.get? k = some v := by
  simp only [values, get?_eq_some_iff, List.mem_map, Prod.exists, exists_eq_right]

/-- What a table lists after a write is written or was listed. -/
theorem mem_entries_insert {t : Table α β} {k : α} {v : β} {e : α × β}
    (h : e ∈ (t.insert k v).entries) : e = (k, v) ∨ e ∈ t.entries := by
  obtain ⟨k', v'⟩ := e
  rw [← get?_eq_some_iff, get?_insert] at h
  rw [← get?_eq_some_iff]
  by_cases hk : k' = k
  · rw [if_pos hk] at h
    left
    rw [hk, ← Option.some.inj h]
  · rw [if_neg hk] at h
    right
    exact h

/-- Tables with the same keys in the same order and the same values are equal. -/
theorem eq_of_get? {s t : Table α β} (hkeys : s.keys = t.keys)
    (hget : ∀ k ∈ s.keys, s.get? k = t.get? k) : s = t := by
  -- The keys agree place by place, and a key decides its value.
  have hentries : s.entries = t.entries := by
    refine List.ext_getElem ?_ fun i hs ht => ?_
    · simpa [keys] using congrArg List.length hkeys
    · have hkey : s.entries[i].1 = t.entries[i].1 := by
        have hget := congrArg (fun l => l[i]?) hkeys
        simpa [keys, List.getElem?_eq_getElem hs, List.getElem?_eq_getElem ht] using hget
      have hmem : s.entries[i].1 ∈ s.keys := List.mem_map_of_mem (List.getElem_mem hs)
      have hleft : s.get? s.entries[i].1 = some s.entries[i].2 :=
        (get?_eq_some_iff _ _ _).2 (List.getElem_mem hs)
      have hright : t.get? t.entries[i].1 = some t.entries[i].2 :=
        (get?_eq_some_iff _ _ _).2 (List.getElem_mem ht)
      have hvalue : some s.entries[i].2 = some t.entries[i].2 := by
        rw [← hleft, ← hright, ← hkey, hget _ hmem]
      exact Prod.ext hkey (Option.some.inj hvalue)
  cases s
  cases t
  cases hentries
  rfl

end Table

namespace Store

/-- One change of a store. -/
inductive Change where
  /-- The facts of a file are added, or replace those of its path. -/
  | upsert (facts : FileFacts) (contentHash : String)
  /-- The facts of a path are dropped. -/
  | remove (path : String)
  deriving DecidableEq, Repr

/-- A store after a change. -/
def change (s : Store) : Change → Store
  | .upsert facts contentHash => s.upsert facts contentHash
  | .remove path => s.remove path

/-- The store that a history of changes leads to. -/
def after (changes : List Change) : Store := changes.foldl change .empty

/-- The last change is made last. -/
theorem after_concat (changes : List Change) (c : Change) :
    after (changes ++ [c]) = (after changes).change c := by
  rw [after, List.foldl_append]
  rfl

/-- An entry of a changed store was there, or is the file that the change supplies. -/
theorem mem_entries_change {s : Store} {c : Change} {e : String × StoredFile}
    (h : e ∈ (s.change c).files.entries) :
    e ∈ s.files.entries ∨
      ∃ facts contentHash, c = .upsert facts contentHash ∧ e = (facts.path, ⟨facts, contentHash⟩) := by
  cases c with
  | upsert facts contentHash =>
    obtain hnew | hold := Table.mem_entries_insert h
    · exact .inr ⟨facts, contentHash, rfl, hnew⟩
    · exact .inl hold
  | remove path => exact .inl (List.mem_filter.1 h).1

/-- The entries of a store are files that were supplied, each under the path of its facts. -/
theorem mem_entries_after {changes : List Change} {e : String × StoredFile}
    (h : e ∈ (after changes).files.entries) :
    ∃ facts contentHash, .upsert facts contentHash ∈ changes ∧
      e = (facts.path, ⟨facts, contentHash⟩) := by
  induction changes using List.reverseRecOn with
  | nil => exact absurd h List.not_mem_nil
  | append_singleton earlier c ih =>
    rw [after_concat] at h
    obtain hold | ⟨facts, contentHash, rfl, he⟩ := mem_entries_change h
    · obtain ⟨facts, contentHash, hmem, he⟩ := ih hold
      exact ⟨facts, contentHash, List.mem_append_left _ hmem, he⟩
    · exact ⟨facts, contentHash, by simp, he⟩

/-- What holds of all supplied facts holds of those of every stored file. -/
theorem forall_values_after {P : FileFacts → Prop} {changes : List Change}
    (h : ∀ facts contentHash, .upsert facts contentHash ∈ changes → P facts) :
    ∀ stored ∈ (after changes).files.values, P stored.facts := by
  intro stored hstored
  obtain ⟨e, he, rfl⟩ := List.mem_map.1 hstored
  obtain ⟨facts, contentHash, hmem, rfl⟩ := mem_entries_after he
  exact h facts contentHash hmem

/-- The files of a store have the paths that the store lists, in that order. -/
theorem values_path_after (changes : List Change) :
    ((after changes).files.values.map fun stored => stored.facts.path) = (after changes).paths := by
  rw [Table.values, List.map_map]
  refine List.map_congr_left fun e he => ?_
  obtain ⟨facts, contentHash, -, rfl⟩ := mem_entries_after he
  rfl

/-- No path is listed twice. -/
theorem nodup_paths (s : Store) : s.paths.Nodup := s.files.nodup_keys

end Store

end NameAtlas
