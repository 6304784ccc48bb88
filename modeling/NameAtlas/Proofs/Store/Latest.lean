import Mathlib.Data.List.Nodup
import NameAtlas.Index.Basic
import NameAtlas.Proofs.Store

/-!
# What a history leaves in a store

A store shows nothing of its history but the last change of each path (`Store.latest?`) and the
order in which the paths came in. A path comes in when facts of it are supplied while it has none,
and it keeps that place until it is removed (`Store.Enters`); so a path that is supplied again keeps
its place, and one that was removed in between goes to the end. `Store.reflects_after` says this of
every history, and that the index is that of a store to which only the latest facts of the live
paths were supplied.
-/

namespace NameAtlas.Store

/-- The path that a change is about. -/
def Change.path : Change → String
  | .upsert facts _ => facts.path
  | .remove path => path

/-- What a change leaves under its path. -/
def Change.stored? : Change → Option StoredFile
  | .upsert facts contentHash => some ⟨facts, contentHash⟩
  | .remove _ => none

/-- What the last change of a path left there; nothing if there is no change of it. -/
def latest? (changes : List Change) (path : String) : Option StoredFile :=
  ((changes.filter fun c => c.path = path).getLast?).bind Change.stored?

/-- True for paths that have facts behind a history: the last change of the path supplied some. -/
def Live (changes : List Change) (path : String) : Prop := (latest? changes path).isSome

/-- A change of a history by which a path came in for good: it supplies facts of a path that has
none by then, and the path is not removed afterwards. -/
structure Enters (changes : List Change) (i : Nat) (path : String) : Prop where
  /-- Facts of the path are supplied. -/
  supplied : ∃ facts contentHash, changes[i]? = some (.upsert facts contentHash) ∧ facts.path = path
  /-- The path has no facts by then. -/
  first : ¬Live (changes.take i) path
  /-- The path is not removed afterwards. -/
  kept : ∀ j, i < j → changes[j]? ≠ some (.remove path)

/-- The live paths stand in the order in which they came in: each of them at one change. -/
structure EntryOrder (changes : List Change) (entry : String → Nat) : Prop where
  /-- A live path came in at one change. -/
  enters_iff : ∀ path i, Enters changes i path ↔ Live changes path ∧ i = entry path
  /-- A path that came in earlier stands in front. -/
  sorted : (after changes).paths.Pairwise fun path path' => entry path < entry path'

/-- The changes that supply the latest facts of some paths, each once. -/
def supplies (changes : List Change) (paths : List String) : List Change :=
  (paths.filterMap (latest? changes)).map fun stored => .upsert stored.facts stored.contentHash

/-- A store shows the last change of each path, and nothing else of its history. -/
structure Reflects (changes : List Change) (s : Store) : Prop where
  /-- No path is listed twice. -/
  nodup : s.paths.Nodup
  /-- The live paths are listed. -/
  live : ∀ path, path ∈ s.paths ↔ Live changes path
  /-- Each of them came in at one change of the history, and they stand in the order of these. -/
  order : ∃ entry : String → Nat,
    (∀ path i, Enters changes i path ↔ path ∈ s.paths ∧ i = entry path) ∧
      s.paths.Pairwise fun path path' => entry path < entry path'
  /-- The digest of a path is the one supplied last. -/
  contentHash : ∀ path, s.contentHash? path = (latest? changes path).map StoredFile.contentHash
  /-- Supplying facts answers if their path is live, and is one more change. -/
  supply : ∀ facts contentHash,
    ((s.supply facts contentHash).1 = true ↔ Live changes facts.path) ∧
      (s.supply facts contentHash).2 = after (changes ++ [.upsert facts contentHash])
  /-- Withdrawing a path answers with its latest facts, and is one more change. -/
  withdraw : ∀ path,
    (s.withdraw path).1 = (latest? changes path).map StoredFile.facts ∧
      (s.withdraw path).2 = after (changes ++ [.remove path])
  /-- The index is that of a store to which only the latest facts were supplied, in order. -/
  index : s.index = (after (supplies changes s.paths)).index
  /-- Facts that are supplied under a new path and withdrawn again leave the index as it was, with
  all that they had shadowed. -/
  unshadowed : ∀ facts contentHash, ¬Live changes facts.path →
    (after (changes ++ [.upsert facts contentHash, .remove facts.path])).index = s.index

variable {changes : List Change} {path : String} {i : Nat} {c : Change}

/-! ### The last change of a path -/

/-- The last change of a path decides what stands there. -/
theorem latest?_concat (changes : List Change) (c : Change) (path : String) :
    latest? (changes ++ [c]) path = if c.path = path then c.stored? else latest? changes path := by
  unfold latest?
  rw [List.filter_append]
  by_cases hc : c.path = path <;> simp [hc]

/-- What a change does to a look-up. -/
theorem get?_change (s : Store) (c : Change) (path : String) :
    (s.change c).files.get? path = if c.path = path then c.stored? else s.files.get? path := by
  cases c with
  | upsert facts contentHash =>
    refine (Table.get?_insert s.files facts.path path ⟨facts, contentHash⟩).trans ?_
    simp only [Change.path, Change.stored?, eq_comm]
  | remove path' =>
    refine (Table.get?_erase s.files path' path).trans ?_
    simp only [Change.path, Change.stored?, eq_comm]

/-- Under each path stands what the last change of it left there. -/
theorem get?_after (changes : List Change) (path : String) :
    (after changes).files.get? path = latest? changes path := by
  induction changes using List.reverseRecOn with
  | nil => rfl
  | append_singleton earlier c ih => rw [after_concat, get?_change, latest?_concat, ih]

/-- The paths of the store are those that were supplied and not removed since. -/
theorem mem_paths_after_iff : path ∈ (after changes).paths ↔ Live changes path := by
  unfold Live
  rw [← get?_after]
  exact Table.mem_keys_iff _ _

/-! ### The order of the paths -/

/-- What a change does to the order of the paths. -/
theorem paths_change (s : Store) (c : Change) :
    (s.change c).paths =
      match c with
      | .upsert facts _ =>
        if facts.path ∈ s.paths then s.paths else s.paths ++ [facts.path]
      | .remove path => s.paths.filter fun path' => path' ≠ path := by
  cases c with
  | upsert facts contentHash => exact Table.keys_insert s.files facts.path ⟨facts, contentHash⟩
  | remove path => exact Table.keys_erase s.files path

/-- A path that has come in by earlier changes is still there unless one more change removes it. -/
theorem Enters.concat (h : Enters changes i path) (hc : c ≠ .remove path) :
    Enters (changes ++ [c]) i path := by
  obtain ⟨⟨facts, contentHash, hget, hpath⟩, hfirst, hkept⟩ := h
  have hlt := (List.getElem?_eq_some_iff.1 hget).1
  -- One change more takes nothing from the earlier ones; it could only remove the path.
  refine ⟨⟨facts, contentHash, ?_, hpath⟩, ?_, fun j hj hremove => ?_⟩
  · rw [List.getElem?_append_left hlt]
    exact hget
  · rw [List.take_append_of_le_length (Nat.le_of_lt hlt)]
    exact hfirst
  · obtain hjlt | hjge := Nat.lt_or_ge j changes.length
    · rw [List.getElem?_append_left hjlt] at hremove
      exact hkept j hj hremove
    · have hjlen := (List.getElem?_eq_some_iff.1 hremove).1
      have hjeq : j = changes.length := by simp at hjlen; omega
      rw [hjeq, List.getElem?_concat_length] at hremove
      exact hc (Option.some.inj hremove)

/-- A path that is not there comes in by facts of it. -/
theorem enters_last (hpath : c.path = path) (hsome : c.stored?.isSome) (hnew : ¬Live changes path) :
    Enters (changes ++ [c]) changes.length path := by
  cases c with
  | upsert facts contentHash =>
    refine ⟨⟨facts, contentHash, List.getElem?_concat_length, hpath⟩, by simpa using hnew,
      fun j hj hremove => ?_⟩
    have hjlen := (List.getElem?_eq_some_iff.1 hremove).1
    simp at hjlen
    omega
  | remove path' => cases hsome

/-- A path that came in by one more change came in by it or before. -/
theorem enters_concat_iff :
    Enters (changes ++ [c]) i path ↔
      (Enters changes i path ∧ c ≠ .remove path) ∨
        (i = changes.length ∧ c.path = path ∧ c.stored?.isSome ∧ ¬Live changes path) := by
  have hlast : (changes ++ [c])[changes.length]? = some c := by simp
  constructor
  · rintro ⟨⟨facts, contentHash, hget, hpath⟩, hfirst, hkept⟩
    obtain hlt | heq | hgt := Nat.lt_trichotomy i changes.length
    -- The change came before the last one, which does not remove the path.
    · left
      rw [List.getElem?_append_left hlt] at hget
      rw [List.take_append_of_le_length (Nat.le_of_lt hlt)] at hfirst
      refine ⟨⟨⟨facts, contentHash, hget, hpath⟩, hfirst, fun j hj hremove => ?_⟩, fun hc => ?_⟩
      · have hjlt := (List.getElem?_eq_some_iff.1 hremove).1
        exact hkept j hj (by rw [List.getElem?_append_left hjlt]; exact hremove)
      · exact hkept _ hlt (by rw [hlast, hc])
    · right
      subst heq
      rw [hlast] at hget
      obtain rfl := Option.some.inj hget
      exact ⟨rfl, hpath, rfl, by simpa using hfirst⟩
    · have hle : (changes ++ [c]).length ≤ i := by simp; omega
      rw [List.getElem?_eq_none hle] at hget
      cases hget
  · rintro (⟨h, hc⟩ | ⟨rfl, hpath, hsome, hnew⟩)
    · exact h.concat hc
    · exact enters_last hpath hsome hnew

namespace EntryOrder

variable {entry : String → Nat} {facts : FileFacts}

/-- A path came in by one of the changes. -/
theorem lt_length (h : EntryOrder changes entry) (hlive : Live changes path) :
    entry path < changes.length := by
  obtain ⟨_, _, hget, _⟩ := ((h.enters_iff path (entry path)).2 ⟨hlive, rfl⟩).supplied
  exact (List.getElem?_eq_some_iff.1 hget).1

/-- A path that is live keeps its place when facts of it are supplied again. -/
theorem replace (h : EntryOrder changes entry) (hlive : Live changes facts.path)
    (contentHash : String) : EntryOrder (changes ++ [.upsert facts contentHash]) entry := by
  constructor
  · intro path i
    -- The path is there already, so supplying it again lets no path in.
    have hsame : Live (changes ++ [.upsert facts contentHash]) path ↔ Live changes path := by
      unfold Live at hlive ⊢
      rw [latest?_concat]
      split
      · next hpath =>
        rw [← show facts.path = path from hpath]
        exact iff_of_true rfl hlive
      · exact Iff.rfl
    rw [enters_concat_iff, hsame, ← h.enters_iff]
    constructor
    · rintro (⟨henters, -⟩ | ⟨-, rfl, -, hnew⟩)
      · exact henters
      · exact absurd hlive hnew
    · exact fun henters => .inl ⟨henters, Change.noConfusion⟩
  · rw [after_concat, paths_change]
    dsimp only
    rw [if_pos (mem_paths_after_iff.2 hlive)]
    exact h.sorted

/-- A new path comes in by the last change, and stands behind the others. -/
theorem add (h : EntryOrder changes entry) (hnew : ¬Live changes facts.path)
    (contentHash : String) :
    EntryOrder (changes ++ [.upsert facts contentHash])
      (Function.update entry facts.path changes.length) := by
  constructor
  -- The new path enters at the end, and the others are not touched.
  · intro path i
    unfold Live
    rw [enters_concat_iff, h.enters_iff, latest?_concat]
    by_cases hpath : path = facts.path
    · subst hpath
      simp [hnew, Change.path, Change.stored?]
    · have hne : ¬facts.path = path := fun heq => hpath heq.symm
      simp [hpath, hne, Change.path, Live]
  · -- The paths that were there keep their positions, which are all in front of the new one.
    have hentry : ∀ path ∈ (after changes).paths,
        Function.update entry facts.path changes.length path = entry path := by
      intro path hmem
      refine Function.update_of_ne (fun heq => hnew ?_) _ _
      exact heq ▸ mem_paths_after_iff.1 hmem
    rw [after_concat, paths_change]
    dsimp only
    rw [if_neg fun hmem => hnew (mem_paths_after_iff.1 hmem), List.pairwise_append]
    refine ⟨h.sorted.imp_of_mem fun {path path'} hmem hmem' hlt => ?_,
      List.pairwise_singleton _ _, fun path hmem path' hlast => ?_⟩
    · rwa [hentry path hmem, hentry path' hmem']
    · rw [List.mem_singleton.1 hlast, hentry path hmem, Function.update_self]
      exact h.lt_length (mem_paths_after_iff.1 hmem)

/-- The paths that are not removed keep their order. -/
theorem remove (h : EntryOrder changes entry) (removed : String) :
    EntryOrder (changes ++ [.remove removed]) entry := by
  constructor
  · intro path i
    unfold Live
    rw [enters_concat_iff, h.enters_iff, latest?_concat]
    by_cases hpath : removed = path
    · subst hpath
      simp [Change.path, Change.stored?]
    · simp [hpath, Change.path, Change.stored?, Live]
  · rw [after_concat, paths_change]
    exact h.sorted.sublist List.filter_sublist

end EntryOrder

/-- The paths of every store stand in the order in which they came in. -/
theorem exists_entryOrder (changes : List Change) : ∃ entry, EntryOrder changes entry := by
  induction changes using List.reverseRecOn with
  | nil =>
    refine ⟨fun _ => 0, fun path i => iff_of_false ?_ ?_, List.Pairwise.nil⟩
    · rintro ⟨⟨_, _, hget, _⟩, _, _⟩
      cases hget
    · rintro ⟨hlive, _⟩
      cases hlive
  | append_singleton earlier c ih =>
    obtain ⟨entry, h⟩ := ih
    -- A supplied path replaces or is new; a removed one goes.
    cases c with
    | upsert facts contentHash =>
      by_cases hlive : Live earlier facts.path
      · exact ⟨_, h.replace hlive contentHash⟩
      · exact ⟨_, h.add hlive contentHash⟩
    | remove removed => exact ⟨_, h.remove removed⟩

/-! ### Stores with the same live files -/

/-- A store is known by its paths and by what stands under them. -/
theorem after_eq_of_latest? {changes' : List Change}
    (hpaths : (after changes').paths = (after changes).paths)
    (hlatest : ∀ path ∈ (after changes).paths, latest? changes' path = latest? changes path) :
    after changes' = after changes := by
  have hfiles : (after changes').files = (after changes).files := by
    refine Table.eq_of_get? hpaths fun path hmem => ?_
    rw [get?_after, get?_after]
    exact hlatest path (hpaths ▸ hmem)
  cases hleft : after changes'
  cases hright : after changes
  rw [hleft, hright] at hfiles
  exact congrArg Store.mk hfiles

/-- What stands behind changes that supply distinct paths. -/
theorem after_map_upsert {files : List StoredFile}
    (hnodup : (files.map fun stored => stored.facts.path).Nodup) :
    (after (files.map fun stored => .upsert stored.facts stored.contentHash)).paths =
        files.map (fun stored => stored.facts.path) ∧
      ∀ stored ∈ files,
        latest? (files.map fun stored => .upsert stored.facts stored.contentHash)
          stored.facts.path = some stored := by
  induction files using List.reverseRecOn with
  | nil => exact ⟨rfl, fun _ h => absurd h List.not_mem_nil⟩
  | append_singleton earlier last ih =>
    rw [List.map_append, List.map_singleton, List.nodup_append] at hnodup
    obtain ⟨hearlier, -, hdisjoint⟩ := hnodup
    obtain ⟨hpaths, hlatest⟩ := ih hearlier
    -- The last path is new, as paths are distinct.
    have hnew : last.facts.path ∉ earlier.map fun stored => stored.facts.path :=
      fun hmem => hdisjoint _ hmem _ (by simp) rfl
    rw [List.map_append, List.map_singleton]
    constructor
    · rw [after_concat, paths_change]
      dsimp only
      rw [hpaths, if_neg hnew]
      simp
    · intro stored hmem
      rw [latest?_concat]
      rcases List.mem_append.1 hmem with hold | hlast
      · have hne : ¬last.facts.path = stored.facts.path :=
          fun h => hnew (h ▸ List.mem_map_of_mem hold)
        exact (if_neg hne).trans (hlatest stored hold)
      · obtain rfl := List.mem_singleton.1 hlast
        exact if_pos rfl

/-- The files of a store are what was left last under its paths. -/
theorem values_after (changes : List Change) :
    (after changes).files.values = (after changes).paths.filterMap (latest? changes) := by
  unfold paths Table.keys Table.values
  rw [List.filterMap_map, ← List.filterMap_eq_map]
  refine List.filterMap_congr fun e he => ?_
  show some e.2 = latest? changes e.1
  rw [← get?_after, (Table.get?_eq_some_iff _ _ _).2 he]

/-- The paths of the latest facts of live paths are these paths. -/
theorem map_path_latest? (changes : List Change) :
    ((after changes).paths.filterMap (latest? changes)).map (fun stored => stored.facts.path) =
      (after changes).paths := by
  rw [← values_after, values_path_after]

/-- The latest facts of the live paths make the store that the whole history makes. -/
theorem after_supplies (changes : List Change) :
    after (supplies changes (after changes).paths) = after changes := by
  have hmap := map_path_latest? changes
  obtain ⟨hpaths, hlatest⟩ := after_map_upsert (hmap.symm ▸ nodup_paths (after changes))
  refine after_eq_of_latest? (hpaths.trans hmap) fun path hmem => ?_
  obtain ⟨stored, hstored⟩ := Option.isSome_iff_exists.1 (mem_paths_after_iff.1 hmem)
  have hfile : stored ∈ (after changes).paths.filterMap (latest? changes) :=
    List.mem_filterMap.2 ⟨path, hmem, hstored⟩
  -- The facts under a path are facts of that path.
  have hpath : stored.facts.path = path := by
    have hentry := (Table.get?_eq_some_iff _ _ _).1 ((get?_after changes path).trans hstored)
    obtain ⟨facts, contentHash, -, he⟩ := mem_entries_after hentry
    obtain ⟨rfl, rfl⟩ := Prod.mk.inj he
    rfl
  rw [hstored, ← hpath]
  exact hlatest stored hfile

/-- Supplying facts under a new path and removing them again changes nothing. -/
theorem after_upsert_remove {facts : FileFacts} (hnew : ¬Live changes facts.path)
    (contentHash : String) :
    after (changes ++ [.upsert facts contentHash, .remove facts.path]) = after changes := by
  have hpath : facts.path ∉ (after changes).paths := fun h => hnew (mem_paths_after_iff.1 h)
  have hsplit : changes ++ [.upsert facts contentHash, .remove facts.path] =
      (changes ++ [.upsert facts contentHash]) ++ [.remove facts.path] := by simp
  rw [hsplit]
  -- The table does not change, as the path goes as it came; and nothing is known of it afterwards.
  refine after_eq_of_latest? ?_ fun path hmem => ?_
  · rw [after_concat, after_concat, paths_change]
    dsimp only
    rw [paths_change]
    dsimp only
    have hkept : ((after changes).paths.filter fun path => path ≠ facts.path) =
        (after changes).paths :=
      List.filter_eq_self.2 fun path hmem => decide_eq_true fun h => hpath (h ▸ hmem)
    rw [if_neg hpath, List.filter_append, hkept]
    simp
  · have hne : ¬facts.path = path := fun h => hpath (h ▸ hmem)
    rw [latest?_concat, latest?_concat]
    exact (if_neg hne).trans (if_neg hne)

/-- A store shows of its history the latest facts of the live paths in the order in which they came
in, and its index is made of them alone. -/
theorem reflects_after (changes : List Change) : Reflects changes (after changes) where
  nodup := nodup_paths _
  -- The order is that of the entries, which the history decides.
  live _ := mem_paths_after_iff
  order := by
    obtain ⟨entry, h⟩ := exists_entryOrder changes
    refine ⟨entry, fun path i => ?_, h.sorted⟩
    rw [h.enters_iff, mem_paths_after_iff]
  contentHash path := by
    unfold contentHash?
    rw [get?_after]
  supply facts contentHash := by
    refine ⟨?_, (after_concat changes (.upsert facts contentHash)).symm⟩
    unfold supply contains Table.contains Live
    rw [get?_after]
  withdraw path := by
    refine ⟨?_, (after_concat changes (.remove path)).symm⟩
    unfold withdraw facts?
    rw [get?_after]
  index := by rw [after_supplies]
  unshadowed facts contentHash hnew := by rw [after_upsert_remove hnew]

end NameAtlas.Store
