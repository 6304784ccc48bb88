import Mathlib.Data.List.Induction
import NameAtlas.Index.Query
import NameAtlas.Proofs.Index.Sound

/-!
# Posting lists are exact

Postings are exact for a list if under each key stand the positions of the entries that have it, all
of them and no others (`Postings.Exact`). Posting what is put at the end of a list keeps them exact
(`Postings.Exact.postAll`), so they are for every index, and a look-up through them gives what
going through the whole list would give (`Index.Posted.usagesOf`, `Index.Posted.usagesInFile`,
`Index.Posted.diagnosticsOfFile`).
-/

namespace NameAtlas

namespace Postings

variable {κ α : Type} [DecidableEq κ] {key : α → Option κ} {l : List α} {p : Postings κ}

/-- A position is posted behind those of its key. -/
theorem positions_post (p : Postings κ) (k k' : κ) (position : Nat) :
    (p.post k position).positions k' =
      if k' = k then (p.positions k).push position else p.positions k' := by
  unfold positions post
  rw [Table.get?_insert]
  by_cases hk : k' = k
  · simp [hk, positions]
  · simp [hk]

/-- Posting a member adds its position under its key, if it has one. -/
theorem positions_postEntry (p : Postings κ) (position : Nat) (a : α) (k : κ) :
    ((postEntry key p position a).positions k).toList =
      (p.positions k).toList ++ if key a = some k then [position] else [] := by
  unfold postEntry
  cases hkey : key a with
  | none => simp
  | some k' =>
    rw [positions_post]
    by_cases hk : k = k'
    · simp [hk]
    · simp [hk, Ne.symm hk]

/-- The positions at which a list has an entry with a key. -/
def indices (key : α → Option κ) (l : List α) (k : κ) : List Nat :=
  (List.range l.length).filter fun i => l[i]?.bind key = some k

/-- Under each key stand the positions of the entries that have it. -/
def Exact (key : α → Option κ) (l : List α) (p : Postings κ) : Prop :=
  ∀ k, (p.positions k).toList = indices key l k

/-- A member at the end adds its position to those of its key. -/
theorem indices_concat (l : List α) (a : α) (k : κ) :
    indices key (l ++ [a]) k =
      indices key l k ++ if key a = some k then [l.length] else [] := by
  have hold : ∀ i ∈ List.range l.length, (l ++ [a])[i]?.bind key = l[i]?.bind key := by
    intro i hi
    rw [List.getElem?_append_left (List.mem_range.1 hi)]
  have hnew : (l ++ [a])[l.length]?.bind key = key a := by simp
  unfold indices
  rw [List.length_append, List.length_singleton, List.range_succ, List.filter_append]
  congr 1
  · exact List.filter_congr fun i hi => by rw [hold i hi]
  · rw [List.filter_singleton, hnew]
    by_cases hk : key a = some k <;> simp [hk]

/-- The positions of a key are those of the members with this key. -/
theorem mem_indices_iff {i : Nat} {k : κ} :
    i ∈ indices key l k ↔ ∃ a, l[i]? = some a ∧ key a = some k := by
  unfold indices
  rw [List.mem_filter, List.mem_range, decide_eq_true_eq, Option.bind_eq_some_iff]
  refine and_iff_right_of_imp ?_
  rintro ⟨a, ha, -⟩
  exact (List.getElem?_eq_some_iff.1 ha).1

/-- The entries at those positions are the ones that have the key, in their order. -/
theorem filterMap_indices (key : α → Option κ) (l : List α) (k : κ) :
    (indices key l k).filterMap (fun i => l[i]?) = l.filter fun a => key a = some k := by
  induction l using List.reverseRecOn with
  | nil => rfl
  | append_singleton earlier a ih =>
    have hold : (indices key earlier k).filterMap (fun i => (earlier ++ [a])[i]?) =
        (indices key earlier k).filterMap fun i => earlier[i]? := by
      refine List.filterMap_congr fun i hi => ?_
      obtain ⟨b, hb, -⟩ := mem_indices_iff.1 hi
      rw [List.getElem?_append_left (List.getElem?_eq_some_iff.1 hb).1]
    rw [indices_concat, List.filterMap_append, hold, ih, List.filter_append]
    by_cases hk : key a = some k <;> simp [hk]

/-- Nothing is posted for the empty list. -/
theorem exact_empty : Exact key ([] : List α) (empty : Postings κ) := fun _ => rfl

/-- Posting an entry that is put at the end keeps the postings exact. -/
theorem Exact.postEntry (h : Exact key l p) (a : α) :
    Exact key (l ++ [a]) (postEntry key p l.length a) := by
  intro k
  rw [positions_postEntry, h k, indices_concat]

/-- Posting entries that are put at the end keeps the postings exact. -/
theorem Exact.postAll (h : Exact key l p) (new : List α) :
    Exact key (l ++ new) (postAll key p l.length new) := by
  induction new generalizing l p with
  | nil => simpa [Postings.postAll] using h
  | cons a rest ih => simpa [Postings.postAll] using ih (h.postEntry a)

/-- A look-up through exact postings gives the entries that have the key, in their order. -/
theorem Exact.entries (h : Exact key l p) (k : κ) :
    p.entries k l = l.filter fun a => key a = some k := by
  unfold Postings.entries
  rw [h k, filterMap_indices]

end Postings

namespace Index

/-- The postings of an index are exact for its references and findings. -/
structure Posted (index : Index) : Prop where
  /-- References are found by what they lead to. -/
  byTarget : index.usagesByTarget.Exact (fun u => u.target.fqn?) index.usages
  /-- References are found by their files. -/
  byFile : index.usagesByFile.Exact (fun u => some u.file) index.usages
  /-- Findings are found by their files. -/
  diagnostics : index.diagnosticsByFile.Exact (fun d => some d.fileId) index.diagnostics

/-- The empty index has the postings of its lists. -/
theorem posted_empty : empty.Posted :=
  ⟨Postings.exact_empty, Postings.exact_empty, Postings.exact_empty⟩

namespace Posted

variable {index : Index} (h : index.Posted)

include h

/-- A merge posts what it adds. -/
theorem merge (stored : StoredFile) : (index.merge stored).Posted where
  byTarget := h.byTarget.postAll _
  byFile := h.byFile.postAll _
  diagnostics := h.diagnostics.postAll _

/-- The references to a name are those that resolve to it. -/
theorem usagesOf (q : Fqn) :
    index.usagesOf q = index.usages.filter fun u => u.target = .resolved q := by
  have htarget : ∀ u : Usage, (u.target.fqn? = some q) ↔ u.target = .resolved q := by
    intro u
    cases u.target <;> simp [UsageTarget.fqn?]
  unfold Index.usagesOf
  rw [h.byTarget.entries]
  exact List.filter_congr fun u _ => by rw [decide_eq_decide, htarget]

/-- The references in a file are those that belong to it. -/
theorem usagesInFile (id : FileId) :
    index.usagesInFile id = index.usages.filter fun u => u.file = id := by
  unfold Index.usagesInFile
  rw [h.byFile.entries]
  simp only [Option.some.injEq]

/-- The findings of a file are those that belong to it. -/
theorem diagnosticsOfFile (id : FileId) :
    index.diagnosticsOfFile id = index.diagnostics.filter fun d => d.fileId = id := by
  unfold Index.diagnosticsOfFile
  rw [h.diagnostics.entries]
  simp only [Option.some.injEq]

end Posted

/-- The postings of every index are exact. -/
theorem posted_foldl (files : List StoredFile) : (files.foldl merge .empty).Posted := by
  induction files using List.reverseRecOn with
  | nil => exact posted_empty
  | append_singleton earlier stored ih =>
    rw [foldl_merge_concat]
    exact ih.merge stored

/-! ### The records of one file -/

/-- Of records that are put at the end, all or none are found by a file: they belong to one file. -/
theorem filter_file_append {α : Type} {file : α → FileId} {n : Nat} {new : List α}
    (hnew : ∀ a ∈ new, file a = ⟨n⟩) (l : List α) (id : FileId) :
    (l ++ new).filter (fun a => file a = id) =
      l.filter (fun a => file a = id) ++ if id = ⟨n⟩ then new else [] := by
  rw [List.filter_append]
  congr 1
  by_cases hid : id = ⟨n⟩
  · rw [if_pos hid, List.filter_eq_self]
    exact fun a ha => decide_eq_true ((hnew a ha).trans hid.symm)
  · rw [if_neg hid, List.filter_eq_nil_iff]
    exact fun a ha hfile => hid ((of_decide_eq_true hfile).symm.trans (hnew a ha))

/-- The references that a file brings in belong to it. -/
theorem file_of_mem_usagesOfFacts {n : Numbering} {facts : FileFacts} :
    ∀ u ∈ usagesOfFacts n facts, u.file = n.file := by
  intro u hu
  obtain ⟨r, -, hr⟩ := List.mem_filterMap.1 hu
  obtain ⟨scope, -, rfl⟩ := Option.map_eq_some_iff.1 hr
  rfl

/-- The findings that a file brings in belong to it. -/
theorem fileId_of_mem_diagnosticsOfFindings {n : Numbering} {findings : List Finding} :
    ∀ d ∈ diagnosticsOfFindings n findings, d.fileId = n.file := by
  intro d hd
  obtain ⟨f, -, rfl⟩ := List.mem_map.1 hd
  rfl

/-- A view of the records of each file, of which a merge changes that of the new file alone, shows
of a file what its own merge put there. -/
theorem records_foldl {α : Type} {records : Index → FileId → List α}
    {added : Index → StoredFile → List α}
    (hempty : ∀ id, records .empty id = [])
    (hmerge : ∀ (index : Index) stored id, index.Posted → records (index.merge stored) id =
      records index id ++ if id = ⟨index.files.length⟩ then added index stored else [])
    (before later : List StoredFile) (file : StoredFile) :
    records ((before ++ file :: later).foldl merge .empty) ⟨before.length⟩ =
      added (before.foldl merge .empty) file := by
  -- A file that is not there yet has no records.
  have hmissing : ∀ (files : List StoredFile) (id : FileId), files.length ≤ id.position →
      records (files.foldl merge .empty) id = [] := by
    intro files id hid
    induction files using List.reverseRecOn with
    | nil => exact hempty id
    | append_singleton earlier stored ih =>
      rw [List.length_append, List.length_singleton] at hid
      have hne : id ≠ ⟨earlier.length⟩ := by
        rintro rfl
        exact absurd hid (Nat.not_succ_le_self _)
      rw [foldl_merge_concat, hmerge _ _ _ (posted_foldl _), (linked_foldl _).length_files,
        if_neg hne, List.append_nil]
      exact ih (Nat.le_of_succ_le hid)
  induction later using List.reverseRecOn with
  | nil =>
    rw [foldl_merge_concat, hmerge _ _ _ (posted_foldl _), (linked_foldl _).length_files,
      if_pos rfl, hmissing before ⟨before.length⟩ (Nat.le_refl _), List.nil_append]
  | append_singleton later last ih =>
    have hne : (⟨before.length⟩ : FileId) ≠ ⟨(before ++ file :: later).length⟩ := by simp
    rw [← List.cons_append, ← List.append_assoc, foldl_merge_concat, hmerge _ _ _ (posted_foldl _),
      (linked_foldl _).length_files, if_neg hne, List.append_nil]
    exact ih

namespace Posted

variable {index : Index}

/-- A merge adds references of the new file. -/
theorem usagesInFile_merge (h : index.Posted) (stored : StoredFile) (id : FileId) :
    (index.merge stored).usagesInFile id = index.usagesInFile id ++
      if id = ⟨index.files.length⟩ then
        usagesOfFacts (index.numbering stored.facts) stored.facts
      else [] := by
  rw [(h.merge stored).usagesInFile, h.usagesInFile]
  exact filter_file_append file_of_mem_usagesOfFacts index.usages id

/-- A merge adds diagnostics of the new file. -/
theorem diagnosticsOfFile_merge (h : index.Posted) (stored : StoredFile) (id : FileId) :
    (index.merge stored).diagnosticsOfFile id = index.diagnosticsOfFile id ++
      if id = ⟨index.files.length⟩ then
        diagnosticsOfFindings (index.numbering stored.facts) (stored.facts.findings ++
          collisions index.files index.symbols
            (symbolsOf (index.numbering stored.facts) stored.facts))
      else [] := by
  rw [(h.merge stored).diagnosticsOfFile, h.diagnosticsOfFile]
  exact filter_file_append fileId_of_mem_diagnosticsOfFindings index.diagnostics id

end Posted

/-- The references of a file are those that its merge adds. -/
theorem usagesInFile_foldl (before later : List StoredFile) (file : StoredFile) :
    ((before ++ file :: later).foldl merge .empty).usagesInFile ⟨before.length⟩ =
      usagesOfFacts ((before.foldl merge .empty).numbering file.facts) file.facts :=
  records_foldl (fun _ => rfl) (fun _ stored id h => h.usagesInFile_merge stored id) before
    later file

/-- The diagnostics of a file are those that its merge adds. -/
theorem diagnosticsOfFile_foldl (before later : List StoredFile) (file : StoredFile) :
    ((before ++ file :: later).foldl merge .empty).diagnosticsOfFile ⟨before.length⟩ =
      diagnosticsOfFindings ((before.foldl merge .empty).numbering file.facts)
        (file.facts.findings ++ collisions (before.foldl merge .empty).files
          (before.foldl merge .empty).symbols
          (symbolsOf ((before.foldl merge .empty).numbering file.facts) file.facts)) :=
  records_foldl (fun _ => rfl) (fun _ stored id h => h.diagnosticsOfFile_merge stored id) before
    later file

end Index

end NameAtlas
