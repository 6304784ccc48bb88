import Mathlib.Data.List.Nodup
import NameAtlas.Proofs.Index.Merge
import NameAtlas.Proofs.Store

/-!
# The records of an index refer to each other soundly

The facts that a store is given may be anything: scopes without code, parents and scopes out of
range, names declared twice. The index made of them is sound all the same (`Store.index_after_sound`):
files and scopes are numbered through in the order of supply, no record points at a scope that is
missing or that belongs to another file, and each symbol is listed in one scope, once. The
proof carries `Linked` along the merges. What it says of the names listed by a scope
is weaker than the final statement, since a scope keeps names that a later file takes
over; the look-up `symbolsInScope` drops these.
-/

namespace NameAtlas

namespace Index

/-- The file of each scope of some files, when the scopes are numbered through file by file. -/
def scopeFiles (files : List StoredFile) : List FileId :=
  (files.mapIdx fun i stored => List.replicate stored.facts.scopes.length ⟨i⟩).flatten

/-- True if an index has the scope with a number, and it belongs to a file. -/
def HasScope (index : Index) (id : ScopeId) (file : FileId) : Prop :=
  ∃ q, index.scope? id = some q ∧ q.file = file

/-- The index of a store is sound. -/
structure Sound (store : Store) (index : Index) : Prop where
  /-- The files are numbered from zero in the order of supply. -/
  files : index.files.map (fun f => (f.id, f.path)) = store.paths.mapIdx fun i path => (⟨i⟩, path)
  /-- Number and path of a file lead back to it. -/
  file? : ∀ f ∈ index.files, index.file? f.id = some f ∧ index.fileAt? f.path = some f
  /-- The scopes are numbered from zero, file by file. -/
  scopes : index.scopes.map (fun s => (s.id, s.file)) =
    (scopeFiles store.files.values).mapIdx fun i file => (⟨i⟩, file)
  /-- A parent is a scope of the same file. -/
  parents : ∀ s ∈ index.scopes, ∀ p, s.parent = some p → index.HasScope p s.file
  /-- The scope of a symbol is one of its file. -/
  symbols : ∀ s ∈ index.allSymbols, index.HasScope s.scope s.file
  /-- The scope of a reference is one of its file. -/
  usages : ∀ u ∈ index.usages, index.HasScope u.scope u.file
  /-- A symbol is listed once in its scope, and in no other. -/
  listed : ∀ s ∈ index.allSymbols, ∀ id,
    (index.symbolsInScope id).count s = if id = s.scope then 1 else 0

/-! ### One merge -/

/-- What holds of the index of some files at every merge. -/
structure Linked (merged : List StoredFile) (index : Index) : Prop where
  /-- The files are numbered in order. -/
  files : index.files.map (fun f => (f.id, f.path)) =
    (merged.map fun stored => stored.facts.path).mapIdx fun i path => (⟨i⟩, path)
  /-- The scopes are numbered in order, file by file. -/
  scopes : index.scopes.map (fun s => (s.id, s.file)) =
    (scopeFiles merged).mapIdx fun i file => (⟨i⟩, file)
  /-- A parent is a scope of the same file. -/
  parents : ∀ s ∈ index.scopes, ∀ p, s.parent = some p → index.HasScope p s.file
  /-- A symbol is found by its name; its scope is one of its file and lists the name. -/
  symbols : ∀ k s, index.symbol? k = some s →
    s.fqn = k ∧ ∃ q, index.scope? s.scope = some q ∧ q.file = s.file ∧ k ∈ q.symbols
  /-- The scope of a reference is one of its file. -/
  usages : ∀ u ∈ index.usages, index.HasScope u.scope u.file
  /-- No scope lists a name twice. -/
  nodup : ∀ q ∈ index.scopes, q.symbols.Nodup

/-- Nothing is merged in the empty index. -/
theorem linked_empty : Linked [] .empty where
  files := rfl
  scopes := rfl
  parents _ h := absurd h List.not_mem_nil
  symbols _ _ h := by cases h
  usages _ h := absurd h List.not_mem_nil
  nodup _ h := absurd h List.not_mem_nil

/-- A scope of the index is still one behind a merge. -/
theorem HasScope.merge {index : Index} {id : ScopeId} {file : FileId} (h : index.HasScope id file)
    (stored : StoredFile) : (index.merge stored).HasScope id file := by
  obtain ⟨q, hq, hfile⟩ := h
  exact ⟨q, scope?_merge_of_some hq stored, hfile⟩

/-- A scope that a merged file brings belongs to that file. -/
theorem hasScope_merge_add (index : Index) {stored : StoredFile} {j : Nat}
    (h : j < stored.facts.scopes.length) :
    (index.merge stored).HasScope ⟨index.scopes.length + j⟩ ⟨index.files.length⟩ := by
  obtain ⟨q, hq, hfile, -⟩ := scope?_merge_add index h
  exact ⟨q, hq, hfile⟩

/-- The scopes of a file come behind those of the files before it. -/
theorem scopeFiles_concat (files : List StoredFile) (stored : StoredFile) :
    scopeFiles (files ++ [stored]) =
      scopeFiles files ++ List.replicate stored.facts.scopes.length ⟨files.length⟩ := by
  simp [scopeFiles, List.mapIdx_append]

namespace Linked

variable {merged : List StoredFile} {index : Index}

/-- There are as many files as were merged. -/
theorem length_files (h : Linked merged index) : index.files.length = merged.length := by
  simpa using congrArg List.length h.files

/-- There are as many scopes as the merged files have. -/
theorem length_scopes (h : Linked merged index) :
    index.scopes.length = (scopeFiles merged).length := by
  simpa using congrArg List.length h.scopes

variable (h : Linked merged index) (stored : StoredFile)

include h

/-- Files are numbered in the order in which they are merged. -/
theorem files_merge : (index.merge stored).files.map (fun f => (f.id, f.path)) =
    ((merged ++ [stored]).map fun s => s.facts.path).mapIdx fun i path => (⟨i⟩, path) := by
  rw [List.map_append, List.map_singleton, List.mapIdx_concat, ← h.files, List.length_map,
    ← h.length_files, merge, List.map_append]
  rfl

/-- Scopes are numbered in the order in which their files are merged. -/
theorem scopes_merge : (index.merge stored).scopes.map (fun s => (s.id, s.file)) =
    (scopeFiles (merged ++ [stored])).mapIdx fun i file => (⟨i⟩, file) := by
  have hnew : (scopesOf (index.numbering stored.facts) stored.facts).map (fun s => (s.id, s.file)) =
      (List.replicate stored.facts.scopes.length (⟨index.files.length⟩ : FileId)).mapIdx
        fun i file => (⟨i + index.scopes.length⟩, file) := by
    apply List.ext_getElem
    · simp [length_scopesOf]
    · intro j hj hj'
      simp [scopesOf, numbering, Nat.add_comm]
  rw [scopeFiles_concat, List.mapIdx_append, ← h.scopes, ← h.length_scopes, ← h.length_files,
    merge, List.map_append, hnew]

/-- Parents behind a merge are scopes of the same file. -/
theorem parents_merge : ∀ s ∈ (index.merge stored).scopes, ∀ p, s.parent = some p →
    (index.merge stored).HasScope p s.file := by
  intro s hs p hp
  obtain hold | hnew := List.mem_append.1 hs
  · exact (h.parents s hold p hp).merge stored
  · -- A parent out of range was dropped, so the one that is left is a scope of the file.
    obtain ⟨i, hi, rfl⟩ := List.mem_mapIdx.1 hnew
    obtain ⟨a, -, ha⟩ := Option.bind_eq_some_iff.1 hp
    obtain ⟨j, hj, rfl⟩ := Numbering.lt_of_scope? ha
    exact hasScope_merge_add index hj

/-- Behind a merge a symbol is found by its name, and its scope belongs to its file and lists it. -/
theorem symbols_merge : ∀ k s, (index.merge stored).symbol? k = some s →
    s.fqn = k ∧ ∃ q, (index.merge stored).scope? s.scope = some q ∧ q.file = s.file ∧
      k ∈ q.symbols := by
  intro k s hs
  -- A new symbol is filed under a scope of its file; an old one stays in its scope, which keeps its
  -- names.
  obtain ⟨hmem, rfl⟩ | ⟨hold, -⟩ := symbol?_merge hs
  · obtain ⟨d, -, scope, hscope, rfl⟩ := mem_symbolsOf.1 hmem
    obtain ⟨j, hj, rfl⟩ := Numbering.lt_of_scopeOrFirst? hscope
    obtain ⟨q, hq, hfile, hnames⟩ := scope?_merge_add index hj
    refine ⟨rfl, q, hq, hfile, ?_⟩
    rw [hnames]
    exact fqn_mem_namesIn hmem
  · obtain ⟨hfqn, q, hq, hfile, hnames⟩ := h.symbols k s hold
    exact ⟨hfqn, q, scope?_merge_of_some hq stored, hfile, hnames⟩

/-- Behind a merge the scope of a reference is one of its file. -/
theorem usages_merge : ∀ u ∈ (index.merge stored).usages,
    (index.merge stored).HasScope u.scope u.file := by
  intro u hu
  obtain hold | hnew := List.mem_append.1 hu
  · exact (h.usages u hold).merge stored
  · obtain ⟨r, -, hr⟩ := List.mem_filterMap.1 hnew
    obtain ⟨scope, hscope, rfl⟩ := Option.map_eq_some_iff.1 hr
    obtain ⟨j, hj, rfl⟩ := Numbering.lt_of_scopeOrFirst? hscope
    exact hasScope_merge_add index hj

/-- Behind a merge no scope lists a name twice. -/
theorem nodup_merge : ∀ q ∈ (index.merge stored).scopes, q.symbols.Nodup := by
  intro q hq
  obtain hold | hnew := List.mem_append.1 hq
  · exact h.nodup q hold
  · obtain ⟨i, hi, rfl⟩ := List.mem_mapIdx.1 hnew
    exact nodup_eraseDups _

/-- Merging one more file keeps an index linked. -/
theorem merge : Linked (merged ++ [stored]) (index.merge stored) where
  files := h.files_merge stored
  scopes := h.scopes_merge stored
  parents := h.parents_merge stored
  symbols := h.symbols_merge stored
  usages := h.usages_merge stored
  nodup := h.nodup_merge stored

end Linked

/-! ### All merges -/

/-- The file at the end is merged last. -/
theorem foldl_merge_concat (files : List StoredFile) (stored : StoredFile) :
    (files ++ [stored]).foldl merge .empty = (files.foldl merge .empty).merge stored := by
  rw [List.foldl_append]
  rfl

/-- The index of any files is linked. -/
theorem linked_foldl (files : List StoredFile) : Linked files (files.foldl merge .empty) := by
  induction files using List.reverseRecOn with
  | nil => exact linked_empty
  | append_singleton earlier stored ih =>
    rw [foldl_merge_concat]
    exact ih.merge stored

/-! ### Listings -/

/-- The symbols of an index are those that are found by a name. -/
theorem mem_allSymbols {index : Index} {s : Symbol} :
    s ∈ index.allSymbols ↔ ∃ k, index.symbol? k = some s := by
  rw [allSymbols, List.mem_mergeSort]
  exact Table.mem_values_iff _ _

/-- In a list of distinct names that are looked up, a symbol is found as often as its name
stands in the list. -/
theorem count_filterMap_symbol? {index : Index} {names : List Fqn} (hnames : names.Nodup)
    (hkeys : ∀ k s, index.symbol? k = some s → s.fqn = k) {s : Symbol} (hmem : s.fqn ∈ names)
    (hs : index.symbol? s.fqn = some s) : (names.filterMap index.symbol?).count s = 1 := by
  refine List.count_eq_one_of_mem (hnames.filterMap ?_) (List.mem_filterMap.2 ⟨_, hmem, hs⟩)
  intro k k' s' hk hk'
  exact (hkeys k s' hk).symm.trans (hkeys k' s' hk')

/-- A symbol is listed once in its own scope and in no other. -/
theorem Linked.count_symbolsInScope {merged : List StoredFile} {index : Index}
    (h : Linked merged index) {s : Symbol} (hs : s ∈ index.allSymbols) (id : ScopeId) :
    (index.symbolsInScope id).count s = if id = s.scope then 1 else 0 := by
  obtain ⟨k, hk⟩ := mem_allSymbols.1 hs
  obtain ⟨rfl, q, hq, -, hlisted⟩ := h.symbols k s hk
  by_cases hid : id = s.scope
  -- In its own scope its name is listed once, and leads back to it.
  · subst hid
    have hmem : q ∈ index.scopes := List.mem_of_getElem? hq
    have hkeys := fun k s hs => (h.symbols k s hs).1
    rw [if_pos rfl, symbolsInScope, hq]
    exact (List.count_filter (by simp)).trans
      (count_filterMap_symbol? (h.nodup q hmem) hkeys hlisted hk)
  -- Another scope may still list the name, but the look-up drops symbols of other scopes.
  · rw [if_neg hid, List.count_eq_zero]
    intro hmem
    rw [symbolsInScope] at hmem
    split at hmem
    · exact hid (of_decide_eq_true (List.mem_filter.1 hmem).2).symm
    · exact List.not_mem_nil hmem

/-- The files have the paths that were merged, in this order. -/
theorem Linked.map_path {merged : List StoredFile} {index : Index} (h : Linked merged index) :
    index.files.map File.path = merged.map fun stored => stored.facts.path := by
  have hsnd := congrArg (List.map Prod.snd) h.files
  rw [List.map_map] at hsnd
  refine hsnd.trans (List.ext_getElem ?_ ?_)
  · simp
  · intro i hi hi'
    simp

/-- The number of a file is its place. -/
theorem Linked.id_eq {merged : List StoredFile} {index : Index} (h : Linked merged index) {i : Nat}
    {f : File} (hf : index.files[i]? = some f) : f.id = ⟨i⟩ := by
  have hget := congrArg (fun l => l[i]?) h.files
  simp only [List.getElem?_map, List.getElem?_mapIdx, hf, Option.map_some] at hget
  obtain ⟨stored, -, heq⟩ := Option.map_eq_some_iff.1 hget.symm
  exact (Prod.mk.inj heq).1.symm

/-- The number and the path of a file lead back to it, as no two files have the same path. -/
theorem Linked.file?_and_fileAt? {merged : List StoredFile} {index : Index}
    (h : Linked merged index) (hpaths : (merged.map fun stored => stored.facts.path).Nodup) :
    ∀ f ∈ index.files, index.file? f.id = some f ∧ index.fileAt? f.path = some f := by
  intro f hf
  constructor
  · obtain ⟨i, hi⟩ := List.mem_iff_getElem?.1 hf
    rw [file?, h.id_eq hi]
    exact hi
  -- The first file with the path is the only one.
  · obtain ⟨f', hfound⟩ := Option.isSome_iff_exists.1
      (List.find?_isSome (p := fun f' => f'.path = f.path).2 ⟨f, hf, decide_eq_true rfl⟩)
    have hsame : f'.path = f.path := by simpa using List.find?_some hfound
    rw [← h.map_path] at hpaths
    rw [fileAt?, hfound,
      List.inj_on_of_nodup_map hpaths (List.mem_of_find?_eq_some hfound) hf hsame]

end Index

/-- Whatever facts a store was given and whatever it was made to drop, its index is sound. -/
theorem Store.index_after_sound (changes : List Change) :
    Index.Sound (after changes) (after changes).index := by
  -- The index merges the files of the store one by one, and so it is linked to them.
  have h : Index.Linked (after changes).files.values (after changes).index :=
    Index.linked_foldl _
  have hpaths := values_path_after changes
  constructor
  case files =>
    rw [h.files, hpaths]
  case file? =>
    apply h.file?_and_fileAt?
    rw [hpaths]
    exact nodup_paths _
  case scopes => exact h.scopes
  case parents => exact h.parents
  case symbols =>
    intro s hs
    obtain ⟨k, hk⟩ := Index.mem_allSymbols.1 hs
    obtain ⟨-, q, hq, hfile, -⟩ := h.symbols k s hk
    exact ⟨q, hq, hfile⟩
  case usages => exact h.usages
  case listed => exact fun s hs id => h.count_symbolsInScope hs id

end NameAtlas
