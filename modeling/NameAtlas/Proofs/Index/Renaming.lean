import Mathlib.Logic.Equiv.Defs
import NameAtlas.Proofs.Index.Listings
import NameAtlas.Proofs.Walk.Reads

/-!
# Indexes up to the numbers of files and scopes

The numbers of files and scopes come from the order of supply, so what two orders have in common is
seen once the numbers are renamed (`Renaming`). `Renamed` is what is carried through the merges: the
records of one index are those of the other under their new names. A merge of one file into both
keeps it, whatever the file collides with (`Renamed.merge`), as the reports name paths and no
numbers. What is asked of an index, its ancestors and members among it, is then the same up to the
names (`Renamed.sameUpTo`).
-/

namespace NameAtlas

/-- New names for the numbers of files and scopes, no two of them alike. -/
structure Renaming where
  /-- The new numbers of the files. -/
  file : Equiv.Perm FileId
  /-- The new numbers of the scopes. -/
  scope : Equiv.Perm ScopeId

namespace Renaming

/-- The renaming that leaves all numbers. -/
def refl : Renaming := ⟨Equiv.refl _, Equiv.refl _⟩

/-- One renaming behind the other. -/
def trans (r t : Renaming) : Renaming := ⟨r.file.trans t.file, r.scope.trans t.scope⟩

variable (r t : Renaming)

/-- The record of a file under its new number. -/
def ofFile (f : File) : File := { f with id := r.file f.id }

/-- The record of a scope under the new numbers. -/
def ofScope (s : Scope) : Scope :=
  { s with id := r.scope s.id, parent := s.parent.map r.scope, file := r.file s.file }

/-- The record of a symbol under the new numbers. -/
def ofSymbol (s : Symbol) : Symbol := { s with scope := r.scope s.scope, file := r.file s.file }

/-- The record of a reference under the new numbers. -/
def ofUsage (u : Usage) : Usage := { u with scope := r.scope u.scope, file := r.file u.file }

/-- The record of a diagnostic under the new number of its file. -/
def ofDiagnostic (d : Diagnostic) : Diagnostic := { d with fileId := r.file d.fileId }

/-- The renaming that does nothing leaves a scope. -/
theorem ofScope_refl (s : Scope) : refl.ofScope s = s := by
  unfold ofScope refl
  rw [Equiv.coe_refl, Option.map_id]
  rfl

/-- A scope is renamed in two steps as by the composed renaming. -/
theorem ofScope_trans (s : Scope) : (r.trans t).ofScope s = t.ofScope (r.ofScope s) := by
  unfold ofScope trans
  rw [Option.map_map]
  rfl

end Renaming

namespace Index

/-- Two indexes answer alike, up to the numbers of files and scopes. -/
structure SameUpTo (r : Renaming) (index index' : Index) : Prop where
  /-- The files by number, with their paths, modules and digests. -/
  file? : ∀ id, index'.file? (r.file id) = (index.file? id).map r.ofFile
  /-- The files by path. -/
  fileAt? : ∀ path, index'.fileAt? path = (index.fileAt? path).map r.ofFile
  /-- The scopes, with their owners, parents, spans and names. -/
  scope? : ∀ id, index'.scope? (r.scope id) = (index.scope? id).map r.ofScope
  /-- The symbols, with their kinds, types, locations, files and scopes. -/
  symbol? : ∀ q, index'.symbol? q = (index.symbol? q).map r.ofSymbol
  /-- The symbols of each scope. -/
  symbolsInScope : ∀ id,
    index'.symbolsInScope (r.scope id) = (index.symbolsInScope id).map r.ofSymbol
  /-- The bases of each class. -/
  bases : ∀ c, index'.bases.get? c = index.bases.get? c
  /-- The ancestors of each class. -/
  ancestors : ∀ c, index'.hierarchy.ancestors c = index.hierarchy.ancestors c
  /-- The members of each class. -/
  resolveMember? : ∀ c name,
    index'.hierarchy.resolveMember? c name = index.hierarchy.resolveMember? c name
  /-- The references to each name, each as often. -/
  usagesOf : ∀ q, (index'.usagesOf q).Perm ((index.usagesOf q).map r.ofUsage)
  /-- The diagnostics of each path, in their order. -/
  diagnosticsAt : ∀ path, index'.diagnosticsAt path = (index.diagnosticsAt path).map r.ofDiagnostic

/-- The records of one index are those of the other under their new names. -/
structure Renamed (r : Renaming) (index index' : Index) : Prop where
  /-- As many files. -/
  length_files : index'.files.length = index.files.length
  /-- As many scopes. -/
  length_scopes : index'.scopes.length = index.scopes.length
  /-- Files that are yet to come keep their numbers. -/
  file_of_le : ∀ id : FileId, index.files.length ≤ id.position → r.file id = id
  /-- Scopes that are yet to come keep their numbers. -/
  scope_of_le : ∀ id : ScopeId, index.scopes.length ≤ id.position → r.scope id = id
  /-- The files. -/
  file? : ∀ id, index'.file? (r.file id) = (index.file? id).map r.ofFile
  /-- The scopes. -/
  scope? : ∀ id, index'.scope? (r.scope id) = (index.scope? id).map r.ofScope
  /-- The symbols. -/
  symbol? : ∀ q, index'.symbol? q = (index.symbol? q).map r.ofSymbol
  /-- The bases. -/
  bases : ∀ c, index'.bases.get? c = index.bases.get? c
  /-- The references. -/
  usages : index'.usages.Perm (index.usages.map r.ofUsage)
  /-- The diagnostics of each file. -/
  diagnosticsOfFile : ∀ id,
    index'.diagnosticsOfFile (r.file id) = (index.diagnosticsOfFile id).map r.ofDiagnostic

/-! ### The records that a merge makes -/

/-- The numbers that a file gets in two indexes are renamings of each other. -/
structure Numbering.Moves (r : Renaming) (n n' : Numbering) : Prop where
  /-- The number of the file. -/
  file : r.file n.file = n'.file
  /-- The count of the scopes. -/
  count : n'.count = n.count
  /-- The numbers of the scopes. -/
  scope : ∀ i, i < n.count → r.scope ⟨n.first + i⟩ = ⟨n'.first + i⟩

namespace Numbering.Moves

variable {r : Renaming} {n n' : Numbering} {facts : FileFacts} (h : Numbering.Moves r n n')

include h

/-- The number of a scope of the file is renamed. -/
theorem scope? (i : Nat) : n'.scope? i = (n.scope? i).map r.scope := by
  unfold Numbering.scope?
  rw [h.count]
  split
  · next hi => rw [Option.map_some, h.scope i hi]
  · rfl

/-- The number of a scope, or of the first one in its place, is renamed. -/
theorem scopeOrFirst? (i : Nat) : n'.scopeOrFirst? i = (n.scopeOrFirst? i).map r.scope := by
  unfold Numbering.scopeOrFirst?
  rw [h.scope? i, h.scope? 0]
  cases n.scope? i <;> rfl

/-- The symbols that the file brings in are renamed. -/
theorem symbolsOf : Index.symbolsOf n' facts = (Index.symbolsOf n facts).map r.ofSymbol := by
  unfold Index.symbolsOf
  rw [List.map_filterMap]
  refine List.filterMap_congr fun d _ => ?_
  rw [h.scopeOrFirst?, ← h.file, Option.map_map, Option.map_map]
  rfl

/-- The references that the file brings in are renamed. -/
theorem usagesOfFacts :
    Index.usagesOfFacts n' facts = (Index.usagesOfFacts n facts).map r.ofUsage := by
  unfold Index.usagesOfFacts
  rw [List.map_filterMap]
  refine List.filterMap_congr fun reference _ => ?_
  rw [h.scopeOrFirst?, ← h.file, Option.map_map, Option.map_map]
  rfl

/-- The findings that the file brings in are renamed. -/
theorem diagnosticsOfFindings (findings : List Finding) :
    Index.diagnosticsOfFindings n' findings =
      (Index.diagnosticsOfFindings n findings).map r.ofDiagnostic := by
  unfold Index.diagnosticsOfFindings
  rw [List.map_map, ← h.file]
  rfl

/-- The entry of the file is renamed. -/
theorem fileOf (stored : StoredFile) :
    Index.fileOf n' stored = r.ofFile (Index.fileOf n stored) := by
  unfold Index.fileOf Renaming.ofFile
  rw [h.file]

/-- A renamed scope declares the same names. -/
theorem namesIn (id : ScopeId) :
    Index.namesIn n' facts (r.scope id) = Index.namesIn n facts id := by
  unfold Index.namesIn
  refine congrArg (fun l => (List.map Declaration.fqn l).eraseDups)
    (List.filter_congr fun d _ => ?_)
  rw [decide_eq_decide, h.scopeOrFirst?, Option.map_eq_some_iff]
  constructor
  · rintro ⟨scope, hscope, heq⟩
    rw [hscope, r.scope.injective heq]
  · exact fun hscope => ⟨id, hscope, rfl⟩

/-- The scopes that the file brings in are renamed. -/
theorem scopesOf (hcount : n.count = facts.scopes.length) :
    Index.scopesOf n' facts = (Index.scopesOf n facts).map r.ofScope := by
  unfold Index.scopesOf
  refine List.ext_getElem (by simp) fun i hi _ => ?_
  rw [List.length_mapIdx, ← hcount] at hi
  -- A parent is a scope of the same file and is renamed with it.
  have hparent : ∀ parent : Option Nat,
      parent.bind n'.scope? = (parent.bind n.scope?).map r.scope := by
    intro parent
    cases parent with
    | none => rfl
    | some p => exact h.scope? p
  simp only [List.getElem_map, List.getElem_mapIdx, Renaming.ofScope]
  rw [← h.scope i hi, h.namesIn, h.file, hparent]

end Numbering.Moves

/-! ### Renamed indexes -/

variable {r t : Renaming} {I J K : Index} {files : List StoredFile} {file : StoredFile}

namespace Renamed

/-- An index is a renamed copy of itself. -/
theorem refl (I : Index) : Renamed .refl I I where
  length_files := rfl
  length_scopes := rfl
  file_of_le _ _ := rfl
  scope_of_le _ _ := rfl
  file? _ := Option.map_id'.symm
  scope? _ := by
    rw [funext Renaming.ofScope_refl]
    exact Option.map_id'.symm
  symbol? _ := Option.map_id'.symm
  bases _ := rfl
  usages := .of_eq (List.map_id' _).symm
  diagnosticsOfFile _ := (List.map_id' _).symm

/-- A renamed copy of a renamed copy is one. -/
theorem trans (h : Renamed r I J) (h' : Renamed t J K) : Renamed (r.trans t) I K where
  length_files := h'.length_files.trans h.length_files
  length_scopes := h'.length_scopes.trans h.length_scopes
  file_of_le id hid := by
    show t.file (r.file id) = id
    rw [h.file_of_le id hid, h'.file_of_le id (h.length_files ▸ hid)]
  scope_of_le id hid := by
    show t.scope (r.scope id) = id
    rw [h.scope_of_le id hid, h'.scope_of_le id (h.length_scopes ▸ hid)]
  file? id := (h'.file? _).trans (by rw [h.file?, Option.map_map]; rfl)
  scope? id := by
    refine (h'.scope? _).trans ?_
    rw [h.scope?, Option.map_map, funext (Renaming.ofScope_trans r t)]
    rfl
  symbol? q := (h'.symbol? q).trans (by rw [h.symbol?, Option.map_map]; rfl)
  bases c := (h'.bases c).trans (h.bases c)
  usages := by
    refine h'.usages.trans ((h.usages.map t.ofUsage).trans ?_)
    rw [List.map_map]
    exact .refl _
  diagnosticsOfFile id := by
    refine (h'.diagnosticsOfFile _).trans ?_
    rw [h.diagnosticsOfFile, List.map_map]
    rfl

/-- The next file gets the same numbers in both. -/
theorem moves (h : Renamed r I J) (facts : FileFacts) :
    Numbering.Moves r (I.numbering facts) (J.numbering facts) where
  file := by
    unfold numbering
    rw [h.length_files]
    exact h.file_of_le _ (Nat.le_refl _)
  count := rfl
  scope i _ := by
    unfold numbering
    rw [h.length_scopes]
    exact h.scope_of_le _ (Nat.le_add_right _ _)

/-- A renamed file has the same path. -/
theorem pathOf (h : Renamed r I J) (id : FileId) :
    Index.pathOf J.files (r.file id) = Index.pathOf I.files id := by
  have hfile := h.file? id
  unfold Index.file? at hfile
  unfold Index.pathOf
  rw [hfile, Option.map_map]
  rfl

end Renamed

/-- Entries that are appended under their new names are looked up by these, as the old ones are. -/
theorem getElem?_append_map {ι α : Type} {position : ι → Nat} {e : ι → ι} {f : α → α}
    {l l' : List α} (hlength : l'.length = l.length)
    (hold : ∀ i, l'[position (e i)]? = (l[position i]?).map f)
    (hfixed : ∀ i, l.length ≤ position i → e i = i) (new : List α) (i : ι) :
    (l' ++ new.map f)[position (e i)]? = ((l ++ new)[position i]?).map f := by
  obtain hlt | hge := Nat.lt_or_ge (position i) l.length
  · have hlt' : position (e i) < l'.length := by
      have hsome := hold i
      rw [List.getElem?_eq_getElem hlt, Option.map_some] at hsome
      exact (List.getElem?_eq_some_iff.1 hsome).1
    rw [List.getElem?_append_left hlt, List.getElem?_append_left hlt', hold]
  · rw [hfixed i hge, List.getElem?_append_right hge,
      List.getElem?_append_right (hlength ▸ hge), hlength, List.getElem?_map]

/-- The symbols written under their new names are found as before. -/
theorem get?_insertSymbols_map {table table' : Table Fqn Symbol}
    (htable : ∀ q, table'.get? q = (table.get? q).map r.ofSymbol) (symbols : List Symbol)
    (q : Fqn) : (insertSymbols table' (symbols.map r.ofSymbol)).get? q =
      ((insertSymbols table symbols).get? q).map r.ofSymbol := by
  rw [get?_insertSymbols, get?_insertSymbols, List.filter_map, List.getLast?_map, htable]
  show ((symbols.filter fun s => s.fqn = q).getLast?.map _).or _ = _
  cases (symbols.filter fun s => s.fqn = q).getLast? <;> rfl

/-- The reports name paths, so they are the same under all names. -/
theorem collisions_map {fs fs' : List File} {table table' : Table Fqn Symbol}
    (hpaths : ∀ id, pathOf fs' (r.file id) = pathOf fs id)
    (htable : ∀ q, table'.get? q = (table.get? q).map r.ofSymbol) (symbols : List Symbol) :
    collisions fs' table' (symbols.map r.ofSymbol) = collisions fs table symbols := by
  -- The induction is on the symbols: each of them collides in both tables or in neither, and goes
  -- into both.
  induction symbols generalizing table table' with
  | nil => rfl
  | cons s rest ih =>
    have hcollides : ∀ previous, collides (r.ofSymbol previous) (r.ofSymbol s) =
        collides previous s := by
      intro previous
      unfold collides Renaming.ofSymbol
      simp
    have hinsert : ∀ q, (table'.insert s.fqn (r.ofSymbol s)).get? q =
        ((table.insert s.fqn s).get? q).map r.ofSymbol := by
      intro q
      rw [Table.get?_insert, Table.get?_insert, htable]
      split <;> rfl
    have hfqn : (r.ofSymbol s).fqn = s.fqn := rfl
    rw [List.map_cons, collisions, collisions, hfqn, ih hinsert, htable s.fqn]
    cases table.get? s.fqn with
    | none => rfl
    | some previous =>
      dsimp only [Option.map_some]
      rw [hcollides, show (r.ofSymbol previous).file = r.file previous.file from rfl, hpaths]
      rfl

namespace Renamed

/-- Merging a file into both gives a file the same diagnostics in both. -/
theorem map_diagnosticsOfFile_merge (h : Renamed r I J) (hI : I.Posted) (hJ : J.Posted)
    (stored : StoredFile) (id : FileId) :
    (J.merge stored).diagnosticsOfFile (r.file id) =
      ((I.merge stored).diagnosticsOfFile id).map r.ofDiagnostic := by
  have hmoves := h.moves stored.facts
  -- The number of the new file is one behind those of the index and is left by the renaming.
  have hfile : r.file id = ⟨J.files.length⟩ ↔ id = ⟨I.files.length⟩ := by
    rw [h.length_files, ← h.file_of_le ⟨I.files.length⟩ (Nat.le_refl _), r.file.injective.eq_iff,
      h.file_of_le _ (Nat.le_refl _)]
  have hcollisions := collisions_map h.pathOf h.symbol?
    (symbolsOf (I.numbering stored.facts) stored.facts)
  rw [hJ.diagnosticsOfFile_merge, hI.diagnosticsOfFile_merge, List.map_append,
    h.diagnosticsOfFile, hmoves.symbolsOf, hcollisions, hmoves.diagnosticsOfFindings]
  by_cases hid : id = ⟨I.files.length⟩
  · rw [if_pos hid, if_pos (hfile.2 hid)]
  · rw [if_neg hid, if_neg fun h => hid (hfile.1 h)]
    rfl

/-- Merging a file into both keeps the records alike. -/
theorem merge (h : Renamed r I J) (hI : I.Posted) (hJ : J.Posted) (stored : StoredFile) :
    Renamed r (I.merge stored) (J.merge stored) := by
  have hmoves := h.moves stored.facts
  -- Field by field, what the file brings in is renamed, and what was there is renamed already.
  constructor
  case length_files => simp [merge_files, h.length_files]
  case length_scopes => simp [merge_scopes, h.length_scopes, length_scopesOf]
  case file_of_le =>
    intro id hid
    refine h.file_of_le id (Nat.le_trans ?_ hid)
    simp [merge_files]
  case scope_of_le =>
    intro id hid
    refine h.scope_of_le id (Nat.le_trans ?_ hid)
    simp [merge_scopes]
  case file? =>
    intro id
    unfold Index.file?
    rw [merge_files, merge_files, hmoves.fileOf]
    exact getElem?_append_map h.length_files h.file? h.file_of_le [_] id
  case scope? =>
    intro id
    unfold Index.scope?
    rw [merge_scopes, merge_scopes, hmoves.scopesOf rfl]
    exact getElem?_append_map h.length_scopes h.scope? h.scope_of_le _ id
  case symbol? =>
    intro q
    unfold Index.symbol?
    rw [merge_symbols, merge_symbols, hmoves.symbolsOf]
    exact get?_insertSymbols_map h.symbol? _ q
  case bases =>
    intro c
    rw [merge_bases, merge_bases, insertBases, insertBases, get?_foldl_insert, get?_foldl_insert,
      h.bases]
  case usages =>
    rw [merge_usages, merge_usages, hmoves.usagesOfFacts, List.map_append]
    exact h.usages.append_right _
  case diagnosticsOfFile => exact h.map_diagnosticsOfFile_merge hI hJ stored

/-- Merging the same files into both keeps the records alike. -/
theorem foldl_merge {before before' : List StoredFile}
    (h : Renamed r (before.foldl Index.merge .empty) (before'.foldl Index.merge .empty))
    (later : List StoredFile) :
    Renamed r ((before ++ later).foldl Index.merge .empty)
      ((before' ++ later).foldl Index.merge .empty) := by
  induction later using List.reverseRecOn with
  | nil => simpa using h
  | append_singleton earlier last ih =>
    rw [← List.append_assoc, ← List.append_assoc, foldl_merge_concat, foldl_merge_concat]
    exact ih.merge (posted_foldl _) (posted_foldl _) last

/-! ### Questions -/

/-- Renamed indexes have the same bases. -/
theorem basesOf (h : Renamed r I J) (c : Fqn) :
    Hierarchy.basesOf J.bases c = Hierarchy.basesOf I.bases c := by
  unfold Hierarchy.basesOf
  rw [h.bases]

/-- Renamed indexes have the same ancestors. -/
theorem ancestors (h : Renamed r I J) (c : Fqn) :
    J.hierarchy.ancestors c = I.hierarchy.ancestors c :=
  Hierarchy.ancestors_congr (g := J.hierarchy) (h := I.hierarchy) h.basesOf c

/-- Renamed indexes declare the same names. -/
theorem declares (h : Renamed r I J) : J.hierarchy.declares = I.hierarchy.declares := by
  funext q
  have hsymbol := h.symbol? q
  unfold Index.symbol? at hsymbol
  show (J.symbols.get? q).isSome = (I.symbols.get? q).isSome
  rw [hsymbol, Option.isSome_map]

/-- Renamed indexes resolve members alike. -/
theorem resolveMember? (h : Renamed r I J) (c : Fqn) (name : String) :
    J.hierarchy.resolveMember? c name = I.hierarchy.resolveMember? c name :=
  Hierarchy.resolveMember?_congr (g := J.hierarchy) (h := I.hierarchy) h.basesOf h.declares c name

/-- A renamed scope lists the renamed symbols. -/
theorem symbolsInScope (h : Renamed r I J) (id : ScopeId) :
    J.symbolsInScope (r.scope id) = (I.symbolsInScope id).map r.ofSymbol := by
  unfold Index.symbolsInScope
  rw [h.scope?]
  cases I.scope? id with
  | none => rfl
  | some s =>
    dsimp only [Option.map_some]
    rw [funext h.symbol?, ← List.map_filterMap, List.filter_map]
    refine congrArg (List.map _) (List.filter_congr fun symbol _ => ?_)
    rw [Function.comp_apply, decide_eq_decide]
    exact r.scope.injective.eq_iff

/-- The references to a name are the renamed ones, in some order. -/
theorem usagesOf (h : Renamed r I J) (hI : I.Posted) (hJ : J.Posted) (q : Fqn) :
    (J.usagesOf q).Perm ((I.usagesOf q).map r.ofUsage) := by
  rw [hI.usagesOf, hJ.usagesOf]
  refine (h.usages.filter _).trans (.of_eq ?_)
  rw [List.filter_map]
  rfl

/-- Where the paths are distinct, each leads to the same file under its new number. -/
theorem fileAt? {files files' : List StoredFile} (h : Renamed r I J) (hI : Linked files I)
    (hJ : Linked files' J) (hperm : files.Perm files')
    (hpaths : (files.map fun stored => stored.facts.path).Nodup) (path : String) :
    J.fileAt? path = (I.fileAt? path).map r.ofFile := by
  have hpaths' : (files'.map fun stored => stored.facts.path).Nodup :=
    (hperm.map _).nodup_iff.1 hpaths
  cases hfound : I.fileAt? path with
  | none =>
    -- Both indexes have the files of the same paths.
    refine List.find?_eq_none.2 fun f hf hpath => ?_
    have hmem : f.path ∈ J.files.map File.path := List.mem_map_of_mem hf
    rw [hJ.map_path, ← (hperm.map _).mem_iff, ← hI.map_path] at hmem
    obtain ⟨f', hf', hpath'⟩ := List.mem_map.1 hmem
    refine List.find?_eq_none.1 hfound f' hf' ?_
    rw [hpath']
    exact hpath
  | some f =>
    have hf : f ∈ I.files := List.mem_of_find?_eq_some hfound
    have hpath : f.path = path := by simpa using List.find?_some hfound
    have hfile := h.file? f.id
    rw [(hI.file?_and_fileAt? hpaths f hf).1, Option.map_some] at hfile
    have hmem : r.ofFile f ∈ J.files := List.mem_of_getElem? hfile
    rw [Option.map_some, ← hpath]
    exact (hJ.file?_and_fileAt? hpaths' _ hmem).2

/-- Renamed indexes of the same files answer alike, up to the renaming. -/
theorem sameUpTo {files files' : List StoredFile}
    (h : Renamed r (files.foldl Index.merge .empty) (files'.foldl Index.merge .empty))
    (hperm : files.Perm files') (hpaths : (files.map fun stored => stored.facts.path).Nodup) :
    SameUpTo r (files.foldl Index.merge .empty) (files'.foldl Index.merge .empty) where
  file? := h.file?
  fileAt? := h.fileAt? (linked_foldl files) (linked_foldl files') hperm hpaths
  scope? := h.scope?
  symbol? := h.symbol?
  symbolsInScope := h.symbolsInScope
  bases := h.bases
  ancestors := h.ancestors
  resolveMember? := h.resolveMember?
  usagesOf := h.usagesOf (posted_foldl files) (posted_foldl files')
  diagnosticsAt path := by
    have hfile := h.fileAt? (linked_foldl files) (linked_foldl files') hperm hpaths path
    unfold diagnosticsAt
    rw [hfile]
    cases Index.fileAt? _ path with
    | none => rfl
    | some f => exact h.diagnosticsOfFile f.id

end Renamed

end Index

end NameAtlas
