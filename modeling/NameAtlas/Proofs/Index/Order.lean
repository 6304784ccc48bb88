import NameAtlas.Proofs.Index.Renaming
import NameAtlas.Proofs.Store.Latest

/-!
# The order of supply

Files that declare different names, and list bases only for what they declare, do not touch each
other when they are merged (`Apart`). Then two neighbours can be supplied in either order: the
numbers of the two files change places, and so do the two blocks of numbers of their scopes
(`swapPlaces`). Every order comes from any other by such swaps, so the indexes are the same up to
the numbers (`Store.sameUpTo_of_perm`), and the files are told of no collisions.
-/

namespace NameAtlas

namespace Index

/-- Files that declare different names, and list bases only for what they declare. -/
structure Apart (files : List StoredFile) : Prop where
  /-- No two files declare the same name. -/
  names : files.Pairwise fun f f' => f.facts.names.Disjoint f'.facts.names
  /-- Bases are listed for declared names. -/
  derived : ∀ f ∈ files, ∀ i ∈ f.facts.inheritances, i.derived ∈ f.facts.names

/-! ### Two blocks that change places -/

/-- The places of two blocks that stand one behind the other, when they change places. -/
def swapPlaces (start first second i : Nat) : Nat :=
  if i < start then i
  else if i < start + first then i + second
  else if i < start + first + second then i - first
  else i

/-- Changing places twice leads back. -/
theorem swapPlaces_swapPlaces (start first second i : Nat) :
    swapPlaces start second first (swapPlaces start first second i) = i := by
  unfold swapPlaces
  split_ifs <;> omega

/-- What stands in front of both blocks keeps its place. -/
theorem swapPlaces_of_lt {start first second i : Nat} (h : i < start) :
    swapPlaces start first second i = i := if_pos h

/-- What stands behind both blocks keeps its place. -/
theorem swapPlaces_of_le {start first second i : Nat} (h : start + first + second ≤ i) :
    swapPlaces start first second i = i := by
  unfold swapPlaces
  split_ifs <;> omega

/-- The first block moves behind the second one. -/
theorem swapPlaces_first {start first second i : Nat} (h : i < first) :
    swapPlaces start first second (start + i) = start + second + i := by
  unfold swapPlaces
  split_ifs <;> omega

/-- The second block moves to the start of the first one. -/
theorem swapPlaces_second {start first second i : Nat} (h : i < second) :
    swapPlaces start first second (start + first + i) = start + i := by
  unfold swapPlaces
  split_ifs <;> omega

/-- The entries of the two blocks are found in their new places. -/
theorem getElem?_swapPlaces {α : Type} (l a b : List α) (i : Nat) :
    (l ++ b ++ a)[swapPlaces l.length a.length b.length i]? = (l ++ a ++ b)[i]? := by
  grind [swapPlaces]

/-- The renaming under which the next two files of an index, and the blocks of their scopes, change
places. -/
def swapping (index : Index) (a b : StoredFile) : Renaming where
  file :=
    { toFun := fun id => ⟨swapPlaces index.files.length 1 1 id.position⟩
      invFun := fun id => ⟨swapPlaces index.files.length 1 1 id.position⟩
      left_inv := fun _ => congrArg FileId.mk (swapPlaces_swapPlaces _ _ _ _)
      right_inv := fun _ => congrArg FileId.mk (swapPlaces_swapPlaces _ _ _ _) }
  scope :=
    { toFun := fun id =>
        ⟨swapPlaces index.scopes.length a.facts.scopes.length b.facts.scopes.length id.position⟩
      invFun := fun id =>
        ⟨swapPlaces index.scopes.length b.facts.scopes.length a.facts.scopes.length id.position⟩
      left_inv := fun _ => congrArg ScopeId.mk (swapPlaces_swapPlaces _ _ _ _)
      right_inv := fun _ => congrArg ScopeId.mk (swapPlaces_swapPlaces _ _ _ _) }

/-! ### Records that keep their names -/

variable {files before : List StoredFile} {file a b : StoredFile} {index : Index} {r : Renaming}

/-- Scopes belong to files that were merged. -/
theorem position_lt_of_mem_scopeFiles {id : FileId} (h : id ∈ scopeFiles files) :
    id.position < files.length := by
  unfold scopeFiles at h
  obtain ⟨block, hblock, hid⟩ := List.mem_flatten.1 h
  obtain ⟨i, hi, rfl⟩ := List.mem_mapIdx.1 hblock
  rw [List.eq_of_mem_replicate hid]
  exact hi

namespace Linked

variable (h : Linked files index)

include h

/-- The numbers of a scope and of its file are numbers of the index. -/
theorem scope_lt {s : Scope} (hs : s ∈ index.scopes) :
    s.id.position < index.scopes.length ∧ s.file.position < index.files.length := by
  obtain ⟨i, hi⟩ := List.mem_iff_getElem?.1 hs
  have hget := congrArg (fun l => l[i]?) h.scopes
  simp only [List.getElem?_map, List.getElem?_mapIdx, hi, Option.map_some] at hget
  obtain ⟨id, hid, heq⟩ := Option.map_eq_some_iff.1 hget.symm
  obtain ⟨hs, hfile⟩ := Prod.mk.inj heq
  constructor
  · rw [← hs]
    exact (List.getElem?_eq_some_iff.1 hi).1
  · rw [← hfile, h.length_files]
    exact position_lt_of_mem_scopeFiles (List.mem_of_getElem? hid)

/-- A scope that the index has, and its file, have numbers of the index. -/
theorem hasScope_lt {scope : ScopeId} {id : FileId} (hscope : index.HasScope scope id) :
    scope.position < index.scopes.length ∧ id.position < index.files.length := by
  obtain ⟨s, hs, rfl⟩ := hscope
  exact ⟨(List.getElem?_eq_some_iff.1 hs).1, (h.scope_lt (List.mem_of_getElem? hs)).2⟩

end Linked

/-- A renaming leaves the numbers of the files and scopes that an index has. -/
structure Leaves (r : Renaming) (index : Index) : Prop where
  /-- The numbers of the files. -/
  file : ∀ id : FileId, id.position < index.files.length → r.file id = id
  /-- The numbers of the scopes. -/
  scope : ∀ id : ScopeId, id.position < index.scopes.length → r.scope id = id

namespace Leaves

variable (h : Leaves r index) (hlinked : Linked files index)

include h hlinked

/-- Renaming leaves the files of the index. -/
theorem map_files : index.files.map r.ofFile = index.files := by
  refine List.map_congr_left (g := id) (fun f hf => ?_) |>.trans (List.map_id _)
  obtain ⟨i, hi⟩ := List.mem_iff_getElem?.1 hf
  have hlt : f.id.position < index.files.length := by
    rw [hlinked.id_eq hi]
    exact (List.getElem?_eq_some_iff.1 hi).1
  unfold Renaming.ofFile
  rw [h.file f.id hlt]
  rfl

/-- Renaming leaves the scopes of the index. -/
theorem map_scopes : index.scopes.map r.ofScope = index.scopes := by
  refine List.map_congr_left (g := id) (fun s hs => ?_) |>.trans (List.map_id _)
  obtain ⟨hid, hfile⟩ := hlinked.scope_lt hs
  have hparent : s.parent.map r.scope = s.parent := by
    cases hp : s.parent with
    | none => rfl
    | some p =>
      rw [Option.map_some, h.scope p (hlinked.hasScope_lt (hlinked.parents s hs p hp)).1]
  unfold Renaming.ofScope
  rw [h.scope s.id hid, h.file s.file hfile, hparent]
  rfl

/-- Renaming leaves the symbol that is found under a name. -/
theorem map_symbol? (q : Fqn) : (index.symbol? q).map r.ofSymbol = index.symbol? q := by
  cases hs : index.symbol? q with
  | none => rfl
  | some s =>
    obtain ⟨-, scope, hscope, hfile, -⟩ := hlinked.symbols q s hs
    obtain ⟨hscope, hfile⟩ := hlinked.hasScope_lt ⟨scope, hscope, hfile⟩
    rw [Option.map_some]
    unfold Renaming.ofSymbol
    rw [h.scope s.scope hscope, h.file s.file hfile]

/-- Renaming leaves the references of the index. -/
theorem map_usages : index.usages.map r.ofUsage = index.usages := by
  refine List.map_congr_left (g := id) (fun u hu => ?_) |>.trans (List.map_id _)
  obtain ⟨hscope, hfile⟩ := hlinked.hasScope_lt (hlinked.usages u hu)
  unfold Renaming.ofUsage
  rw [h.scope u.scope hscope, h.file u.file hfile]
  rfl

end Leaves

/-! ### Two neighbours -/

/-- What a file brings in is declared in it. -/
theorem mem_declarations_of_broughtBy {d : Declaration} (hd : d ∈ broughtBy file) :
    d ∈ file.facts.declarations := by
  unfold broughtBy at hd
  split at hd
  · exact absurd hd List.not_mem_nil
  · exact hd

/-- Files that declare other names than those in front are told of nothing. -/
theorem reportsBehind_eq_nil (h : ∀ f ∈ before, f.facts.names.Disjoint file.facts.names) :
    reportsBehind before file = [] := by
  -- No file before declares a name of this one, so no name has a last declaration to report.
  have hnone : ∀ d ∈ firstOfNames (broughtBy file), lastDeclaration? before d.fqn = none := by
    intro d hd
    have hname : d.fqn ∈ file.facts.names :=
      List.mem_map_of_mem (mem_declarations_of_broughtBy ((firstOfNames_sublist _).mem hd))
    unfold lastDeclaration?
    rw [List.getLast?_eq_none_iff, List.filter_eq_nil_iff]
    intro e he hfqn
    obtain ⟨f, hf, he⟩ := List.mem_flatMap.1 he
    obtain ⟨d', hd', rfl⟩ := List.mem_map.1 he
    have hname' : d'.fqn ∈ f.facts.names := List.mem_map_of_mem (mem_declarations_of_broughtBy hd')
    rw [of_decide_eq_true hfqn] at hname'
    exact h f hf hname' hname
  unfold reportsBehind
  rw [List.filterMap_eq_nil_iff]
  intro d hd
  rw [hnone d hd]
  rfl

/-- Files with names of their own do not collide. -/
theorem Apart.collisions_eq_nil {later : List StoredFile}
    (h : Apart (before ++ file :: later)) :
    collisions (before.foldl merge .empty).files (before.foldl merge .empty).symbols
      (symbolsOf ((before.foldl merge .empty).numbering file.facts) file.facts) = [] := by
  rw [collisions_foldl]
  refine reportsBehind_eq_nil fun f hf => ?_
  exact (List.pairwise_append.1 h.names).2.2 f hf file List.mem_cons_self

/-- Files with names of their own still are when some of them are left out. -/
theorem Apart.sublist (h : Apart files) {files' : List StoredFile} (hsub : files'.Sublist files) :
    Apart files' where
  names := h.names.sublist hsub
  derived f hf := h.derived f (hsub.mem hf)

/-- Files with names of their own still are in another order. -/
theorem Apart.perm (h : Apart files) {files' : List StoredFile} (hperm : files.Perm files') :
    Apart files' where
  names := (hperm.pairwise_iff fun h => h.symm).1 h.names
  derived f hf := h.derived f (hperm.mem_iff.2 hf)

section Swap

variable (before a b)

/-- Two files that change places leave what was there before them. -/
theorem leaves_swapping (index : Index) : Leaves (swapping index a b) index where
  file _ h := congrArg FileId.mk (swapPlaces_of_lt h)
  scope _ h := congrArg ScopeId.mk (swapPlaces_of_lt h)

/-- The first of two neighbours gets its numbers behind the second. -/
theorem moves_first (index : Index) :
    Numbering.Moves (swapping index a b) (index.numbering a.facts)
      ((index.merge b).numbering a.facts) where
  file := by
    unfold numbering
    rw [merge_files, List.length_append]
    exact congrArg FileId.mk (swapPlaces_first Nat.zero_lt_one)
  count := rfl
  scope i hi := by
    unfold numbering
    rw [merge_scopes, List.length_append, length_scopesOf]
    exact congrArg ScopeId.mk (swapPlaces_first hi)

/-- The second of two neighbours gets its numbers in front of the first. -/
theorem moves_second (index : Index) :
    Numbering.Moves (swapping index a b) ((index.merge a).numbering b.facts)
      (index.numbering b.facts) where
  file := by
    unfold numbering
    rw [merge_files, List.length_append]
    exact congrArg FileId.mk (swapPlaces_second (i := 0) Nat.zero_lt_one)
  count := rfl
  scope i hi := by
    unfold numbering
    rw [merge_scopes, List.length_append, length_scopesOf]
    exact congrArg ScopeId.mk (swapPlaces_second hi)

end Swap

/-- Symbols of different names can be written in either order. -/
theorem get?_insertSymbols_comm {symbols symbols' : List Symbol}
    (h : ∀ s ∈ symbols, ∀ s' ∈ symbols', s.fqn ≠ s'.fqn) (table : Table Fqn Symbol) (q : Fqn) :
    (insertSymbols (insertSymbols table symbols') symbols).get? q =
      (insertSymbols (insertSymbols table symbols) symbols').get? q := by
  have hfound : ∀ (l : List Symbol) s, (l.filter fun s => s.fqn = q).getLast? = some s →
      s ∈ l ∧ s.fqn = q := by
    intro l s hs
    obtain ⟨hmem, hfqn⟩ := List.mem_filter.1 (List.mem_of_getLast? hs)
    exact ⟨hmem, of_decide_eq_true hfqn⟩
  rw [get?_insertSymbols, get?_insertSymbols, get?_insertSymbols, get?_insertSymbols]
  cases hs : (symbols.filter fun s => s.fqn = q).getLast? with
  | none => rfl
  | some s =>
    cases hs' : (symbols'.filter fun s => s.fqn = q).getLast? with
    | none => rfl
    -- No name is written by both.
    | some s' =>
      obtain ⟨hmem, hfqn⟩ := hfound symbols s hs
      obtain ⟨hmem', hfqn'⟩ := hfound symbols' s' hs'
      exact absurd (hfqn.trans hfqn'.symm) (h s hmem s' hmem')

/-- Bases of different classes can be written in either order. -/
theorem get?_insertBases_comm {facts facts' : FileFacts}
    (h : ∀ i ∈ facts.inheritances, ∀ i' ∈ facts'.inheritances, i.derived ≠ i'.derived)
    (table : Table Fqn (List Fqn)) (c : Fqn) :
    (insertBases (insertBases table facts') facts).get? c =
      (insertBases (insertBases table facts) facts').get? c := by
  unfold insertBases
  rw [get?_foldl_insert, get?_foldl_insert, get?_foldl_insert, get?_foldl_insert]
  -- Only one of the two files can give bases to a class, so the other one is no matter.
  by_cases hc : ∃ i ∈ facts.inheritances, i.derived = c
  · have hc' : ¬∃ i ∈ facts'.inheritances, i.derived = c := by
      rintro ⟨i', hi', rfl⟩
      obtain ⟨i, hi, hsame⟩ := hc
      exact h i hi i' hi' hsame
    rw [if_pos hc, if_neg hc', if_pos hc]
  · rw [if_neg hc, if_neg hc]

/-- Of the files that are not there no diagnostics are listed. -/
theorem diagnosticsOfFile_of_le {id : FileId} (hid : before.length ≤ id.position) :
    (before.foldl merge .empty).diagnosticsOfFile id = [] := by
  rw [(posted_foldl before).diagnosticsOfFile, List.filter_eq_nil_iff]
  intro d hd hfile
  have hlt := (fileByFile_diagnostics before).position_lt hd
  rw [of_decide_eq_true hfile] at hlt
  exact absurd hid (Nat.not_le_of_lt hlt)

/-- The diagnostics of a file that is apart from the others are its own findings. -/
theorem Apart.diagnosticsOfFile {later : List StoredFile} (h : Apart (before ++ file :: later)) :
    ((before ++ file :: later).foldl merge .empty).diagnosticsOfFile ⟨before.length⟩ =
      diagnosticsOfFindings ((before.foldl merge .empty).numbering file.facts)
        file.facts.findings := by
  rw [diagnosticsOfFile_foldl, h.collisions_eq_nil, List.append_nil]

/-- Later files leave the diagnostics of the files in front. -/
theorem diagnosticsOfFile_append {id : FileId} (hid : id.position < before.length)
    (later : List StoredFile) :
    ((before ++ later).foldl merge .empty).diagnosticsOfFile id =
      (before.foldl merge .empty).diagnosticsOfFile id := by
  -- The induction is on the later files; what they report is about themselves.
  induction later using List.reverseRecOn with
  | nil => rw [List.append_nil]
  | append_singleton earlier last ih =>
    have hne : id ≠ ⟨(before ++ earlier).length⟩ := by
      rintro rfl
      rw [List.length_append] at hid
      exact absurd hid (Nat.not_lt_of_le (Nat.le_add_right _ _))
    rw [← List.append_assoc, foldl_merge_concat, (posted_foldl _).diagnosticsOfFile_merge,
      (linked_foldl _).length_files, if_neg hne, List.append_nil]
    exact ih

/-- Renaming leaves the findings of a file of the index. -/
theorem Leaves.map_diagnosticsOfFile (h : Leaves r index) (hposted : index.Posted) {id : FileId}
    (hid : id.position < index.files.length) :
    (index.diagnosticsOfFile id).map r.ofDiagnostic = index.diagnosticsOfFile id := by
  refine (List.map_congr_left fun d hd => ?_).trans (List.map_id _)
  rw [hposted.diagnosticsOfFile, List.mem_filter] at hd
  have hfile : d.fileId = id := of_decide_eq_true hd.2
  unfold Renaming.ofDiagnostic
  rw [hfile, h.file id hid, ← hfile]
  rfl

/-- Each of two neighbours that are apart has the same diagnostics in either order. -/
theorem Apart.diagnosticsOfFile_swap (h : Apart (before ++ [a, b])) (id : FileId) :
    ((before ++ [b, a]).foldl merge .empty).diagnosticsOfFile
        ((swapping (before.foldl merge .empty) a b).file id) =
      (((before ++ [a, b]).foldl merge .empty).diagnosticsOfFile id).map
        (swapping (before.foldl merge .empty) a b).ofDiagnostic := by
  have hlength := (linked_foldl before).length_files
  have hswap : Apart (before ++ [b, a]) := h.perm ((List.Perm.swap b a []).append_left before)
  have hfirst := moves_first a b (before.foldl merge .empty)
  have hsecond := moves_second a b (before.foldl merge .empty)
  have hab : before ++ [a, b] = (before ++ [a]) ++ b :: [] := by simp
  have hba : before ++ [b, a] = (before ++ [b]) ++ a :: [] := by simp
  obtain hold | hid | hid | hmissing : id.position < before.length ∨ id.position = before.length ∨
      id.position = before.length + 1 ∨ before.length + 2 ≤ id.position := by
    omega
  -- The files in front keep their numbers and their diagnostics.
  case inl =>
    have hleaves := leaves_swapping a b (before.foldl merge .empty)
    have hlt : id.position < (before.foldl merge .empty).files.length := by rwa [hlength]
    rw [hleaves.file id hlt, diagnosticsOfFile_append hold, diagnosticsOfFile_append hold,
      hleaves.map_diagnosticsOfFile (posted_foldl before) hlt]
  -- The first file goes to the second place.
  case inr.inl =>
    obtain rfl : id = ⟨before.length⟩ := congrArg FileId.mk hid
    have hplace : (swapping (before.foldl merge .empty) a b).file ⟨before.length⟩ =
        ⟨(before ++ [b]).length⟩ := by
      simpa [numbering, merge_files, hlength] using hfirst.file
    rw [h.diagnosticsOfFile, hplace, hba, Apart.diagnosticsOfFile (hba ▸ hswap),
      foldl_merge_concat, hfirst.diagnosticsOfFindings]
  -- The second file goes to the first place.
  case inr.inr.inl =>
    obtain rfl : id = ⟨(before ++ [a]).length⟩ := by
      rw [List.length_append]
      exact congrArg FileId.mk hid
    have hplace : (swapping (before.foldl merge .empty) a b).file ⟨(before ++ [a]).length⟩ =
        ⟨before.length⟩ := by
      simpa [numbering, merge_files, hlength] using hsecond.file
    rw [hplace, hswap.diagnosticsOfFile, hab, Apart.diagnosticsOfFile (hab ▸ h),
      foldl_merge_concat, hsecond.diagnosticsOfFindings]
  -- No other file is there.
  case inr.inr.inr =>
    have hplace : (swapping (before.foldl merge .empty) a b).file id = id :=
      congrArg FileId.mk (swapPlaces_of_le (by rwa [hlength]))
    rw [hplace, diagnosticsOfFile_of_le (by simpa using hmissing),
      diagnosticsOfFile_of_le (by simpa using hmissing)]
    rfl

/-! ### The records of two neighbours -/

section Records

variable (hlinked : Linked before index)

include hlinked

/-- The files are found in their new places. -/
theorem file?_swap (id : FileId) :
    ((index.merge b).merge a).file? ((swapping index a b).file id) =
      (((index.merge a).merge b).file? id).map (swapping index a b).ofFile := by
  have hfiles : ((index.merge b).merge a).files =
      (index.files ++ [fileOf ((index.merge a).numbering b.facts) b] ++
        [fileOf (index.numbering a.facts) a]).map (swapping index a b).ofFile := by
    rw [merge_files, merge_files, List.map_append, List.map_append,
      (leaves_swapping a b index).map_files hlinked, (moves_first a b index).fileOf,
      (moves_second a b index).fileOf]
    rfl
  unfold Index.file?
  rw [hfiles, List.getElem?_map]
  exact congrArg _ (getElem?_swapPlaces _ [_] [_] id.position)

/-- The scopes are found in their new places. -/
theorem scope?_swap (id : ScopeId) :
    ((index.merge b).merge a).scope? ((swapping index a b).scope id) =
      (((index.merge a).merge b).scope? id).map (swapping index a b).ofScope := by
  -- The scopes of each file are the same block behind either order, only renumbered.
  have hscopes : ((index.merge b).merge a).scopes =
      (index.scopes ++ scopesOf ((index.merge a).numbering b.facts) b.facts ++
        scopesOf (index.numbering a.facts) a.facts).map (swapping index a b).ofScope := by
    rw [merge_scopes, merge_scopes, List.map_append, List.map_append,
      (leaves_swapping a b index).map_scopes hlinked, (moves_first a b index).scopesOf rfl,
      (moves_second a b index).scopesOf rfl]
  have hplace := getElem?_swapPlaces index.scopes
    (scopesOf (index.numbering a.facts) a.facts)
    (scopesOf ((index.merge a).numbering b.facts) b.facts) id.position
  rw [length_scopesOf, length_scopesOf] at hplace
  unfold Index.scope?
  rw [hscopes, List.getElem?_map]
  exact congrArg _ hplace

/-- The symbols are found under their names, with new numbers. -/
theorem symbol?_swap (hdisjoint : a.facts.names.Disjoint b.facts.names) (q : Fqn) :
    ((index.merge b).merge a).symbol? q =
      (((index.merge a).merge b).symbol? q).map (swapping index a b).ofSymbol := by
  -- The files declare different names, so neither replaces a symbol of the other.
  have hnames : ∀ s ∈ symbolsOf (index.numbering a.facts) a.facts,
      ∀ s' ∈ symbolsOf ((index.merge a).numbering b.facts) b.facts, s.fqn ≠ s'.fqn := by
    intro s hs s' hs' hfqn
    obtain ⟨d, hd, scope, -, rfl⟩ := mem_symbolsOf.1 hs
    obtain ⟨d', hd', scope', -, rfl⟩ := mem_symbolsOf.1 hs'
    exact hdisjoint (List.mem_map_of_mem hd) (List.mem_map.2 ⟨d', hd', hfqn.symm⟩)
  unfold Index.symbol?
  rw [merge_symbols, merge_symbols, merge_symbols, merge_symbols,
    (moves_first a b index).symbolsOf, (moves_second a b index).symbolsOf,
    ← get?_insertSymbols_comm hnames]
  refine get?_insertSymbols_map (fun q => ?_) _ q
  exact get?_insertSymbols_map
    (fun q => ((leaves_swapping a b index).map_symbol? hlinked q).symm) _ q

/-- The references are the same with new numbers, in another order. -/
theorem usages_swap : ((index.merge b).merge a).usages.Perm
    (((index.merge a).merge b).usages.map (swapping index a b).ofUsage) := by
  rw [merge_usages, merge_usages, merge_usages, merge_usages, List.map_append, List.map_append,
    (leaves_swapping a b index).map_usages hlinked, (moves_first a b index).usagesOfFacts,
    (moves_second a b index).usagesOfFacts, List.append_assoc, List.append_assoc]
  exact List.perm_append_comm.append_left _

end Records

/-- Two neighbours that are apart can be merged in either order. -/
theorem Apart.renamed_swap (h : Apart (before ++ [a, b])) :
    Renamed (swapping (before.foldl merge .empty) a b)
      ((before ++ [a, b]).foldl merge .empty) ((before ++ [b, a]).foldl merge .empty) := by
  have hlinked := linked_foldl before
  have hdisjoint : a.facts.names.Disjoint b.facts.names :=
    List.rel_of_pairwise_cons (List.pairwise_append.1 h.names).2.1 List.mem_cons_self
  have hdiagnostics := h.diagnosticsOfFile_swap
  rw [List.foldl_append, List.foldl_append] at hdiagnostics ⊢
  simp only [List.foldl_cons, List.foldl_nil] at hdiagnostics ⊢
  -- The blocks of the two files change places, and everything else stands in front of them.
  constructor
  case length_files => simp [merge_files]
  case length_scopes => simp [merge_scopes, length_scopesOf, Nat.add_comm]
  case file_of_le =>
    intro id hid
    refine congrArg FileId.mk (swapPlaces_of_le ?_)
    simp only [merge_files, List.length_append, List.length_singleton] at hid
    omega
  case scope_of_le =>
    intro id hid
    refine congrArg ScopeId.mk (swapPlaces_of_le ?_)
    simp only [merge_scopes, List.length_append, length_scopesOf] at hid
    omega
  case file? => exact file?_swap hlinked
  case scope? => exact scope?_swap hlinked
  case symbol? => exact symbol?_swap hlinked hdisjoint
  case bases =>
    intro c
    rw [merge_bases, merge_bases, merge_bases, merge_bases]
    refine get?_insertBases_comm (fun i hi i' hi' hsame => ?_) _ c
    exact hdisjoint (h.derived a (by simp) i hi) (hsame ▸ h.derived b (by simp) i' hi')
  case usages => exact usages_swap hlinked
  case diagnosticsOfFile => exact hdiagnostics

/-! ### All orders -/

/-- Files that are apart can be merged in any order. -/
theorem Apart.exists_renamed {files' : List StoredFile} (hperm : files.Perm files')
    (before : List StoredFile) (h : Apart (before ++ files)) :
    ∃ r, Renamed r ((before ++ files).foldl merge .empty)
      ((before ++ files').foldl merge .empty) := by
  induction hperm generalizing before with
  | nil => exact ⟨.refl, .refl _⟩
  | cons a _ ih =>
    have hih := ih (before ++ [a]) (by simpa using h)
    simpa using hih
  | swap b a later =>
    -- The two are swapped behind the files in front of them, and the others come behind both.
    have hneighbours : Apart (before ++ [a, b]) :=
      h.sublist (((List.nil_sublist later).cons_cons b).cons_cons a |>.append_left before)
    have hswap := hneighbours.renamed_swap.foldl_merge later
    exact ⟨_, by simpa using hswap⟩
  | trans hleft _ ihleft ihright =>
    obtain ⟨r, hr⟩ := ihleft before h
    obtain ⟨t, ht⟩ := ihright before (h.perm (hleft.append_left before))
    exact ⟨r.trans t, hr.trans ht⟩

/-- The diagnostics at the path of a file are those of the file. -/
theorem diagnosticsAt_foldl {later : List StoredFile}
    (hpaths : ((before ++ file :: later).map fun stored => stored.facts.path).Nodup) :
    ((before ++ file :: later).foldl merge .empty).diagnosticsAt file.facts.path =
      ((before ++ file :: later).foldl merge .empty).diagnosticsOfFile ⟨before.length⟩ := by
  -- Paths are distinct, so the file at a path is the one that was merged with it.
  have hlinked := linked_foldl (before ++ file :: later)
  have hlt : before.length < ((before ++ file :: later).foldl merge .empty).files.length := by
    rw [hlinked.length_files]
    simp
  obtain ⟨f, hf⟩ : ∃ f, ((before ++ file :: later).foldl merge .empty).files[before.length]? =
      some f := ⟨_, List.getElem?_eq_getElem hlt⟩
  have hpath : f.path = file.facts.path := by
    have hget := congrArg (fun l => l[before.length]?) hlinked.map_path
    simp only [List.getElem?_map, hf] at hget
    simpa using hget
  have hfound := (hlinked.file?_and_fileAt? hpaths f (List.mem_of_getElem? hf)).2
  rw [hpath] at hfound
  unfold diagnosticsAt
  rw [hfound, ← hlinked.id_eq hf]

end Index

namespace Store

/-- The store to which some files are supplied in order. -/
def supplied (files : List StoredFile) : Store :=
  after (files.map fun stored => .upsert stored.facts stored.contentHash)

variable {files files' : List StoredFile}

/-- Behind a history of new files the index is that of these files. -/
theorem index_supplied (hpaths : (files.map fun stored => stored.facts.path).Nodup) :
    (supplied files).index = files.foldl Index.merge .empty := by
  obtain ⟨hkeys, hlatest⟩ := after_map_upsert hpaths
  have hvalues : (supplied files).files.values = files := by
    unfold supplied
    rw [values_after, hkeys, List.filterMap_map]
    refine (List.filterMap_congr fun stored hstored => ?_).trans List.filterMap_some
    exact hlatest stored hstored
  unfold Store.index
  rw [hvalues]

/-- Files that are apart make the same index in every order, up to the numbers, and a file has its
own findings as its diagnostics and no others. -/
theorem sameUpTo_of_perm (hperm : files.Perm files')
    (hpaths : (files.map fun stored => stored.facts.path).Nodup) (hapart : Index.Apart files) :
    (∃ r, Index.SameUpTo r (supplied files).index (supplied files').index) ∧
      ∀ file ∈ files, Index.SpanSorted file.facts.findings
        (((supplied files).index.diagnosticsAt file.facts.path).map Diagnostic.finding) := by
  -- Both orders have the same paths, so both histories are merged file by file.
  have hpaths' : (files'.map fun stored => stored.facts.path).Nodup :=
    (hperm.map _).nodup_iff.1 hpaths
  rw [index_supplied hpaths, index_supplied hpaths']
  constructor
  · obtain ⟨r, hr⟩ := Index.Apart.exists_renamed hperm [] hapart
    exact ⟨r, hr.sameUpTo hperm hpaths⟩
  · intro file hfile
    obtain ⟨before, later, rfl⟩ := List.append_of_mem hfile
    have hsorted := Index.spanSorted_mergeSort file.facts.findings
    rw [Index.diagnosticsAt_foldl hpaths, hapart.diagnosticsOfFile, Index.diagnosticsOfFindings,
      List.map_map]
    exact (List.map_id _).symm ▸ hsorted

/-- Two files of different names. The second one comes with a report of its own. -/
def apartFiles : List StoredFile :=
  [⟨{ path := "one.py"
      module := .root "one"
      scopes := [⟨.module, .root "one", none, ⟨0, 39⟩⟩]
      declarations :=
        [⟨⟨["one", "A"]⟩, .class, .resolved ⟨["one", "A"]⟩, 0, ⟨⟨6, 7⟩, 1, 7⟩⟩,
          ⟨⟨["one", "B"]⟩, .class, .resolved ⟨["one", "B"]⟩, 0, ⟨⟨24, 25⟩, 3, 7⟩⟩]
      references := []
      findings := []
      inheritances := [⟨⟨["one", "B"]⟩, ⟨["one", "A"]⟩⟩] }, "1"⟩,
    ⟨{ path := "two.py"
       module := .root "two"
       scopes := [⟨.module, .root "two", none, ⟨0, 5⟩⟩]
       declarations := [⟨⟨["two", "x"]⟩, .variable, .unknown, 0, ⟨⟨0, 1⟩, 1, 1⟩⟩]
       references := [⟨0, .simpleId, .resolved ⟨["one", "A"]⟩, ⟨⟨4, 5⟩, 1, 5⟩⟩]
       findings := [.ofCode .duplicateFqn "declared twice" ⟨⟨0, 1⟩, 1, 1⟩]
       inheritances := [] }, "2"⟩]

/-- The paths of the example are distinct. -/
theorem nodup_path_apartFiles : (apartFiles.map fun stored => stored.facts.path).Nodup := by decide

/-- The files of the example have names of their own. -/
theorem apart_apartFiles : Index.Apart apartFiles where
  names := by
    refine List.pairwise_pair.2 fun q hq hq' => ?_
    have hne : ∀ q ∈ [(⟨["one", "A"]⟩ : Fqn), ⟨["one", "B"]⟩], q ∉ [(⟨["two", "x"]⟩ : Fqn)] := by
      decide
    exact hne q hq hq'
  derived := by decide

/-- In both orders the two files make the same index, up to the numbers. -/
theorem sameUpTo_apartFiles :
    ∃ r, Index.SameUpTo r (supplied apartFiles).index (supplied apartFiles.reverse).index :=
  (sameUpTo_of_perm (List.reverse_perm apartFiles).symm nodup_path_apartFiles apart_apartFiles).1

/-- A report that a file comes with stays, whatever its code: files without collisions may have
diagnostics that speak of one. -/
theorem exists_duplicateFqn_apartFiles :
    (apartFiles.map fun stored => stored.facts.path).Nodup ∧ Index.Apart apartFiles ∧
      (∀ f ∈ apartFiles, f.facts.scopes ≠ []) ∧
      ∃ d ∈ (supplied apartFiles).index.diagnosticsAt "two.py", d.finding.code = .duplicateFqn :=
  ⟨nodup_path_apartFiles, apart_apartFiles, by decide, by decide +kernel⟩

end Store

end NameAtlas
