import Mathlib.Algebra.BigOperators.Finprod
import NameAtlas.Proofs.Index.Collisions
import NameAtlas.Response

/-!
# Listings lose and repeat nothing

Whatever facts the files of an index have, its references and diagnostics stand file by file
(`FileByFile`): each merge puts those of one file at the end, in their own order and in the order of
their spans. The look-ups go through posting lists, and find just the records of a name or a file.
So what is listed by name, by file, or in a response by path, is what is listed as a whole
(`Store.index_after_lists`). A file may declare a name more than once; only the first of these
declarations can be reported, since after it the file itself supplies the symbol
(`collisions_eq_first`).
-/

namespace NameAtlas

namespace Index

/-- The declarations that a file brings into an index; one without scopes brings none. -/
def broughtBy (file : StoredFile) : List Declaration :=
  if file.facts.scopes = [] then [] else file.facts.declarations

/-- The references that a file brings into an index behind others; one without scopes brings none. A
scope has its number behind theirs, and one out of range counts as the first. -/
def usagesBehind (before : List StoredFile) (file : StoredFile) : List Usage :=
  if file.facts.scopes = [] then [] else
    file.facts.references.map fun r =>
      { scope := ⟨(before.map fun f => f.facts.scopes.length).sum +
          if r.scope < file.facts.scopes.length then r.scope else 0⟩
        kind := r.kind
        target := r.target
        file := ⟨before.length⟩
        location := r.location }

/-- The last declaration of a name in some files, with its file. -/
def lastDeclaration? (files : List StoredFile) (q : Fqn) : Option (StoredFile × Declaration) :=
  ((files.flatMap fun f => (broughtBy f).map fun d => (f, d)).filter fun e => e.2.fqn = q).getLast?

/-- The first of the declarations of each name. -/
def firstOfNames (declarations : List Declaration) : List Declaration :=
  declarations.eraseDupsBy fun d d' => d.fqn = d'.fqn

/-- The reports of a file behind others: one for each name that these declare too, unless it is that
of a module on both sides. -/
def reportsBehind (before : List StoredFile) (file : StoredFile) : List Finding :=
  (firstOfNames (broughtBy file)).filterMap fun d =>
    ((lastDeclaration? before d.fqn).filter fun e =>
      !(e.2.kind = .module && d.kind = .module)).map fun e => redeclared d e.1.facts.path

/-- The same findings by the start and then the end of their spans; those of one span keep their
order. -/
structure SpanSorted (findings sorted : List Finding) : Prop where
  /-- The spans stand in order. -/
  ordered : sorted.Pairwise fun a b => a.location.span.start < b.location.span.start ∨
    (a.location.span.start = b.location.span.start ∧ a.location.span.stop ≤ b.location.span.stop)
  /-- The findings of each span are those that were there, in their order. -/
  stable : ∀ span, (sorted.filter fun f => f.location.span = span) =
    findings.filter fun f => f.location.span = span

/-- The listings of the index of some files. -/
structure Lists (files : List StoredFile) (index : Index) : Prop where
  /-- Under each name and file stand the positions of its entries. -/
  posted : index.Posted
  /-- The references stand file by file. -/
  usages : index.usages = (List.range files.length).flatMap fun i => index.usagesInFile ⟨i⟩
  /-- Those of a file are the ones that it brings, in their order. -/
  usagesInFile : ∀ before file later, files = before ++ file :: later →
    index.usagesInFile ⟨before.length⟩ = usagesBehind before file
  /-- A file is looked up as among all references. -/
  usagesInFile_eq : ∀ id, index.usagesInFile id = index.usages.filter fun u => u.file = id
  /-- A name is looked up as among all references. -/
  usagesOf : ∀ q, index.usagesOf q = index.usages.filter fun u => u.target = .resolved q
  /-- Only finitely many names are referred to. -/
  targets : {q | index.usagesOf q ≠ []}.Finite
  /-- The resolved references are counted name by name. -/
  resolved : index.summary.resolved = ∑ᶠ q, (index.usagesOf q).length
  /-- The diagnostics of a file are its findings and then its reports, by their spans. -/
  diagnosticsOfFile : ∀ before file later, files = before ++ file :: later →
    ∃ sorted, SpanSorted (file.facts.findings ++ reportsBehind before file) sorted ∧
      index.diagnosticsOfFile ⟨before.length⟩ = sorted.map fun f => ⟨⟨before.length⟩, f⟩
  /-- The diagnostics stand file by file. -/
  diagnostics : index.diagnostics =
    (List.range files.length).flatMap fun i => index.diagnosticsOfFile ⟨i⟩
  /-- A response lists the diagnostics, each in one group. -/
  grouped : ((DiagnosticsResponse.ofIndex index).files.flatMap FileDiagnostics.diagnostics) =
    index.diagnostics.map index.diagnosticReport
  /-- A group lists diagnostics of the file at its path, and there is one at least. -/
  group : ∀ g ∈ (DiagnosticsResponse.ofIndex index).files,
    g.diagnostics ≠ [] ∧ ∀ r ∈ g.diagnostics, r.place.file = g.path
  /-- No file has two groups. -/
  paths : ((DiagnosticsResponse.ofIndex index).files.map FileDiagnostics.path).Nodup
  /-- The total is the sum of the sizes of the groups. -/
  total : (DiagnosticsResponse.ofIndex index).total =
    ((DiagnosticsResponse.ofIndex index).files.map fun g => g.diagnostics.length).sum

variable {files : List StoredFile} {file : StoredFile} {index : Index} {q : Fqn}

/-! ### Records that stand file by file -/

/-- Records stand file by file if they are what the files list one behind the other. -/
def FileByFile {α : Type} (fileOf : α → FileId) (n : Nat) (l : List α) : Prop :=
  l = (List.range n).flatMap fun i => l.filter fun a => fileOf a = ⟨i⟩

namespace FileByFile

variable {α : Type} {fileOf : α → FileId} {n : Nat} {l new : List α}

/-- The files of what is listed are those that were counted. -/
theorem position_lt (h : FileByFile fileOf n l) {a : α} (ha : a ∈ l) : (fileOf a).position < n := by
  unfold FileByFile at h
  rw [h] at ha
  obtain ⟨i, hi, ha⟩ := List.mem_flatMap.1 ha
  rw [of_decide_eq_true (List.mem_filter.1 ha).2]
  exact List.mem_range.1 hi

/-- The records of one more file come last. -/
theorem append (h : FileByFile fileOf n l) (hnew : ∀ a ∈ new, fileOf a = ⟨n⟩) :
    FileByFile fileOf (n + 1) (l ++ new) := by
  -- The file is new, so nothing listed before belongs to it, and nothing new belongs to an older
  -- one.
  have hold : (List.range n).flatMap (fun i => (l ++ new).filter fun a => fileOf a = ⟨i⟩) = l := by
    refine Eq.trans ?_ h.symm
    unfold List.flatMap
    refine congrArg List.flatten (List.map_congr_left fun i hi => ?_)
    have hne : (⟨i⟩ : FileId) ≠ ⟨n⟩ := by
      rintro ⟨⟩
      exact absurd (List.mem_range.1 hi) (Nat.lt_irrefl _)
    rw [filter_file_append hnew, if_neg hne, List.append_nil]
  have hlast : (l ++ new).filter (fun a => fileOf a = ⟨n⟩) = new := by
    have hnone : l.filter (fun a => fileOf a = ⟨n⟩) = [] := by
      rw [List.filter_eq_nil_iff]
      intro a ha hfile
      have hlt := h.position_lt ha
      rw [of_decide_eq_true hfile] at hlt
      exact Nat.lt_irrefl _ hlt
    rw [filter_file_append hnew, if_pos rfl, hnone, List.nil_append]
  unfold FileByFile
  rw [List.range_succ, List.flatMap_append, hold, List.flatMap_singleton, hlast]

end FileByFile

/-- References are listed file by file. -/
theorem fileByFile_usages (files : List StoredFile) :
    FileByFile Usage.file files.length (files.foldl merge .empty).usages := by
  induction files using List.reverseRecOn with
  | nil => rfl
  | append_singleton earlier last ih =>
    rw [foldl_merge_concat, List.length_append, List.length_singleton]
    refine ih.append fun u hu => (file_of_mem_usagesOfFacts u hu).trans ?_
    exact congrArg FileId.mk (linked_foldl earlier).length_files

/-- Findings are listed file by file. -/
theorem fileByFile_diagnostics (files : List StoredFile) :
    FileByFile Diagnostic.fileId files.length (files.foldl merge .empty).diagnostics := by
  induction files using List.reverseRecOn with
  | nil => rfl
  | append_singleton earlier last ih =>
    rw [foldl_merge_concat, List.length_append, List.length_singleton]
    refine ih.append fun d hd => (fileId_of_mem_diagnosticsOfFindings d hd).trans ?_
    exact congrArg FileId.mk (linked_foldl earlier).length_files

/-! ### References -/

/-- Without scopes nothing is filed. -/
theorem scopeOrFirst?_of_nil (index : Index) (hscopes : file.facts.scopes = []) (i : Nat) :
    (index.numbering file.facts).scopeOrFirst? i = none := by
  simp [Numbering.scopeOrFirst?, Numbering.scope?, numbering, hscopes]

/-- The references of a file get the numbers of the files and scopes that stand before it. -/
theorem usagesOfFacts_eq (h : Linked files index) :
    usagesOfFacts (index.numbering file.facts) file.facts = usagesBehind files file := by
  unfold usagesOfFacts usagesBehind
  by_cases hscopes : file.facts.scopes = []
  · rw [if_pos hscopes, List.filterMap_eq_nil_iff]
    intro r _
    rw [scopeOrFirst?_of_nil index hscopes]
    rfl
  · rw [if_neg hscopes, ← List.filterMap_eq_map]
    refine List.filterMap_congr fun r _ => ?_
    rw [scopeOrFirst?_numbering h hscopes]
    simp [numbering, h.length_files]

/-- Each resolved reference is counted under its name, and no other is counted. -/
theorem countP_isResolved_eq_sum {names : Finset Fqn} {l : List Usage}
    (hnames : ∀ u ∈ l, ∀ q, u.target = .resolved q → q ∈ names) :
    (l.countP fun u => u.target.isResolved) =
      ∑ q ∈ names, (l.filter fun u => u.target = .resolved q).length := by
  -- The induction is on the references: a resolved one adds one to the sum at its target, and an
  -- unresolved one adds nothing.
  induction l with
  | nil => simp
  | cons u rest ih =>
    have ih := ih fun u' hu' => hnames u' (List.mem_cons_of_mem u hu')
    simp only [List.countP_cons, List.filter_cons]
    cases htarget : u.target with
    | unresolved name => simpa [UsageTarget.isResolved] using ih
    | resolved q =>
      have hmem : q ∈ names := hnames u List.mem_cons_self q htarget
      have hsplit : ∀ q', (if decide (UsageTarget.resolved q = .resolved q') = true
            then u :: rest.filter fun u => u.target = .resolved q'
            else rest.filter fun u => u.target = .resolved q').length =
          (rest.filter fun u => u.target = .resolved q').length + if q = q' then 1 else 0 := by
        intro q'
        by_cases hq : q = q' <;> simp [hq]
      rw [Finset.sum_congr rfl fun q' _ => hsplit q', Finset.sum_add_distrib,
        Finset.sum_ite_eq names q, if_pos hmem, ih]
      rfl

/-- Only names that are referred to have references. -/
theorem finite_targets (h : index.Posted) : {q | index.usagesOf q ≠ []}.Finite := by
  have hsubset : {q | index.usagesOf q ≠ []} ⊆
      ((index.usages.filterMap fun u => u.target.fqn?).toFinset : Set Fqn) := by
    intro q hq
    obtain ⟨u, hu⟩ := List.exists_mem_of_ne_nil _ hq
    rw [h.usagesOf, List.mem_filter] at hu
    have htarget : u.target = .resolved q := of_decide_eq_true hu.2
    rw [Finset.mem_coe, List.mem_toFinset, List.mem_filterMap]
    exact ⟨u, hu.1, by rw [htarget]; rfl⟩
  exact (Finset.finite_toSet _).subset hsubset

/-- The count of resolved references is the sum over the names of the references to each. -/
theorem resolved_eq_finsum (h : index.Posted) :
    index.summary.resolved = ∑ᶠ q, (index.usagesOf q).length := by
  have hsupport : Function.support (fun q => (index.usagesOf q).length) =
      {q | index.usagesOf q ≠ []} := by
    ext q
    simp
  rw [finsum_eq_sum_of_support_subset _ (s := (finite_targets h).toFinset)
    (by rw [hsupport, Set.Finite.coe_toFinset])]
  simp only [h.usagesOf]
  refine countP_isResolved_eq_sum fun u hu q hq => ?_
  rw [Set.Finite.mem_toFinset]
  exact List.ne_nil_of_mem (List.mem_filter.2 ⟨hu, decide_eq_true hq⟩)

/-! ### Reports -/

/-- The symbols of a file get the numbers of the files and scopes that stand before it. -/
theorem symbolsOf_eq (h : Linked files index) :
    symbolsOf (index.numbering file.facts) file.facts =
      (broughtBy file).map (symbolOf files file) := by
  unfold broughtBy
  by_cases hscopes : file.facts.scopes = []
  · rw [if_pos hscopes, List.map_nil, symbolsOf, List.filterMap_eq_nil_iff]
    intro d _
    rw [scopeOrFirst?_of_nil index hscopes]
    rfl
  · rw [if_neg hscopes, symbolsOf_eq_map h hscopes]

/-- The last declaration of a name stands in the last file that declares it. -/
theorem lastDeclaration?_concat (files : List StoredFile) (last : StoredFile) (q : Fqn) :
    lastDeclaration? (files ++ [last]) q =
      ((((broughtBy last).filter fun d => d.fqn = q).getLast?).map fun d => (last, d)).or
        (lastDeclaration? files q) := by
  unfold lastDeclaration?
  rw [List.flatMap_append, List.flatMap_singleton, List.filter_append, List.getLast?_append,
    List.filter_map, List.getLast?_map]
  rfl

/-- Symbols belong to files that are there. -/
theorem position_lt_of_symbol?_foldl {s : Symbol}
    (hs : (files.foldl merge .empty).symbol? q = some s) : s.file.position < files.length := by
  induction files using List.reverseRecOn with
  | nil => cases hs
  | append_singleton earlier last ih =>
    rw [foldl_merge_concat] at hs
    rw [List.length_append, List.length_singleton]
    obtain ⟨hmem, -⟩ | ⟨hold, -⟩ := symbol?_merge hs
    · obtain ⟨d, -, scope, -, rfl⟩ := mem_symbolsOf.1 hmem
      exact (linked_foldl earlier).length_files ▸ Nat.lt_succ_self _
    · exact Nat.lt_succ_of_lt (ih hold)

/-- The symbol of a name has the kind of the last declaration of the name, and its file the path of
that one's file. -/
theorem path_kind_of_symbol? (files : List StoredFile) (q : Fqn) :
    ((files.foldl merge .empty).symbol? q).map
        (fun s => (pathOf (files.foldl merge .empty).files s.file, s.kind)) =
      (lastDeclaration? files q).map fun e => (e.1.facts.path, e.2.kind) := by
  induction files using List.reverseRecOn with
  | nil => rfl
  | append_singleton earlier last ih =>
    have hlinked := linked_foldl earlier
    rw [lastDeclaration?_concat, foldl_merge_concat, symbol?, merge]
    dsimp only
    rw [get?_insertSymbols, symbolsOf_eq hlinked, List.filter_map, List.getLast?_map]
    show (((((broughtBy last).filter fun d => d.fqn = q).getLast?).map _).or _).map _ = _
    cases ((broughtBy last).filter fun d => d.fqn = q).getLast? with
    -- The symbol is one of the new file.
    | some d => simp [pathOf, symbolOf, fileOf, hlinked.length_files]
    -- It is an old one, and the old files keep their numbers.
    | none =>
      rw [Option.map_none, Option.none_or, Option.map_none, Option.none_or, ← ih]
      refine Option.map_congr fun s hs => ?_
      have hlt := position_lt_of_symbol?_foldl hs
      rw [← hlinked.length_files] at hlt
      unfold pathOf
      rw [List.getElem?_append_left hlt]

/-- The first declaration stays, and the later ones with its name go. -/
theorem firstOfNames_cons (d : Declaration) (rest : List Declaration) :
    firstOfNames (d :: rest) = d :: firstOfNames (rest.filter fun d' => d'.fqn ≠ d.fqn) := by
  unfold firstOfNames
  rw [List.eraseDupsBy_cons]
  congr 2
  exact List.filter_congr fun d' _ => by simp

/-- Only declarations are left out, and the others keep their order. -/
theorem firstOfNames_sublist (declarations : List Declaration) :
    (firstOfNames declarations).Sublist declarations := by
  induction hlength : declarations.length using Nat.strongRecOn generalizing declarations with
  | ind n ih =>
    cases declarations with
    | nil => exact List.Sublist.slnil
    | cons d rest =>
      have hle := List.length_filter_le (fun d' : Declaration => decide (d'.fqn ≠ d.fqn)) rest
      rw [List.length_cons] at hlength
      rw [firstOfNames_cons]
      exact ((ih _ (by omega) _ rfl).trans List.filter_sublist).cons_cons d

/-- Once a file has declared a name, it is not told of the name again. -/
theorem collisions_skip {fs : List File} {table table' : Table Fqn Symbol} {symbols : List Symbol}
    {id : FileId} (hsymbols : ∀ s ∈ symbols, s.file = id)
    (hown : ∀ s, table.get? q = some s → s.file = id) (hsome : (table.get? q).isSome)
    (hsame : ∀ q', q' ≠ q → table.get? q' = table'.get? q') :
    collisions fs table symbols = collisions fs table' (symbols.filter fun s => s.fqn ≠ q) := by
  induction symbols generalizing table table' with
  | nil => rfl
  | cons s rest ih =>
    have hrest : ∀ s ∈ rest, s.file = id := fun s' hs' => hsymbols s' (List.mem_cons_of_mem s hs')
    have hfile : s.file = id := hsymbols s List.mem_cons_self
    rw [collisions]
    by_cases hs : s.fqn = q
    -- The file itself supplies the symbol that this one is compared with.
    · obtain ⟨previous, hprevious⟩ := Option.isSome_iff_exists.1 hsome
      have hcollides : collides previous s = false := by
        simp [collides, hown previous hprevious, hfile]
      rw [hs, hprevious, List.filter_cons_of_neg (by simpa using hs)]
      simp only [hcollides, Bool.false_eq_true, if_false, List.nil_append]
      refine ih hrest (fun s' hs' => ?_) ?_ fun q' hq' => ?_
      · rw [Table.get?_insert, if_pos rfl] at hs'
        rw [← Option.some.inj hs', hfile]
      · rw [Table.get?_insert, if_pos rfl]
        rfl
      · rw [Table.get?_insert, if_neg hq', hsame q' hq']
    · rw [List.filter_cons_of_pos (by simpa using hs), collisions, hsame s.fqn hs]
      refine congrArg₂ _ rfl (ih hrest (fun s' hs' => ?_) ?_ fun q' hq' => ?_)
      · rw [Table.get?_insert, if_neg (Ne.symm hs)] at hs'
        exact hown s' hs'
      · rwa [Table.get?_insert, if_neg (Ne.symm hs)]
      · rw [Table.get?_insert, Table.get?_insert, hsame q' hq']

/-- A file is told of its first declaration of each name that other files declare too. -/
theorem collisions_eq_first (fs : List File) {table : Table Fqn Symbol} {id : FileId}
    {declarations : List Declaration} {symbol : Declaration → Symbol}
    (hsymbol : ∀ d, (symbol d).fqn = d.fqn ∧ (symbol d).file = id) :
    collisions fs table (declarations.map symbol) =
      (firstOfNames declarations).filterMap fun d =>
        ((table.get? d.fqn).filter fun previous => collides previous (symbol d)).map
          fun previous => duplicateFinding (symbol d) (pathOf fs previous.file) := by
  -- The first declaration takes the others of its name away, so the list behind it is shorter.
  induction hlength : declarations.length using Nat.strongRecOn generalizing declarations with
  | ind n ih =>
    cases declarations with
    | nil => rfl
    | cons d rest =>
      have hfile : ∀ s ∈ rest.map symbol, s.file = id := by
        intro s hs
        obtain ⟨d', -, rfl⟩ := List.mem_map.1 hs
        exact (hsymbol d').2
      have hwritten : (table.insert d.fqn (symbol d)).get? d.fqn = some (symbol d) := by
        rw [Table.get?_insert, if_pos rfl]
      have hown : ∀ s, (table.insert d.fqn (symbol d)).get? d.fqn = some s → s.file = id := by
        intro s hs
        rw [hwritten] at hs
        rw [← Option.some.inj hs, (hsymbol d).2]
      have hsame : ∀ q, q ≠ d.fqn → (table.insert d.fqn (symbol d)).get? q = table.get? q :=
        fun q hq => by rw [Table.get?_insert, if_neg hq]
      have hskip : collisions fs (table.insert d.fqn (symbol d)) (rest.map symbol) =
          collisions fs table ((rest.filter fun d' => d'.fqn ≠ d.fqn).map symbol) := by
        rw [collisions_skip hfile hown (by rw [hwritten]; rfl) hsame, List.filter_map]
        congr 2
        exact List.filter_congr fun d' _ => by simp [(hsymbol d').1]
      have hshorter : (rest.filter fun d' => d'.fqn ≠ d.fqn).length < n := by
        have hle := List.length_filter_le (fun d' : Declaration => decide (d'.fqn ≠ d.fqn)) rest
        rw [List.length_cons] at hlength
        omega
      rw [firstOfNames_cons, List.map_cons, collisions, (hsymbol d).1, hskip, ih _ hshorter rfl,
        List.filterMap_cons]
      cases table.get? d.fqn with
      | none => rfl
      | some previous =>
        by_cases hcollides : collides previous (symbol d) <;> simp [Option.filter, hcollides]

/-- Merging a file behind others reports the names that these declare too. -/
theorem collisions_foldl (before : List StoredFile) (file : StoredFile) :
    collisions (before.foldl merge .empty).files (before.foldl merge .empty).symbols
        (symbolsOf ((before.foldl merge .empty).numbering file.facts) file.facts) =
      reportsBehind before file := by
  -- No symbol that is there is of the file that is merged, so only the kinds decide.
  have hother : ∀ q s, (before.foldl merge .empty).symbols.get? q = some s →
      ∀ d, s.file ≠ (symbolOf before file d).file := by
    intro q s hs d hfile
    have hlt := position_lt_of_symbol?_foldl hs
    rw [hfile] at hlt
    exact Nat.lt_irrefl _ hlt
  have hsymbol : ∀ d, (symbolOf before file d).fqn = d.fqn ∧
      (symbolOf before file d).file = ⟨before.length⟩ := fun d => ⟨rfl, rfl⟩
  rw [symbolsOf_eq (linked_foldl before), collisions_eq_first _ hsymbol]
  refine List.filterMap_congr fun d _ => ?_
  have hlast := path_kind_of_symbol? before d.fqn
  unfold symbol? at hlast
  cases hprevious : (before.foldl merge .empty).symbols.get? d.fqn with
  | none =>
    rw [hprevious, Option.map_none, eq_comm, Option.map_eq_none_iff] at hlast
    rw [hlast]
    rfl
  | some previous =>
    rw [hprevious, Option.map_some, eq_comm, Option.map_eq_some_iff] at hlast
    obtain ⟨e, he, heq⟩ := hlast
    obtain ⟨hpath, hkind⟩ := Prod.mk.inj heq
    have hcollides : collides previous (symbolOf before file d) =
        !(e.2.kind = .module && d.kind = .module) := by
      unfold collides
      rw [decide_eq_true (hother d.fqn previous hprevious d), Bool.true_and, hkind]
      rfl
    rw [he, Option.filter, Option.filter, hcollides]
    split
    · rw [Option.map_some, Option.map_some, hpath]
      rfl
    · rfl

/-! ### Diagnostics in the order of their spans -/

/-- Sorting by place gives findings in the order of their places, and leaves those at one place as
they stood. -/
theorem spanSorted_mergeSort (findings : List Finding) :
    SpanSorted findings (findings.mergeSort fun a b => a.location.le b.location) := by
  have htrans : ∀ a b c : Finding, a.location.le b.location = true →
      b.location.le c.location = true → a.location.le c.location = true := by
    intro a b c hab hbc
    rw [Location.le_iff] at *
    omega
  have htotal : ∀ a b : Finding, (a.location.le b.location || b.location.le a.location) = true := by
    intro a b
    rw [Bool.or_eq_true, Location.le_iff, Location.le_iff]
    omega
  constructor
  case ordered =>
    exact (List.pairwise_mergeSort htrans htotal findings).imp fun h => Location.le_iff.1 h
  case stable =>
    intro span
    -- Findings of one span stand in order, so sorting keeps them in theirs, and adds none.
    have hsame : (findings.filter fun f => f.location.span = span).Pairwise
        fun a b => a.location.le b.location = true := by
      refine List.pairwise_of_forall_mem_list fun a ha b hb => ?_
      have hspan : a.location.span = b.location.span :=
        (of_decide_eq_true (List.mem_filter.1 ha).2).trans
          (of_decide_eq_true (List.mem_filter.1 hb).2).symm
      rw [Location.le_iff, hspan]
      exact .inr ⟨rfl, Nat.le_refl _⟩
    have hsublist := (List.sublist_mergeSort htrans htotal hsame List.filter_sublist).filter
      fun f => f.location.span = span
    rw [List.filter_filter] at hsublist
    simp only [Bool.and_self] at hsublist
    refine (hsublist.eq_of_length ?_).symm
    exact ((List.mergeSort_perm findings _).filter _).length_eq.symm

/-- The diagnostics of a file are its findings and then its reports, in the order of their spans. -/
theorem exists_spanSorted_diagnosticsOfFile (before later : List StoredFile) (file : StoredFile) :
    ∃ sorted, SpanSorted (file.facts.findings ++ reportsBehind before file) sorted ∧
      ((before ++ file :: later).foldl merge .empty).diagnosticsOfFile ⟨before.length⟩ =
        sorted.map fun f => ⟨⟨before.length⟩, f⟩ := by
  refine ⟨_, spanSorted_mergeSort _, ?_⟩
  rw [diagnosticsOfFile_foldl, collisions_foldl, diagnosticsOfFindings, numbering,
    (linked_foldl before).length_files]

/-! ### Responses -/

/-- The files of an index have the numbers up to their count. -/
theorem Linked.map_id (h : Linked files index) :
    index.files.map File.id = (List.range files.length).map FileId.mk := by
  refine List.ext_getElem ?_ fun i hi hi' => ?_
  · rw [List.length_map, List.length_map, List.length_range, h.length_files]
  · rw [List.getElem_map, List.getElem_map, List.getElem_range]
    rw [List.length_map] at hi
    exact h.id_eq (List.getElem?_eq_getElem hi)

/-- The groups list what the files list. -/
theorem flatMap_ofFile? (index : Index) (fs : List File) :
    (fs.filterMap (DiagnosticsResponse.ofFile? index)).flatMap FileDiagnostics.diagnostics =
      (fs.flatMap fun f => index.diagnosticsOfFile f.id).map index.diagnosticReport := by
  induction fs with
  | nil => rfl
  | cons f rest ih =>
    rw [List.flatMap_cons, List.map_append, ← ih, List.filterMap_cons]
    unfold DiagnosticsResponse.ofFile?
    cases index.diagnosticsOfFile f.id with
    | nil => rfl
    | cons d ds => rw [List.flatMap_cons]

/-- A group belongs to a file that has diagnostics. -/
theorem mem_ofIndex_files {g : FileDiagnostics}
    (hg : g ∈ (DiagnosticsResponse.ofIndex index).files) :
    ∃ f ∈ index.files, index.diagnosticsOfFile f.id ≠ [] ∧ g.path = f.path ∧
      g.diagnostics = (index.diagnosticsOfFile f.id).map index.diagnosticReport := by
  obtain ⟨f, hf, hg⟩ := List.mem_filterMap.1 hg
  refine ⟨f, hf, ?_⟩
  unfold DiagnosticsResponse.ofFile? at hg
  -- A file is grouped only if it has findings.
  cases hds : index.diagnosticsOfFile f.id with
  | nil =>
    rw [hds] at hg
    cases hg
  | cons d ds =>
    rw [hds] at hg
    obtain rfl := Option.some.inj hg
    exact ⟨List.cons_ne_nil _ _, rfl, rfl⟩

/-- The paths of the groups are paths of the files, in their order. -/
theorem paths_ofFile?_sublist (index : Index) (fs : List File) :
    ((fs.filterMap (DiagnosticsResponse.ofFile? index)).map FileDiagnostics.path).Sublist
      (fs.map File.path) := by
  induction fs with
  | nil => exact List.Sublist.slnil
  | cons f rest ih =>
    rw [List.filterMap_cons]
    unfold DiagnosticsResponse.ofFile?
    cases index.diagnosticsOfFile f.id with
    | nil => exact ih.cons f.path
    | cons d ds => exact ih.cons_cons f.path

/-- The diagnostics are those of the files, one after the other. -/
theorem diagnostics_foldl (files : List StoredFile) :
    (files.foldl merge .empty).diagnostics =
      (List.range files.length).flatMap fun i =>
        (files.foldl merge .empty).diagnosticsOfFile ⟨i⟩ := by
  simp only [(posted_foldl files).diagnosticsOfFile]
  exact fileByFile_diagnostics files

/-- The groups of a report hold the diagnostics of the index. -/
theorem flatMap_ofIndex_files (files : List StoredFile) :
    (DiagnosticsResponse.ofIndex (files.foldl merge .empty)).files.flatMap
        FileDiagnostics.diagnostics =
      (files.foldl merge .empty).diagnostics.map (files.foldl merge .empty).diagnosticReport := by
  refine (flatMap_ofFile? _ _).trans (congrArg _ ?_)
  rw [← List.flatMap_map File.id, (linked_foldl files).map_id, List.flatMap_map]
  exact (diagnostics_foldl files).symm

/-- A group is not empty, and what is in it is reported under the path of the group. -/
theorem path_of_mem_ofIndex_files {files : List StoredFile}
    (hpaths : (files.map fun stored => stored.facts.path).Nodup) {g : FileDiagnostics}
    (hg : g ∈ (DiagnosticsResponse.ofIndex (files.foldl merge .empty)).files) :
    g.diagnostics ≠ [] ∧ ∀ r ∈ g.diagnostics, r.place.file = g.path := by
  obtain ⟨f, hf, hne, hpath, hreports⟩ := mem_ofIndex_files hg
  constructor
  · rw [hreports]
    exact fun h => hne (List.map_eq_nil_iff.1 h)
  · intro r hr
    rw [hreports] at hr
    -- A report names the path of the file that its finding belongs to, and this is the file of the
    -- group.
    obtain ⟨d, hd, rfl⟩ := List.mem_map.1 hr
    rw [(posted_foldl files).diagnosticsOfFile, List.mem_filter] at hd
    have hfile : d.fileId = f.id := of_decide_eq_true hd.2
    show ((Index.file? _ d.fileId).map File.path).getD "" = g.path
    rw [hfile, ((linked_foldl files).file?_and_fileAt? hpaths f hf).1, hpath]
    rfl

/-- Every listing of an index of files is what its postings say. -/
theorem lists_foldl (files : List StoredFile)
    (hpaths : (files.map fun stored => stored.facts.path).Nodup) :
    Lists files (files.foldl merge .empty) := by
  have hposted := posted_foldl files
  constructor
  case posted => exact hposted
  case usages =>
    simp only [hposted.usagesInFile]
    exact fileByFile_usages files
  case usagesInFile =>
    rintro before file later rfl
    rw [usagesInFile_foldl, usagesOfFacts_eq (linked_foldl before)]
  case usagesInFile_eq => exact hposted.usagesInFile
  case usagesOf => exact hposted.usagesOf
  case targets => exact finite_targets hposted
  case resolved => exact resolved_eq_finsum hposted
  case diagnosticsOfFile =>
    rintro before file later rfl
    exact exists_spanSorted_diagnosticsOfFile before later file
  case diagnostics => exact diagnostics_foldl files
  case grouped => exact flatMap_ofIndex_files files
  case group => exact fun g hg => path_of_mem_ofIndex_files hpaths hg
  case paths =>
    refine (paths_ofFile?_sublist _ _).nodup ?_
    rw [(linked_foldl files).map_path]
    exact hpaths
  case total =>
    have hlength := congrArg List.length (flatMap_ofIndex_files files)
    rw [List.length_flatMap, List.length_map] at hlength
    exact hlength.symm

end Index

namespace Store

/-- Whatever facts a store was given, the listings of its index lose and repeat nothing. -/
theorem index_after_lists (changes : List Change) :
    Index.Lists (after changes).files.values (after changes).index := by
  refine Index.lists_foldl _ ?_
  rw [values_path_after]
  exact nodup_paths _

end Store

end NameAtlas
