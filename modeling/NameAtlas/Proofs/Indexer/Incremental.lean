import NameAtlas.Proofs.Indexer.Run

/-!
# Runs that build on each other

A run leaves alone what it knows by its digest and replaces the rest in place. If every run finds
the same paths and skips nothing, its store is the one that a single run would have made of the same
files: the paths stand in the order of the first run, which is that of every run, and under each
path stands what an analysis of its content gives (`Current`). So the index behind the runs is that
of an indexer that only ever saw the last files (`index_runsOn_eq`). This needs that a digest that
comes back under a path stands for the content it stood for.
-/

namespace NameAtlas

namespace Indexer

/-- Runs without targets on some file systems, one behind the other. -/
def runsOn (fss : List FileSystem) : List Event := fss.map fun fs => .run fs []

/-- The files that a run without targets skips, if it reports. -/
def skipped? (ix : Indexer) (fs : FileSystem) : Option (List SkippedFile) :=
  (ix.run fs []).toOption.map fun r => r.2.skipped

/-- True if each of some runs reports that it skipped nothing. -/
def SkipsNone : Indexer → List FileSystem → Prop
  | _, [] => True
  | ix, fs :: rest => ix.skipped? fs = some [] ∧ SkipsNone (ix.handle (.run fs [])) rest

variable {ix : Indexer} {fs : FileSystem} {f : Discovered} {files : List Discovered} {store : Store}

/-- A history may be followed in two parts. -/
theorem after_append (ix : Indexer) (events later : List Event) :
    ix.after (events ++ later) = (ix.after events).after later := List.foldl_append ..

/-- Some runs and the later ones skip nothing exactly if each part skips nothing where it begins. -/
theorem skipsNone_append {fss later : List FileSystem} :
    ix.SkipsNone (fss ++ later) ↔ ix.SkipsNone fss ∧ (ix.after (runsOn fss)).SkipsNone later := by
  induction fss generalizing ix with
  | nil => simp [SkipsNone, runsOn, after]
  | cons fs rest ih =>
    rw [List.cons_append, SkipsNone, ih, SkipsNone, and_assoc]
    rfl

/-! ### The store behind a run -/

/-- What is known or analyzed stands in the store, a new path behind the others. -/
theorem paths_record (hin : f.path ∈ store.paths ∨ ∃ facts hash, ix.outcome f = .analyzed facts hash) :
    (record store (ix.outcome f)).paths =
      if f.path ∈ store.paths then store.paths else store.paths ++ [f.path] := by
  cases houtcome : ix.outcome f with
  | analyzed facts hash =>
    rw [record, Store.upsert, Store.paths, Table.keys_insert, path_of_outcome houtcome]
    rfl
  | unchanged => exact (if_pos (hin.resolve_right (by simp [houtcome]))).symm
  | skipped reason => exact (if_pos (hin.resolve_right (by simp [houtcome]))).symm

/-- Paths come in behind those that are known, and known ones stay in their places. -/
theorem paths_foldl_record (hnodup : (files.map Discovered.path).Nodup)
    (hin : ∀ f ∈ files, f.path ∈ store.paths ∨ ∃ facts hash, ix.outcome f = .analyzed facts hash) :
    ((files.map ix.outcome).foldl record store).paths =
      store.paths ++ (files.map Discovered.path).filter fun path => path ∉ store.paths := by
  induction files generalizing store with
  | nil => simp
  | cons f rest ih =>
    obtain ⟨hnew, hrest⟩ := List.nodup_cons.1 hnodup
    have hpaths := paths_record (hin f List.mem_cons_self)
    have hsub : store.paths ⊆ (record store (ix.outcome f)).paths := by
      rw [hpaths]
      split
      · exact List.Subset.refl _
      · exact List.subset_append_left _ _
    have hbehind := ih hrest fun g hg => (hin g (List.mem_cons_of_mem f hg)).imp_left fun h => hsub h
    -- The paths behind the first file are known just if they were before it.
    have hsame : ((rest.map Discovered.path).filter fun path =>
        path ∉ (record store (ix.outcome f)).paths) =
          (rest.map Discovered.path).filter fun path => path ∉ store.paths := by
      refine List.filter_congr fun path hpath => ?_
      have hne : path ≠ f.path := fun h => hnew (h ▸ hpath)
      rw [hpaths]
      by_cases hknown : f.path ∈ store.paths <;> simp [hknown, hne]
    rw [List.map_cons, List.foldl_cons, hbehind, hsame, hpaths, List.map_cons, List.filter_cons]
    by_cases hknown : f.path ∈ store.paths <;> simp [hknown]

/-- What a store holds after a run that skipped nothing: under each path what an analysis of its
content gives. -/
structure Current (ix : Indexer) (store : Store) (files : List Discovered) : Prop where
  /-- The paths are those of the files, in their order. -/
  paths : store.paths = files.map Discovered.path
  /-- Every file can be read and analyzed. -/
  readable : ∀ f ∈ files, ix.Readable f
  /-- Under each path stands what an analysis of its content gives. -/
  stored : ∀ f ∈ files, ∃ stored, ix.stored? f = some stored ∧
    store.files.get? f.path = some stored

/-- Two stores that are current for the same files are the same. -/
theorem Current.unique {other : Store} (h : Current ix store files) (h' : Current ix other files) :
    store = other := by
  -- The paths come in one order, and under each path stands what its analysis gives.
  have hfiles : store.files = other.files := by
    refine Table.eq_of_get? (h.paths.trans h'.paths.symm) fun path hpath => ?_
    have hpath : path ∈ files.map Discovered.path := h.paths ▸ (show path ∈ store.paths from hpath)
    obtain ⟨f, hf, rfl⟩ := List.mem_map.1 hpath
    obtain ⟨stored, hstored, hget⟩ := h.stored f hf
    obtain ⟨stored', hstored', hget'⟩ := h'.stored f hf
    rw [hget, hget', ← hstored, ← hstored']
  cases store
  cases other
  cases hfiles
  rfl

/-- If a run skips nothing, each of its files is analyzed or known. -/
theorem outcome_of_skipped_eq_nil (ix : Indexer)
    (hskipped : (Indexer.report (files.map fun f => (f, ix.outcome f))).skipped = []) (hf : f ∈ files) :
    ix.Readable f ∧
      ((∃ stored, ix.stored? f = some stored ∧
          ix.outcome f = .analyzed stored.facts stored.contentHash) ∨
        (ix.store.contentHash? f.path = some f.digest ∧ ix.outcome f = .unchanged)) := by
  obtain ⟨hreadable, hanalyzed⟩ | ⟨hreadable, hunchanged⟩ | ⟨reason, hreason⟩ := outcome_cases ix f
  · exact ⟨hreadable, .inl hanalyzed⟩
  · exact ⟨hreadable, .inr hunchanged⟩
  · have hmem : (⟨f.path, reason⟩ : SkippedFile) ∈ ([] : List SkippedFile) :=
      hskipped ▸ mem_skipped_iff.2 ⟨f, hf, rfl, hreason⟩
    cases hmem

/-- If all paths are new or all of them are known, the paths behind a run are those of its files. -/
theorem paths_foldl_record_eq (hnodup : (files.map Discovered.path).Nodup)
    (hpaths : store.paths = [] ∨ store.paths = files.map Discovered.path)
    (hin : ∀ f ∈ files, f.path ∈ store.paths ∨ ∃ facts hash, ix.outcome f = .analyzed facts hash) :
    ((files.map ix.outcome).foldl record store).paths = files.map Discovered.path := by
  refine (paths_foldl_record hnodup hin).trans ?_
  obtain hnone | hsame := hpaths
  · simp [hnone]
  · rw [← hsame, List.filter_eq_nil_iff.2 (by simp), List.append_nil]

/-- A run that skips nothing, and whose known files have not changed, leaves what an analysis of each
file gives. -/
theorem current_of_run {next : Indexer} {report : RunReport}
    (hrun : ({ ix with store } : Indexer).run fs [] = .ok (next, report))
    (hskipped : report.skipped = [])
    (hpaths : store.paths = [] ∨ store.paths = (ix.discovered fs []).map Discovered.path)
    (hknown : ∀ f ∈ ix.discovered fs [], store.contentHash? f.path = some f.digest →
      store.files.get? f.path = ix.stored? f) :
    ∃ store', next = { ix with store := store' } ∧ Current ix store' (ix.discovered fs []) := by
  obtain ⟨rfl, rfl⟩ := of_run hrun
  have hnodup := nodup_discovered ix fs []
  have houtcome (f : Discovered) (hf : f ∈ ix.discovered fs []) :=
    outcome_of_skipped_eq_nil { ix with store } hskipped hf
  refine ⟨_, rfl, ?_⟩
  constructor
  case paths =>
    refine paths_foldl_record_eq hnodup hpaths fun f hf => ?_
    obtain ⟨-, ⟨stored, -, hanalyzed⟩ | ⟨hhash, -⟩⟩ := houtcome f hf
    · exact .inr ⟨_, _, hanalyzed⟩
    · obtain ⟨stored, hget, -⟩ := Option.map_eq_some_iff.1 hhash
      exact .inl ((Table.mem_keys_iff _ _).2 (by rw [hget]; rfl))
  case readable =>
    intro f hf
    obtain ⟨hreadable, -⟩ := houtcome f hf
    exact ⟨hreadable.1, hreadable.2, hreadable.3⟩
  case stored =>
    intro f hf
    have hget : (((ix.discovered fs []).map ({ ix with store } : Indexer).outcome).foldl record
        store).files.get? f.path = (record store (({ ix with store } : Indexer).outcome f)).files.get?
          f.path := get?_foldl_record store hnodup hf
    obtain ⟨-, ⟨stored, hstored, hanalyzed⟩ | ⟨hhash, hunchanged⟩⟩ := houtcome f hf
    · refine ⟨stored, hstored, hget.trans ?_⟩
      rw [hanalyzed, record, Store.upsert, Table.get?_insert, (of_stored? hstored).1, if_pos rfl]
    -- What is known is what an analysis of the content gives.
    · obtain ⟨stored, hold, -⟩ := Option.map_eq_some_iff.1 hhash
      refine ⟨stored, (hknown f hf hhash).symm.trans hold, hget.trans ?_⟩
      rw [hunchanged]
      exact hold

/-! ### Runs behind each other -/

/-- An indexer that skips nothing has run and takes over what the run gives. -/
theorem exists_run_of_skipped? (h : ix.skipped? fs = some []) :
    ∃ next report, ix.run fs [] = .ok (next, report) ∧ report.skipped = [] ∧
      ix.handle (.run fs []) = next := by
  obtain ⟨next, report, hrun, hskipped⟩ := exists_run_of_toOption h
  refine ⟨next, report, hrun, hskipped, ?_⟩
  rw [handle, hrun]

/-- What an analysis of a file gives depends on its path and content only, if the parser does. -/
theorem stored?_congr {parse : String → Option Source.Node} {f g : Discovered}
    (hf : ∀ text, f.content.text? = some text → f.content.tree = parse text)
    (hg : ∀ text, g.content.text? = some text → g.content.tree = parse text)
    (hpath : f.path = g.path) (hbytes : f.content.bytes = g.content.bytes) :
    ix.stored? f = ix.stored? g := by
  have htext : f.content.text? = g.content.text? := congrArg String.fromUTF8? hbytes
  have hdigest : f.digest = g.digest := by rw [Discovered.digest, hbytes, Discovered.digest]
  cases hknown : f.content.text? with
  | none => rw [stored?, stored?, ← htext, hknown, Option.bind_none, Option.bind_none]
  | some text =>
    have htree : f.content.tree = g.content.tree :=
      (hf text hknown).trans (hg text (htext.symm.trans hknown)).symm
    rw [stored?, stored?, ← htext, htree, hpath, hdigest]

/-- The runs of an indexer only change its store. -/
theorem exists_after_runsOn (ix : Indexer) (fss : List FileSystem) :
    ∃ store, ix.after (runsOn fss) = { ix with store } := by
  induction fss generalizing ix with
  | nil => exact ⟨ix.store, rfl⟩
  | cons fs rest ih =>
    -- A run that reports changes the store only, and one that fails changes nothing.
    obtain ⟨store, hstore⟩ : ∃ store, ix.handle (.run fs []) = { ix with store } := by
      rw [handle]
      split
      · next hrun => exact ⟨_, (of_run hrun).1⟩
      · exact ⟨ix.store, rfl⟩
    obtain ⟨store', hstore'⟩ := ih (ix.handle (.run fs []))
    refine ⟨store', hstore'.trans ?_⟩
    rw [hstore]

/-- File systems that differ in the contents of the discovered files only, with a parser for these
and digests that tell the contents of one path apart. -/
structure OnlyEdited (ix : Indexer) (parse : String → Option Source.Node) (fss : List FileSystem) :
    Prop where
  /-- The same paths are discovered in all of them. -/
  paths : ∀ fs ∈ fss, ∀ fs' ∈ fss, ∀ path,
    path ∈ (ix.discovered fs []).map Discovered.path ↔
      path ∈ (ix.discovered fs' []).map Discovered.path
  /-- The trees are those of the parser. -/
  parsed : ∀ fs ∈ fss, ∀ f ∈ ix.discovered fs [], ∀ text, f.content.text? = some text →
    f.content.tree = parse text
  /-- Distinct contents of one path have distinct digests. -/
  digests : ∀ fs ∈ fss, ∀ fs' ∈ fss, ∀ f ∈ ix.discovered fs [], ∀ f' ∈ ix.discovered fs' [],
    f.path = f'.path → f.digest = f'.digest → f.content.bytes = f'.content.bytes

variable {parse : String → Option Source.Node} {fss earlier : List FileSystem} {last : FileSystem}

/-- Among fewer file systems there are fewer edits. -/
theorem OnlyEdited.mono {fss' : List FileSystem} (h : ix.OnlyEdited parse fss) (hsub : fss' ⊆ fss) :
    ix.OnlyEdited parse fss' where
  paths fs hfs fs' hfs' := h.paths fs (hsub hfs) fs' (hsub hfs')
  parsed fs hfs := h.parsed fs (hsub hfs)
  digests fs hfs fs' hfs' := h.digests fs (hsub hfs) fs' (hsub hfs')

/-- The paths come in one order. -/
theorem OnlyEdited.map_path_eq (h : ix.OnlyEdited parse fss) {fs fs' : FileSystem} (hfs : fs ∈ fss)
    (hfs' : fs' ∈ fss) :
    (ix.discovered fs []).map Discovered.path = (ix.discovered fs' []).map Discovered.path := by
  have hperm : ((ix.discovered fs []).map Discovered.path).Perm
      ((ix.discovered fs' []).map Discovered.path) :=
    (List.perm_ext_iff_of_nodup (nodup_discovered ix fs []) (nodup_discovered ix fs' [])).2
      (h.paths fs hfs fs' hfs')
  exact hperm.eq_of_pairwise (fun _ _ _ _ => String.le_antisymm) (sorted_discovered ix fs)
    (sorted_discovered ix fs')

/-- What is known of a file by its digest is what an analysis of its content gives. -/
theorem OnlyEdited.get?_of_known (h : ix.OnlyEdited parse fss) {fs fs' : FileSystem}
    (hfs : fs ∈ fss) (hfs' : fs' ∈ fss) (hcurrent : Current ix store (ix.discovered fs []))
    {f : Discovered} (hf : f ∈ ix.discovered fs' [])
    (hknown : store.contentHash? f.path = some f.digest) :
    store.files.get? f.path = ix.stored? f := by
  have hpath : f.path ∈ (ix.discovered fs []).map Discovered.path :=
    (h.paths fs hfs fs' hfs' f.path).2 (List.mem_map_of_mem hf)
  obtain ⟨g, hg, hpath⟩ := List.mem_map.1 hpath
  obtain ⟨stored, hstored, hget⟩ := hcurrent.stored g hg
  -- The content that the store knows has the digest of this one, so it is this one.
  have hdigest : g.digest = f.digest := by
    rw [Store.contentHash?, ← hpath, hget, Option.map_some, (of_stored? hstored).2] at hknown
    exact Option.some.inj hknown
  have hbytes := h.digests fs hfs fs' hfs' g hg f hf hpath hdigest
  rw [← hpath, hget, ← hstored]
  exact stored?_congr (h.parsed fs hfs g hg) (h.parsed fs' hfs' f hf) hpath hbytes

/-- Runs between which files are only edited, and which skip nothing, leave what an analysis of the
last files gives. -/
theorem OnlyEdited.exists_current (h : ix.OnlyEdited parse (earlier ++ [last]))
    (hempty : ix.store = .empty) (hskips : ix.SkipsNone (earlier ++ [last])) :
    ∃ store, ix.after (runsOn (earlier ++ [last])) = { ix with store } ∧
      Current ix store (ix.discovered last []) := by
  -- The induction is on the runs before the last one: what they leave is up to date with the files
  -- of the run before it, so what the last one finds known needs no analysis.
  induction earlier using List.reverseRecOn generalizing last with
  | nil =>
    obtain ⟨next, report, hrun, hskipped, hnext⟩ := exists_run_of_skipped? hskips.1
    have hrun : ({ ix with store := ix.store } : Indexer).run last [] = .ok (next, report) := hrun
    obtain ⟨store, hstore, hcurrent⟩ := current_of_run hrun hskipped
      (.inl (by rw [hempty]; rfl)) (fun f _ hknown => by rw [hempty] at hknown; cases hknown)
    exact ⟨store, hnext.trans hstore, hcurrent⟩
  | append_singleton before previous ih =>
    have hbefore : before ++ [previous] ⊆ before ++ [previous] ++ [last] := List.subset_append_left _ _
    obtain ⟨hskips, hlast⟩ := skipsNone_append.1 hskips
    obtain ⟨store, hstore, hcurrent⟩ := ih (h.mono hbefore) hskips
    rw [hstore] at hlast
    obtain ⟨next, report, hrun, hskipped, hnext⟩ := exists_run_of_skipped? hlast.1
    have hprevious : previous ∈ before ++ [previous] ++ [last] := by simp
    have hmem : last ∈ before ++ [previous] ++ [last] := by simp
    obtain ⟨store', hstore', hcurrent'⟩ := current_of_run hrun hskipped
      (.inr (hcurrent.paths.trans (h.map_path_eq hprevious hmem)))
      fun f hf => h.get?_of_known hprevious hmem hcurrent hf
    refine ⟨store', ?_, hcurrent'⟩
    rw [runsOn, List.map_append, after_append]
    have hstore : ix.after ((before ++ [previous]).map fun fs => .run fs []) = { ix with store } :=
      hstore
    rw [hstore]
    exact hnext.trans hstore'

/-- An indexer without facts skips none of the files that another one with its settings has read and
analyzed. -/
theorem Current.skipped? (h : Current ix store (ix.discovered fs [])) (hempty : ix.store = .empty)
    {other : Store} {next : Indexer} {report : RunReport}
    (hrun : ({ ix with store := other } : Indexer).run fs [] = .ok (next, report)) :
    ix.skipped? fs = some [] := by
  -- Discovery does not look at the store, so the run of the new indexer reports as well.
  obtain ⟨next', report', hrun'⟩ : ∃ next' report', ix.run fs [] = .ok (next', report') := by
    rw [run] at hrun ⊢
    split at hrun
    · cases hrun
    · next hfiles =>
      rw [hfiles]
      exact ⟨_, _, rfl⟩
  have hnone : report'.skipped = [] := by
    obtain ⟨-, rfl⟩ := of_run hrun'
    rw [List.eq_nil_iff_forall_not_mem]
    intro s hs
    obtain ⟨f, hf, -, hskipped⟩ := mem_skipped_iff.1 hs
    obtain ⟨stored, hstored, -⟩ := h.stored f hf
    have hnew : ix.store.contentHash? f.path ≠ some f.digest := by
      rw [hempty]
      intro hknown
      cases hknown
    have hanalyzed := outcome_of_stored? (h.readable f hf) hnew hstored
    cases hskipped.symm.trans hanalyzed
  rw [Indexer.skipped?, hrun', ← hnone]
  rfl

/-- Incremental indexing is indexing from scratch: if files are only edited between runs that skip
nothing, the index behind the runs is that of one run on the last files. -/
theorem index_runsOn_eq (workspace : Path) (config : Config) (cancelled : Bool)
    (parse : String → Option Source.Node) (earlier : List FileSystem) (last : FileSystem)
    (hedited : (ofWorkspace workspace config cancelled).OnlyEdited parse (earlier ++ [last]))
    (hskips : (ofWorkspace workspace config cancelled).SkipsNone (earlier ++ [last])) :
    (ofWorkspace workspace config cancelled).skipped? last = some [] ∧
      ((ofWorkspace workspace config cancelled).after (runsOn (earlier ++ [last]))).index =
        ((ofWorkspace workspace config cancelled).after (runsOn [last])).index := by
  obtain ⟨store, hstore, hcurrent⟩ := hedited.exists_current rfl hskips
  -- The last run finds its files, so a first run does.
  have hfresh : (ofWorkspace workspace config cancelled).skipped? last = some [] := by
    obtain ⟨other, hother⟩ := exists_after_runsOn (ofWorkspace workspace config cancelled) earlier
    have hlast := (skipsNone_append.1 hskips).2.1
    rw [hother] at hlast
    obtain ⟨next, report, hrun, -⟩ := exists_run_of_skipped? hlast
    exact hcurrent.skipped? rfl hrun
  have hlast : (ofWorkspace workspace config cancelled).OnlyEdited parse ([] ++ [last]) :=
    hedited.mono (List.subset_append_right _ _)
  obtain ⟨store', hstore', hcurrent'⟩ := hlast.exists_current rfl ⟨hfresh, trivial⟩
  have hstore' : (ofWorkspace workspace config cancelled).after (runsOn [last]) =
      { ofWorkspace workspace config cancelled with store := store' } := hstore'
  refine ⟨hfresh, ?_⟩
  rw [hstore, hstore', hcurrent.unique hcurrent']

/-- A file that assigns another name to `x`. -/
def readingContent : FileContent :=
  ⟨"x = y\n".toUTF8,
    some (Python.wholeNode 0 "module" "" 0 6
      [Python.wholeNode 1 "expression_statement" "" 0 5
        [Python.wholeNode 2 "assignment" "" 0 5
          [Python.wholeNode 3 "identifier" "left" 0 1 [],
            Python.wholeNode 4 "identifier" "right" 4 5 []]]])⟩

/-- If the module beside the library is all that is edited, its contents are all that counts. -/
theorem onlyEdited_besideLibrary (contents : List FileContent) (library : FileContent)
    (hparse : ∀ c ∈ library :: contents, ∀ text, c.text? = some text → c.tree = parse text)
    (hdigest : ∀ c ∈ contents, ∀ c' ∈ contents,
      Sha256.digest c.bytes.toList = Sha256.digest c'.bytes.toList → c.bytes = c'.bytes) :
    (ofWorkspace ⟨"/w"⟩ {} false).OnlyEdited parse
      (contents.map fun c => besideLibrary c library) := by
  have hdiscovered (c : FileContent) : (ofWorkspace ⟨"/w"⟩ {} false).discovered
      (besideLibrary c library) [] = _ := discovered_besideLibrary rfl rfl c library
  constructor
  case paths =>
    simp only [List.forall_mem_map, hdiscovered]
    exact fun _ _ _ _ _ => Iff.rfl
  case parsed =>
    simp only [List.forall_mem_map, hdiscovered]
    intro c hc f hf
    simp only [List.mem_cons, List.not_mem_nil, or_false] at hf
    rcases hf with rfl | rfl
    · exact hparse c (List.mem_cons_of_mem _ hc)
    · exact hparse library List.mem_cons_self
  case digests =>
    simp only [List.forall_mem_map, hdiscovered]
    intro c hc c' hc' f hf f' hf' hpath
    simp only [List.mem_cons, List.not_mem_nil, or_false] at hf hf'
    -- Files with one path are both the module or both the library.
    rcases hf with rfl | rfl <;> rcases hf' with rfl | rfl
    · exact hdigest c hc c' hc'
    · simp at hpath
    · simp at hpath
    · exact fun _ => rfl

/-- Of three runs the second one knows both files, and the third one finds one of them edited and
knows the other; the index is that of the third one alone. -/
theorem index_runsOn_edited :
    let original := besideLibrary assigningContent assigningContent
    let edited := besideLibrary readingContent assigningContent
    let ix := ofWorkspace ⟨"/w"⟩ {} false
    ((ix.after (runsOn [original])).run original []).toOption.map Prod.snd = some ⟨0, 2, []⟩ ∧
      ((ix.after (runsOn [original, original])).run edited []).toOption.map Prod.snd =
        some ⟨1, 1, []⟩ ∧
      (ix.after (runsOn [original, original, edited])).index = (ix.after (runsOn [edited])).index := by
  intro original edited ix
  let parse (text : String) : Option Source.Node :=
    if text = "x = 1\n" then assigningContent.tree else readingContent.tree
  have hassigning : assigningContent.text? = some "x = 1\n" := by decide +kernel
  have hreading : readingContent.text? = some "x = y\n" := by decide +kernel
  have hne : Sha256.digest assigningContent.bytes.toList ≠
      Sha256.digest readingContent.bytes.toList := by decide +kernel
  have hedited : ix.OnlyEdited parse ([original, original] ++ [edited]) := by
    refine onlyEdited_besideLibrary [assigningContent, assigningContent, readingContent]
      assigningContent (fun c hc text htext => ?_) fun c hc c' hc' hdigest => ?_
    · simp only [List.mem_cons, List.not_mem_nil, or_false, or_self_left] at hc
      rcases hc with rfl | rfl
      · rw [← Option.some.inj (hassigning.symm.trans htext)]
        exact (if_pos rfl).symm
      · rw [← Option.some.inj (hreading.symm.trans htext)]
        exact (if_neg (by decide)).symm
    · simp only [List.mem_cons, List.not_mem_nil, or_false, or_self_left] at hc hc'
      rcases hc with rfl | rfl <;> rcases hc' with rfl | rfl
      · rfl
      · exact absurd hdigest hne
      · exact absurd hdigest.symm hne
      · rfl
  -- What the runs look at is rewritten first, as sorting the files does not evaluate.
  have hskips : ix.SkipsNone ([original, original] ++ [edited]) := by
    simp only [SkipsNone, List.cons_append, List.nil_append, skipped?, handle, ix, original, edited,
      ofWorkspace, run_besideLibrary]
    decide +kernel
  have hreports : ((ix.after (runsOn [original])).run original []).toOption.map Prod.snd =
        some ⟨0, 2, []⟩ ∧
      ((ix.after (runsOn [original, original])).run edited []).toOption.map Prod.snd =
        some ⟨1, 1, []⟩ := by
    simp only [after, runsOn, List.map_cons, List.map_nil, List.foldl_cons, List.foldl_nil, handle,
      ix, original, edited, ofWorkspace, run_besideLibrary]
    decide +kernel
  exact ⟨hreports.1, hreports.2,
    (index_runsOn_eq ⟨"/w"⟩ {} false parse [original, original] edited hedited hskips).2⟩

end Indexer

end NameAtlas
