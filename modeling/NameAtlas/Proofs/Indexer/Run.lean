import NameAtlas.Indexer
import NameAtlas.Proofs.Discovery
import NameAtlas.Proofs.Analysis.WellFormed
import NameAtlas.Proofs.Index.Sound

/-!
# Runs of an indexer

A run looks at each file that it discovers and writes what it analyzes under the path of the file
(`get?_foldl_record`); all other facts of the store stay (`get?_foldl_record_of_forall_ne`). An
indexer in use is what a history of runs and removals makes of one without facts
(`Indexer.after`), and its store is one that was only changed by supplying and dropping facts
(`reached_after`). So the files of its index are the paths of its store, with the digests of
their contents (`mem_contents_iff`). After a run these are up to date for all that the run
discovered and did not skip (`follows_run_after`). What it did not discover stays: a file that is
gone is dropped by a removal only (`exists_contents_gone`).
-/

namespace NameAtlas

open Python

/-- The paths of the files of an index with the digests of their contents. -/
def Index.contents (index : Index) : List (String × String) :=
  index.files.map fun f => (f.path, f.contentHash)

/-- The digest of what was found in a file. -/
def Discovered.digest (f : Discovered) : String := Sha256.digest f.content.bytes.toList

namespace Store

/-- The contents of an index are the paths and hashes of the files that were merged. -/
theorem contents_foldl_merge (files : List StoredFile) :
    (files.foldl Index.merge .empty).contents = files.map fun f => (f.facts.path, f.contentHash) := by
  induction files using List.reverseRecOn with
  | nil => rfl
  | append_singleton earlier last ih =>
    rw [Index.foldl_merge_concat, Index.contents, Index.merge, List.map_append, List.map_append]
    exact congrArg₂ (· ++ ·) ih rfl

/-- The files of the index are the paths of the store. -/
theorem mem_contents_iff {changes : List Change} {path hash : String} :
    (path, hash) ∈ (after changes).index.contents ↔ (after changes).contentHash? path = some hash := by
  rw [index, contents_foldl_merge, contentHash?, Option.map_eq_some_iff, List.mem_map]
  constructor
  -- A file of the index is stored under its own path, as every history stores it so.
  · rintro ⟨stored, hstored, heq⟩
    obtain ⟨k, hk⟩ := (Table.mem_values_iff _ _).1 hstored
    obtain ⟨facts, contentHash, -, hentry⟩ :=
      mem_entries_after ((Table.get?_eq_some_iff _ _ _).1 hk)
    obtain ⟨rfl, rfl⟩ := Prod.mk.inj hentry
    obtain ⟨rfl, rfl⟩ := Prod.mk.inj heq
    exact ⟨_, hk, rfl⟩
  · rintro ⟨stored, hget, rfl⟩
    obtain ⟨facts, contentHash, -, hentry⟩ :=
      mem_entries_after ((Table.get?_eq_some_iff _ _ _).1 hget)
    obtain ⟨rfl, rfl⟩ := Prod.mk.inj hentry
    exact ⟨_, (Table.mem_values_iff _ _).2 ⟨_, hget⟩, rfl⟩

end Store

namespace Indexer

/-! ### What becomes of a file -/

/-- The facts of an analysis have the path of the file. -/
theorem path_of_analyze {options : AnalysisOptions} {file : SourceFile} {facts : FileFacts}
    (h : analyze options file = .ok facts) : facts.path = file.path := by
  rw [analyze] at h
  split at h
  · cases h
  · dsimp only at h
    split at h
    · cases h
    · obtain rfl := Except.ok.inj h
      rfl

/-- What a store holds of a file once it has been analyzed, if that succeeds. -/
def stored? (ix : Indexer) (f : Discovered) : Option StoredFile :=
  f.content.text?.bind fun text =>
    match analyze ix.analysisOptions ⟨f.path, ix.moduleOf f.path, text, f.content.tree⟩ with
    | .ok facts => some ⟨facts, f.digest⟩
    | .error _ => none

/-- True for a file that is not skipped before its text is known. -/
structure Readable (ix : Indexer) (f : Discovered) : Prop where
  /-- It is a Python source. -/
  supported : isPythonPath f.path
  /-- It is not larger than the limit. -/
  size : f.content.size ≤ ix.config.index.maxFileSize
  /-- Its bytes are a text. -/
  text : f.content.text?.isSome

variable {ix : Indexer} {f : Discovered}

/-- What is stored of a file has its path and its digest. -/
theorem of_stored? {stored : StoredFile} (h : ix.stored? f = some stored) :
    stored.facts.path = f.path ∧ stored.contentHash = f.digest := by
  obtain ⟨text, -, h⟩ := Option.bind_eq_some_iff.1 h
  split at h
  · next hfacts =>
    obtain rfl := Option.some.inj h
    exact ⟨path_of_analyze hfacts, rfl⟩
  · cases h

/-- A file that cannot be read is skipped, for one of three reasons. -/
theorem exists_skipped_of_not_readable (h : ¬ix.Readable f) : ∃ reason, ix.outcome f = .skipped reason := by
  rw [outcome]
  split
  · exact ⟨_, rfl⟩
  · next hsupported =>
    split
    · exact ⟨_, rfl⟩
    · next hsize =>
      split
      · exact ⟨_, rfl⟩
      · next text htext =>
        exact absurd ⟨by simpa using hsupported, Nat.not_lt.1 hsize, by rw [htext]; rfl⟩ h

/-- What becomes of a file whose text is known. -/
theorem outcome_of_text (h : ix.Readable f) {text : String} (htext : f.content.text? = some text) :
    ix.outcome f =
      if ix.store.contentHash? f.path = some f.digest then .unchanged
      else
        match analyze ix.analysisOptions ⟨f.path, ix.moduleOf f.path, text, f.content.tree⟩ with
        | .ok facts => .analyzed facts f.digest
        | .error (.cancelled _) => .skipped .cancelled
        | .error (.parseFailed _) => .skipped .parseFailed := by
  have hsize : ¬ix.config.index.maxFileSize < f.content.size := Nat.not_lt.2 h.size
  simp only [outcome, h.supported, Bool.not_true, Bool.false_eq_true, if_false, if_neg hsize, htext]
  rfl

/-- A file is left alone if its text is that of an earlier run. -/
theorem outcome_of_known (h : ix.Readable f) (hknown : ix.store.contentHash? f.path = some f.digest) :
    ix.outcome f = .unchanged := by
  obtain ⟨text, htext⟩ := Option.isSome_iff_exists.1 h.text
  rw [outcome_of_text h htext, if_pos hknown]

/-- A file with another text is analyzed if that succeeds. -/
theorem outcome_of_stored? (h : ix.Readable f)
    (hnew : ix.store.contentHash? f.path ≠ some f.digest) {stored : StoredFile}
    (hstored : ix.stored? f = some stored) :
    ix.outcome f = .analyzed stored.facts stored.contentHash := by
  obtain ⟨text, htext, hstored⟩ := Option.bind_eq_some_iff.1 hstored
  rw [outcome_of_text h htext, if_neg hnew]
  split at hstored
  · next hfacts =>
    obtain rfl := Option.some.inj hstored
    rw [hfacts]
  · cases hstored

/-- A file with another text is skipped if its analysis fails. -/
theorem exists_skipped_of_stored? (h : ix.Readable f)
    (hnew : ix.store.contentHash? f.path ≠ some f.digest) (hstored : ix.stored? f = none) :
    ∃ reason, ix.outcome f = .skipped reason := by
  obtain ⟨text, htext⟩ := Option.isSome_iff_exists.1 h.text
  rw [stored?, htext, Option.bind_some] at hstored
  rw [outcome_of_text h htext, if_neg hnew]
  split at hstored
  · cases hstored
  · next e herror =>
    rw [herror]
    cases e <;> exact ⟨_, rfl⟩

/-- A file is analyzed, or known, or skipped. -/
theorem outcome_cases (ix : Indexer) (f : Discovered) :
    (ix.Readable f ∧ ∃ stored, ix.stored? f = some stored ∧
        ix.outcome f = .analyzed stored.facts stored.contentHash) ∨
      (ix.Readable f ∧ ix.store.contentHash? f.path = some f.digest ∧ ix.outcome f = .unchanged) ∨
      ∃ reason, ix.outcome f = .skipped reason := by
  by_cases h : ix.Readable f
  · by_cases hknown : ix.store.contentHash? f.path = some f.digest
    · exact .inr (.inl ⟨h, hknown, outcome_of_known h hknown⟩)
    · cases hstored : ix.stored? f with
      | none => exact .inr (.inr (exists_skipped_of_stored? h hknown hstored))
      | some stored => exact .inl ⟨h, stored, rfl, outcome_of_stored? h hknown hstored⟩
  · exact .inr (.inr (exists_skipped_of_not_readable h))

/-! ### What a run does to the store -/

/-- An outcome that is written under the path of its file. -/
theorem path_of_outcome {facts : FileFacts} {hash : String} (h : ix.outcome f = .analyzed facts hash) :
    facts.path = f.path := by
  obtain ⟨-, stored, hstored, houtcome⟩ | ⟨-, -, houtcome⟩ | ⟨reason, houtcome⟩ := outcome_cases ix f
  · obtain ⟨rfl, -⟩ := Outcome.analyzed.inj (h.symm.trans houtcome)
    exact (of_stored? hstored).1
  · cases h.symm.trans houtcome
  · cases h.symm.trans houtcome

section Record

variable {files : List Discovered} (store : Store)

/-- What becomes of a file leaves the facts of other paths. -/
theorem get?_record_of_ne {path : String} (hne : f.path ≠ path) :
    (record store (ix.outcome f)).files.get? path = store.files.get? path := by
  cases houtcome : ix.outcome f with
  | analyzed facts hash =>
    rw [record, Store.upsert, Table.get?_insert, path_of_outcome houtcome, if_neg hne.symm]
  | unchanged => rfl
  | skipped reason => rfl

/-- A path that was not looked at keeps what was stored under it. -/
theorem get?_foldl_record_of_forall_ne {path : String} (hne : ∀ f ∈ files, f.path ≠ path) :
    ((files.map ix.outcome).foldl record store).files.get? path = store.files.get? path := by
  induction files generalizing store with
  | nil => rfl
  | cons f rest ih =>
    rw [List.map_cons, List.foldl_cons, ih _ fun g hg => hne g (List.mem_cons_of_mem f hg),
      get?_record_of_ne store (hne f List.mem_cons_self)]

/-- Behind a run the facts of a path are what became of the one file with that path. -/
theorem get?_foldl_record (hnodup : (files.map Discovered.path).Nodup) (hf : f ∈ files) :
    ((files.map ix.outcome).foldl record store).files.get? f.path =
      (record store (ix.outcome f)).files.get? f.path := by
  induction files generalizing store with
  | nil => cases hf
  | cons g rest ih =>
    -- The first file is the one with the path and all behind it leave the path alone, or it leaves
    -- the path of a file behind it alone.
    obtain ⟨hnew, hrest⟩ := List.nodup_cons.1 hnodup
    have hbehind : ∀ f ∈ rest, f.path ≠ g.path :=
      fun f hf hpath => hnew (hpath ▸ List.mem_map_of_mem hf)
    rw [List.map_cons, List.foldl_cons]
    rcases List.mem_cons.1 hf with rfl | hf
    · exact get?_foldl_record_of_forall_ne _ hbehind
    · rw [ih _ hrest hf]
      have hsame : (record store (ix.outcome g)).files.get? f.path = store.files.get? f.path :=
        get?_record_of_ne store (hbehind f hf).symm
      cases houtcome : ix.outcome f with
      | analyzed facts hash =>
        rw [record, record, Store.upsert, Store.upsert, Table.get?_insert, Table.get?_insert,
          path_of_outcome houtcome, if_pos rfl, if_pos rfl]
      | unchanged => exact hsame
      | skipped reason => exact hsame

end Record

/-- The files that a run looks at. -/
def discovered (ix : Indexer) (fs : FileSystem) (targets : List Path) : List Discovered :=
  match fs.discover ix.workspace targets ix.config.index.exclude isPythonPath with
  | .ok files => files
  | .error _ => []

/-- No path is looked at twice. -/
theorem nodup_discovered (ix : Indexer) (fs : FileSystem) (targets : List Path) :
    ((ix.discovered fs targets).map Discovered.path).Nodup := by
  rw [discovered]
  split
  · next hfiles => exact FileSystem.nodup_discover hfiles
  · exact List.nodup_nil

/-- Without targets the files come in the order of their paths. -/
theorem sorted_discovered (ix : Indexer) (fs : FileSystem) :
    ((ix.discovered fs []).map Discovered.path).Pairwise (· ≤ ·) := by
  rw [discovered]
  split
  · next hfiles => exact FileSystem.sorted_discover hfiles
  · exact List.Pairwise.nil

variable {fs : FileSystem} {targets : List Path} {next : Indexer} {report : RunReport}

/-- A run that reports has looked at the discovered files. -/
theorem of_run (h : ix.run fs targets = .ok (next, report)) :
    next = { ix with store := ((ix.discovered fs targets).map ix.outcome).foldl record ix.store } ∧
      report = Indexer.report ((ix.discovered fs targets).map fun f => (f, ix.outcome f)) := by
  rw [run] at h
  rw [discovered]
  -- If discovery failed, there would be no report.
  cases hfiles : fs.discover ix.workspace targets ix.config.index.exclude isPythonPath with
  | error e => simp [hfiles] at h
  | ok files =>
    simp only [hfiles] at h
    obtain ⟨rfl, rfl⟩ := Prod.mk.inj (Except.ok.inj h)
    refine ⟨?_, rfl⟩
    rw [List.map_map]
    rfl

/-- A report lists the files that were skipped. -/
theorem mem_skipped_iff {files : List Discovered} {s : SkippedFile} :
    s ∈ (Indexer.report (files.map fun f => (f, ix.outcome f))).skipped ↔
      ∃ f ∈ files, f.path = s.path ∧ ix.outcome f = .skipped s.reason := by
  rw [Indexer.report, List.filterMap_map, List.mem_filterMap]
  refine exists_congr fun f => and_congr_right fun _ => ?_
  rw [Function.comp_apply]
  -- Only a skipped outcome is listed, with its reason.
  cases ix.outcome f with
  | analyzed facts hash => simp
  | unchanged => simp
  | skipped reason =>
    constructor
    · rintro ⟨⟩
      exact ⟨rfl, rfl⟩
    · rintro ⟨hpath, hreason⟩
      rw [hpath, Outcome.skipped.inj hreason]

/-! ### Histories -/

/-- Something that happens to an indexer. -/
inductive Event where
  /-- A run on the files as they are then. -/
  | run (fs : FileSystem) (targets : List Path)
  /-- The facts of a path are dropped. -/
  | remove (path : String)
  /-- The analyses are called off from then on. -/
  | cancel

/-- An indexer after an event; a run that fails changes nothing. -/
def handle (ix : Indexer) : Event → Indexer
  | .run fs targets =>
    match ix.run fs targets with
    | .ok (next, _) => next
    | .error _ => ix
  | .remove path => ix.remove path
  | .cancel => { ix with cancelled := true }

/-- An indexer after a history of events. -/
def after (ix : Indexer) (events : List Event) : Indexer := events.foldl handle ix

/-- The change that an outcome makes to a store. -/
def changeOf? : Outcome → Option Store.Change
  | .analyzed facts hash => some (.upsert facts hash)
  | _ => none

/-- Recording outcomes is changing the store by those of them that are changes. -/
theorem foldl_record_eq (store : Store) (outcomes : List Outcome) :
    outcomes.foldl record store = (outcomes.filterMap changeOf?).foldl Store.change store := by
  induction outcomes generalizing store with
  | nil => rfl
  | cons o rest ih =>
    rw [List.foldl_cons, ih]
    cases o <;> rfl

/-- True for the stores that are only changed by supplying and dropping facts. -/
def Reached (store : Store) : Prop := ∃ changes, store = Store.after changes

/-- Changes lead from a reached store to a reached one. -/
theorem Reached.foldl {store : Store} (h : Reached store) (changes : List Store.Change) :
    Reached (changes.foldl Store.change store) := by
  obtain ⟨earlier, rfl⟩ := h
  exact ⟨earlier ++ changes, (List.foldl_append ..).symm⟩

/-- A run leaves a reached store. -/
theorem reached_run (hix : Reached ix.store) (h : ix.run fs targets = .ok (next, report)) :
    Reached next.store := by
  obtain ⟨rfl, -⟩ := of_run h
  rw [foldl_record_eq]
  exact hix.foldl _

/-- Every event leaves a reached store. -/
theorem reached_handle (hix : Reached ix.store) (e : Event) : Reached (ix.handle e).store := by
  cases e with
  | run fs targets =>
    rw [handle]
    split
    · next hrun => exact reached_run hix hrun
    -- A run that fails leaves the indexer as it is.
    · exact hix
  | remove path => exact hix.foldl [.remove path]
  | cancel => exact hix

/-- Every history leaves a reached store. -/
theorem reached_after (hix : Reached ix.store) (events : List Event) :
    Reached (ix.after events).store := by
  induction events generalizing ix with
  | nil => exact hix
  | cons e rest ih => exact ih (reached_handle hix e)

/-- The index holds a content exactly if the store knows its path by this hash. -/
theorem Reached.mem_contents_iff (hix : Reached ix.store) {path hash : String} :
    (path, hash) ∈ ix.index.contents ↔ ix.store.contentHash? path = some hash := by
  obtain ⟨changes, hstore⟩ := hix
  rw [index, hstore]
  exact Store.mem_contents_iff

/-! ### The files of the index behind a run -/

/-- How the files of an index follow a run that looked at some files. -/
structure Follows (files : List Discovered) (report : RunReport) (before after : Index) : Prop where
  /-- What was not skipped is there, with the content that was found. -/
  seen : ∀ f ∈ files, (∀ s ∈ report.skipped, s.path ≠ f.path) →
    ∀ hash, (f.path, hash) ∈ after.contents ↔ hash = f.digest
  /-- What was skipped and was not there before is not there. -/
  skipped : ∀ s ∈ report.skipped, (∀ hash, (s.path, hash) ∉ before.contents) →
    ∀ hash, (s.path, hash) ∉ after.contents
  /-- What was not looked at stays, or stays away. -/
  others : ∀ path, (∀ f ∈ files, f.path ≠ path) →
    ∀ hash, (path, hash) ∈ after.contents ↔ (path, hash) ∈ before.contents

/-- The index behind a run follows the files that the run looked at. -/
theorem follows_run (hix : Reached ix.store) (h : ix.run fs targets = .ok (next, report)) :
    Follows (ix.discovered fs targets) report ix.index next.index := by
  have hnext := reached_run hix h
  obtain ⟨rfl, rfl⟩ := of_run h
  have hnodup := nodup_discovered ix fs targets
  constructor
  case seen =>
    intro f hf hskipped hash
    -- A file that is not skipped is written with its digest, or is known by it.
    have hfound : ((record ix.store (ix.outcome f)).files.get? f.path).map StoredFile.contentHash =
        some f.digest := by
      obtain ⟨-, stored, hstored, houtcome⟩ | ⟨-, hknown, houtcome⟩ | ⟨reason, houtcome⟩ :=
        outcome_cases ix f
      · rw [houtcome, record, Store.upsert, Table.get?_insert, (of_stored? hstored).1, if_pos rfl]
        exact congrArg some (of_stored? hstored).2
      · rw [houtcome]
        exact hknown
      · exact absurd rfl (hskipped ⟨f.path, reason⟩ (mem_skipped_iff.2 ⟨f, hf, rfl, houtcome⟩))
    rw [hnext.mem_contents_iff, Store.contentHash?, get?_foldl_record _ hnodup hf, hfound,
      Option.some.injEq, eq_comm]
  case skipped =>
    intro s hs hbefore hash hmem
    obtain ⟨f, hf, hpath, houtcome⟩ := mem_skipped_iff.1 hs
    rw [hnext.mem_contents_iff, Store.contentHash?, ← hpath, get?_foldl_record _ hnodup hf,
      houtcome] at hmem
    -- Skipping a file leaves the store as it is.
    exact hbefore hash (hix.mem_contents_iff.2 (hpath ▸ hmem))
  case others =>
    intro path hpath hash
    rw [hnext.mem_contents_iff, hix.mem_contents_iff, Store.contentHash?,
      get?_foldl_record_of_forall_ne _ hpath]
    rfl

/-- The store of a new indexer is reached. -/
theorem reached_ofWorkspace (workspace : Path) (config : Config) (cancelled : Bool) :
    Reached (ofWorkspace workspace config cancelled).store := ⟨[], rfl⟩

/-- Behind every history, a run that reports brings the index up to date with the files that it
looked at and did not skip, adds nothing else, and leaves all other files of the index. -/
theorem follows_run_after (workspace : Path) (config : Config) (cancelled : Bool)
    (events : List Event) (fs : FileSystem) (targets : List Path) {next : Indexer}
    {report : RunReport}
    (h : ((ofWorkspace workspace config cancelled).after events).run fs targets = .ok (next, report)) :
    Follows (((ofWorkspace workspace config cancelled).after events).discovered fs targets) report
      ((ofWorkspace workspace config cancelled).after events).index next.index :=
  follows_run (reached_after (reached_ofWorkspace workspace config cancelled) events) h

/-- A run on concrete files reports what evaluating it shows. -/
theorem exists_run_of_toOption {β : Type} {g : Indexer × RunReport → β} {b : β}
    (h : (ix.run fs targets).toOption.map g = some b) :
    ∃ next report, ix.run fs targets = .ok (next, report) ∧ g (next, report) = b := by
  obtain ⟨⟨next, report⟩, hrun, hg⟩ := FileSystem.exists_of_toOption h
  exact ⟨next, report, hrun, hg⟩

/-- A file system with some files in the directory `w`. -/
def filesInW (files : List (String × FileContent)) : FileSystem :=
  ⟨.directory [("w", .directory (files.map fun f => (f.1, .file f.2)))], []⟩

/-- A file that assigns a number to `x`. -/
def assigningContent : FileContent :=
  ⟨"x = 1\n".toUTF8,
    some (wholeNode 0 "module" "" 0 6
      [wholeNode 1 "expression_statement" "" 0 5
        [wholeNode 2 "assignment" "" 0 5
          [wholeNode 3 "identifier" "left" 0 1 [], wholeNode 4 "integer" "right" 4 5 []]]])⟩

/-- A module `a.py` beside a module `lib.py`. -/
def besideLibrary (content library : FileContent) : FileSystem :=
  filesInW [("a.py", content), ("lib.py", library)]

/-- Both modules are discovered, whatever they hold. -/
theorem discover_besideLibrary (content library : FileContent) :
    (besideLibrary content library).discover ⟨"/w"⟩ [] [] isPythonPath =
      .ok [⟨"a.py", ["w", "a.py"], content⟩, ⟨"lib.py", ["w", "lib.py"], library⟩] := by
  have hpieces : (⟨"/w"⟩ : Path).pieces = ["", "w"] := by decide +kernel
  have habsolute : (⟨"/w"⟩ : Path).isAbsolute = true := by decide +kernel
  have hresolve : (besideLibrary content library).resolve? ⟨"/w"⟩ = some ["w"] := by
    rw [FileSystem.resolve?, hpieces, habsolute]
    rfl
  have hentry : (besideLibrary content library).entryAt? ["w"] =
      some (.directory [("a.py", .file content), ("lib.py", .file library)]) := rfl
  -- Both names are evaluated; the contents stay variables, so sorting is unfolded by hand.
  have hwalk : (besideLibrary content library).walk ⟨"/w"⟩ ⟨"/w"⟩ ["w"]
      (fun path => isPythonPath path && !([] : List Glob).any fun g => g.accepts path) =
        [⟨"a.py", ["w", "a.py"], content⟩, ⟨"lib.py", ["w", "lib.py"], library⟩] := by
    have htop : (((⟨"/w"⟩ : Path).descend []).relativeTo ⟨"/w"⟩).names = [] := by decide +kernel
    have hname (name : String) (h : name = "a.py" ∨ name = "lib.py") :
        (((⟨"/w"⟩ : Path).descend [name]).relativeTo ⟨"/w"⟩).names = [name] ∧
          isToolName name = false ∧ ((⟨"/w"⟩ : Path).descend [name]).inWorkspace ⟨"/w"⟩ = name ∧
            isPythonPath name = true := by
      rcases h with rfl | rfl <;> decide +kernel
    have hle : "a.py" ≤ "lib.py" := by decide
    simp [FileSystem.walk, hentry, htop, Entry.files, Entry.filesIn, hname, hle, List.mergeSort,
      List.MergeSort.Internal.splitInTwo]
  simp only [FileSystem.discover, FileSystem.isDirectory, FileSystem.entry?, hresolve,
    Option.bind_some, hentry, excludeGlobs, List.mapM_nil, pure_bind, List.isEmpty_nil, if_true,
    List.mapM_cons, FileSystem.target, hwalk]
  rfl

/-- A run in `w` without settings looks at both modules, in this order. -/
theorem discovered_besideLibrary (hworkspace : ix.workspace = ⟨"/w"⟩)
    (hexclude : ix.config.index.exclude = []) (content library : FileContent) :
    ix.discovered (besideLibrary content library) [] =
      [⟨"a.py", ["w", "a.py"], content⟩, ⟨"lib.py", ["w", "lib.py"], library⟩] := by
  rw [discovered, hworkspace, hexclude, discover_besideLibrary]

/-- What such a run does, with the files that it looks at written out. -/
theorem run_besideLibrary (hworkspace : ix.workspace = ⟨"/w"⟩)
    (hexclude : ix.config.index.exclude = []) (content library : FileContent) :
    let outcomes := [⟨"a.py", ["w", "a.py"], content⟩, ⟨"lib.py", ["w", "lib.py"], library⟩].map
      fun f => (f, ix.outcome f)
    ix.run (besideLibrary content library) [] =
      .ok ({ ix with store := (outcomes.map Prod.snd).foldl record ix.store },
        Indexer.report outcomes) := by
  rw [run, hworkspace, hexclude, discover_besideLibrary]

/-- A file that is no text. -/
def illegibleContent : FileContent := ⟨⟨#[255]⟩, none⟩

/-- When a file is moved, the run behind it adds the new path and leaves the old one; a new file that
it skips stays away. -/
theorem follows_run_after_moving :
    ∃ next report, ((ofWorkspace ⟨"/w"⟩ {} false).after
        [.run (filesInW [("old.py", assigningContent)]) []]).run
          (besideLibrary assigningContent illegibleContent) [] = .ok (next, report) ∧
      report.skipped = [⟨"lib.py", .unreadable notUtf8⟩] ∧
      (∃ hash, ("a.py", hash) ∈ next.index.contents ∧ ("old.py", hash) ∈ next.index.contents) ∧
      ∀ hash, ("lib.py", hash) ∉ next.index.contents := by
  let ix := (ofWorkspace ⟨"/w"⟩ {} false).after [.run (filesInW [("old.py", assigningContent)]) []]
  let files : List Discovered :=
    [⟨"a.py", ["w", "a.py"], assigningContent⟩, ⟨"lib.py", ["w", "lib.py"], illegibleContent⟩]
  -- The history only changes the store, so the run is still one in `w` without settings.
  have hworkspace : ix.workspace = ⟨"/w"⟩ := by decide +kernel
  have hexclude : ix.config.index.exclude = [] := by decide +kernel
  have hskipped : (Indexer.report (files.map fun f => (f, ix.outcome f))).skipped =
      [⟨"lib.py", .unreadable notUtf8⟩] := by decide +kernel
  have hbefore : ix.index.contents.map Prod.fst = ["old.py"] := by decide +kernel
  have hrun := run_besideLibrary hworkspace hexclude assigningContent illegibleContent
  have hfollows := follows_run_after _ _ _ _ _ _ hrun
  rw [discovered_besideLibrary hworkspace hexclude] at hfollows
  refine ⟨_, _, hrun, hskipped, ⟨Discovered.digest ⟨"a.py", ["w", "a.py"], assigningContent⟩, ?_, ?_⟩,
    ?_⟩
  · refine (hfollows.seen _ List.mem_cons_self (fun s hs => ?_) _).2 rfl
    have hs : s = ⟨"lib.py", .unreadable notUtf8⟩ := List.mem_singleton.1 (hskipped ▸ hs)
    rw [hs]
    decide
  · exact (hfollows.others "old.py" (by simp) _).2 (by decide +kernel)
  · refine hfollows.skipped ⟨"lib.py", .unreadable notUtf8⟩ (hskipped ▸ List.mem_singleton_self _)
      fun hash hmem => ?_
    have hpath := List.mem_map_of_mem (f := Prod.fst) hmem
    rw [hbefore] at hpath
    simp at hpath

/-- A file that is gone stays in the index, although the run discovers and skips nothing. -/
theorem exists_contents_gone :
    ∃ events fs next report,
      ((ofWorkspace ⟨"/w"⟩ {} false).after events).run fs [] = .ok (next, report) ∧
      ((ofWorkspace ⟨"/w"⟩ {} false).after events).discovered fs [] = [] ∧
      report.skipped = [] ∧ next.index.files.map File.path = ["a.py"] := by
  -- A run takes the file in, and the next one finds the workspace without it.
  let events : List Event := [.run (filesInW [("a.py", assigningContent)]) []]
  obtain ⟨next, report, hrun, hfound⟩ : ∃ next report,
      ((ofWorkspace ⟨"/w"⟩ {} false).after events).run (filesInW []) [] = .ok (next, report) ∧
        (report.skipped, next.index.files.map File.path) = ([], ["a.py"]) :=
    exists_run_of_toOption (g := fun r => (r.2.skipped, r.1.index.files.map File.path))
      (by decide +kernel)
  obtain ⟨hskipped, hfiles⟩ := Prod.mk.inj hfound
  have hnone : (((ofWorkspace ⟨"/w"⟩ {} false).after events).discovered (filesInW []) []).map
      Discovered.path = [] := by decide +kernel
  exact ⟨events, filesInW [], next, report, hrun, List.map_eq_nil_iff.1 hnone, hskipped, hfiles⟩

end Indexer

end NameAtlas
