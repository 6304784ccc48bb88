import NameAtlas.Proofs.Indexer.Run

/-!
# What a run reports

A run goes through its files one by one and takes in what becomes of each (`takeIn`). Done step by
step on an indexer that is in use, it could leave one behind that has taken in some of the files only;
but it fails before the first of them or not at all (`run_indexPaths`). Each file counts once, and the
same run again finds known what the first one analyzed and skips what that one skipped
(`indexPaths_accounts`).
-/

namespace NameAtlas.Indexer

variable {ix : Indexer} {fs : FileSystem} {targets : List Path} {files : List Discovered}
  {f : Discovered} {outcomes : List (Discovered × Outcome)} {store : Store}

/-! ### Runs step by step -/

/-- Takes in what became of a file: its facts change the indexer and it counts in the report. -/
def takeIn (report : RunReport) (o : Discovered × Outcome) :
    ExceptT Failure (StateM Indexer) RunReport := do
  match o.2 with
  | .analyzed facts hash =>
    modifyThe Indexer fun ix => { ix with store := ix.store.upsert facts hash }
    pure { report with analyzed := report.analyzed + 1 }
  | .unchanged => pure { report with unchanged := report.unchanged + 1 }
  | .skipped reason => pure { report with skipped := report.skipped ++ [⟨o.1.path, reason⟩] }

/-- A run on the indexer that is in use. What a failure leaves behind stays. -/
def indexPaths (fs : FileSystem) (targets : List Path) :
    ExceptT Failure (StateM Indexer) RunReport := do
  let ix ← getThe Indexer
  match fs.discover ix.workspace targets ix.config.index.exclude Python.isPythonPath with
  | .error e => throw (.ofDiscovery e)
  | .ok files => (files.map fun f => (f, ix.outcome f)).foldlM takeIn ⟨0, 0, []⟩

/-- A computation that succeeds goes on from the indexer that it leaves. -/
theorem run_bind_of_ok {α β : Type} {x : ExceptT Failure (StateM Indexer) α} {a : α}
    {ix next : Indexer} (h : x.run ix = (.ok a, next)) (k : α → ExceptT Failure (StateM Indexer) β) :
    (x >>= k).run ix = (k a).run next := by
  rw [ExceptT.run_bind]
  show StateT.bind x.run _ ix = _
  rw [StateT.bind, h]
  rfl

/-- An outcome changes the store and the report as a run does. -/
theorem run_takeIn (o : Discovered × Outcome) :
    (takeIn (Indexer.report outcomes) o).run ix =
      (.ok (Indexer.report (outcomes ++ [o])), { ix with store := record ix.store o.2 }) := by
  obtain ⟨f, outcome⟩ := o
  cases outcome <;> simp [takeIn, Indexer.report, record] <;> rfl

/-- Taking in the outcomes one by one counts what the report counts and stores what the run
stores. -/
theorem run_foldlM_takeIn (outcomes : List (Discovered × Outcome)) :
    (outcomes.foldlM takeIn ⟨0, 0, []⟩).run ix =
      (.ok (Indexer.report outcomes),
        { ix with store := (outcomes.map Prod.snd).foldl record ix.store }) := by
  induction outcomes using List.reverseRecOn with
  | nil => rfl
  | append_singleton outcomes o ih =>
    rw [List.foldlM_append, run_bind_of_ok ih, List.foldlM_cons, run_bind_of_ok (run_takeIn o),
      List.map_append, List.foldl_append]
    rfl

/-- A run step by step does what a run does, and a failure leaves the indexer as it is. -/
theorem run_indexPaths (ix : Indexer) (fs : FileSystem) (targets : List Path) :
    (indexPaths fs targets).run ix =
      match ix.run fs targets with
      | .ok (next, report) => (.ok report, next)
      | .error failure => (.error failure, ix) := by
  have hget : (getThe Indexer : ExceptT Failure (StateM Indexer) Indexer).run ix = (.ok ix, ix) := rfl
  rw [indexPaths, run_bind_of_ok hget, run]
  cases fs.discover ix.workspace targets ix.config.index.exclude Python.isPythonPath with
  | error e => rfl
  | ok files => exact run_foldlM_takeIn _

/-! ### The report -/

/-- What a report says of a file, if it is skipped. -/
def skipOf? (ix : Indexer) (f : Discovered) : Option SkippedFile :=
  match ix.outcome f with
  | .skipped reason => some ⟨f.path, reason⟩
  | _ => none

/-- The report on one outcome more counts or lists it in front. -/
theorem report_cons (o : Discovered × Outcome) (rest : List (Discovered × Outcome)) :
    Indexer.report (o :: rest) =
      match o.2 with
      | .analyzed _ _ =>
        { Indexer.report rest with analyzed := (Indexer.report rest).analyzed + 1 }
      | .unchanged => { Indexer.report rest with unchanged := (Indexer.report rest).unchanged + 1 }
      | .skipped reason =>
        { Indexer.report rest with
          skipped := ⟨o.1.path, reason⟩ :: (Indexer.report rest).skipped } := by
  obtain ⟨f, outcome⟩ := o
  cases outcome <;> simp [Indexer.report]

/-- Every file counts once. -/
theorem length_report (outcomes : List (Discovered × Outcome)) :
    (Indexer.report outcomes).analyzed + (Indexer.report outcomes).unchanged +
      (Indexer.report outcomes).skipped.length = outcomes.length := by
  induction outcomes with
  | nil => rfl
  | cons o rest ih =>
    obtain ⟨f, outcome⟩ := o
    rw [report_cons, List.length_cons, ← ih]
    cases outcome <;> simp only [List.length_cons] <;> omega

/-- The report lists the files that are skipped, in the order in which they were found. -/
theorem skipped_report (files : List Discovered) :
    (Indexer.report (files.map fun f => (f, ix.outcome f))).skipped = files.filterMap ix.skipOf? := by
  rw [Indexer.report, List.filterMap_map]
  rfl

/-! ### The same run again -/

/-- What becomes of a file that was just looked at. -/
def again : Outcome → Outcome
  | .skipped reason => .skipped reason
  | _ => .unchanged

/-- What becomes of a file depends on the store only by what that knows of its path. -/
theorem outcome_congr (h : store.contentHash? f.path = ix.store.contentHash? f.path) :
    ({ ix with store } : Indexer).outcome f = ix.outcome f := by
  simp only [outcome, analysisOptions, moduleOf, h]

/-- The same run finds known what it analyzed or knew before. -/
theorem outcome_again (hnodup : (files.map Discovered.path).Nodup) (hf : f ∈ files) :
    ({ ix with store := (files.map ix.outcome).foldl record ix.store } : Indexer).outcome f =
      again (ix.outcome f) := by
  let next : Indexer := { ix with store := (files.map ix.outcome).foldl record ix.store }
  have hhash : next.store.contentHash? f.path = (record ix.store (ix.outcome f)).contentHash? f.path :=
    congrArg (Option.map StoredFile.contentHash) (get?_foldl_record ix.store hnodup hf)
  -- An analyzed file is known by its digest now, a known one still is, and a skipped one leaves no
  -- trace.
  obtain ⟨hreadable, stored, hstored, houtcome⟩ | ⟨hreadable, hknown, houtcome⟩ | ⟨reason, houtcome⟩ :=
    outcome_cases ix f
  · have hnext : next.Readable f := ⟨hreadable.1, hreadable.2, hreadable.3⟩
    obtain ⟨hpath, hdigest⟩ := of_stored? hstored
    rw [houtcome]
    refine outcome_of_known hnext (hhash.trans ?_)
    rw [houtcome, record, Store.contentHash?, Store.upsert, Table.get?_insert, hpath, if_pos rfl,
      Option.map_some, hdigest]
  · have hnext : next.Readable f := ⟨hreadable.1, hreadable.2, hreadable.3⟩
    rw [houtcome] at hhash ⊢
    exact outcome_of_known hnext (hhash.trans hknown)
  · rw [houtcome] at hhash ⊢
    exact (outcome_congr hhash).trans houtcome

/-- Behind a run again, what was analyzed counts as unchanged, and the same files are skipped. -/
theorem report_again (outcomes : List (Discovered × Outcome)) :
    Indexer.report (outcomes.map fun o => (o.1, again o.2)) =
      ⟨0, (Indexer.report outcomes).analyzed + (Indexer.report outcomes).unchanged,
        (Indexer.report outcomes).skipped⟩ := by
  induction outcomes with
  | nil => rfl
  | cons o rest ih =>
    obtain ⟨f, outcome⟩ := o
    rw [List.map_cons, report_cons, report_cons, ih]
    cases outcome <;> simp only [again] <;> ac_rfl

/-- Nothing is recorded again, as no outcome is an analysis. -/
theorem foldl_record_again (outcomes : List Outcome) :
    (outcomes.map again).foldl record store = store := by
  induction outcomes with
  | nil => rfl
  | cons o rest ih => cases o <;> exact ih

/-- The same run again, right behind the first one. -/
theorem run_again
    (hdiscover : fs.discover ix.workspace targets ix.config.index.exclude Python.isPythonPath =
      .ok files) :
    let outcomes := files.map fun f => (f, ix.outcome f)
    let next : Indexer := { ix with store := (outcomes.map Prod.snd).foldl record ix.store }
    next.run fs targets =
      .ok (next, ⟨0, (Indexer.report outcomes).analyzed + (Indexer.report outcomes).unchanged,
        (Indexer.report outcomes).skipped⟩) := by
  intro outcomes next
  have hstore : next = { ix with store := (files.map ix.outcome).foldl record ix.store } := by
    simp only [next, outcomes, List.map_map]
    rfl
  -- Each file of the second run has the outcome that `again` predicts from the first one.
  have hagain : (files.map fun f => (f, next.outcome f)) = outcomes.map fun o => (o.1, again o.2) := by
    rw [List.map_map]
    refine List.map_congr_left fun f hf => congrArg (Prod.mk f) ?_
    rw [hstore]
    exact outcome_again (FileSystem.nodup_discover hdiscover) hf
  have hsame : ((outcomes.map fun o => (o.1, again o.2)).map Prod.snd).foldl record next.store =
      next.store := by
    have hmap : (outcomes.map fun o => (o.1, again o.2)).map Prod.snd =
        (outcomes.map Prod.snd).map again := by
      simp only [List.map_map, Function.comp_def]
    rw [hmap, foldl_record_again]
  rw [run, show fs.discover next.workspace targets next.config.index.exclude Python.isPythonPath =
    .ok files from hdiscover]
  dsimp only
  rw [hagain, hsame, report_again]

/-- A run that reports counts every file that it discovered once and lists the skipped ones as they
were discovered. The same run again reports the analyzed files as known and changes nothing. A run that
fails, since something that it is told of is missing or wrong, changes nothing either. -/
theorem indexPaths_accounts (ix : Indexer) (fs : FileSystem) (targets : List Path) :
    (∀ report next, (indexPaths fs targets).run ix = (.ok report, next) →
      ∃ files,
        fs.discover ix.workspace targets ix.config.index.exclude Python.isPythonPath = .ok files ∧
        report.analyzed + report.unchanged + report.skipped.length = files.length ∧
        report.skipped = files.filterMap ix.skipOf? ∧
        (indexPaths fs targets).run next =
          (.ok ⟨0, report.analyzed + report.unchanged, report.skipped⟩, next)) ∧
    (∀ failure next, (indexPaths fs targets).run ix = (.error failure, next) → next = ix) ∧
    ((∃ failure next, (indexPaths fs targets).run ix = (.error failure, next)) ↔
      ¬(fs.isDirectory ix.workspace ∧
        (∀ pattern ∈ ix.config.index.exclude, ∃ g, Glob.parse pattern = .ok g) ∧
        ∀ t ∈ targets, (fs.resolve? (ix.workspace.join t)).isSome)) := by
  rw [← FileSystem.exists_discover_iff, run_indexPaths, run]
  -- Discovery alone decides if the run fails, and it fails before anything is stored.
  cases hdiscover :
    fs.discover ix.workspace targets ix.config.index.exclude Python.isPythonPath with
  | error e =>
    refine ⟨fun report next hrun => ?_, fun failure next hrun => (Prod.mk.inj hrun).2.symm,
      fun _ => ?_, fun _ => ⟨_, _, rfl⟩⟩
    · cases (Prod.mk.inj hrun).1
    · rintro ⟨files, hfiles⟩
      cases hfiles
  | ok files =>
    refine ⟨fun report next hrun => ?_, fun failure next hrun => ?_, ?_, fun hnone => ?_⟩
    · obtain ⟨hreport, rfl⟩ := Prod.mk.inj hrun
      obtain rfl := Except.ok.inj hreport
      refine ⟨files, rfl, ?_, skipped_report files, ?_⟩
      · exact (length_report _).trans (List.length_map _)
      · rw [run_indexPaths, run_again hdiscover]
    · cases (Prod.mk.inj hrun).1
    · rintro ⟨failure, next, hrun⟩
      cases (Prod.mk.inj hrun).1
    · exact absurd ⟨files, rfl⟩ hnone

/-- Of two files one is analyzed and known to the same run again, and one is skipped in both; with a
target that is missing behind one that is there, nothing changes. -/
theorem indexPaths_accounts_mixed :
    let fs := filesInW [("a.py", assigningContent), ("notes.txt", assigningContent)]
    let ix := ofWorkspace ⟨"/w"⟩ {} false
    let skipped : List SkippedFile := [⟨"notes.txt", .unsupported⟩]
    (∃ next, (indexPaths fs [⟨"notes.txt"⟩, ⟨"a.py"⟩]).run ix = (.ok ⟨1, 0, skipped⟩, next) ∧
        (indexPaths fs [⟨"notes.txt"⟩, ⟨"a.py"⟩]).run next = (.ok ⟨0, 1, skipped⟩, next)) ∧
      ∃ failure, (indexPaths fs [⟨"a.py"⟩, ⟨"b.py"⟩]).run ix = (.error failure, ix) := by
  intro fs ix skipped
  constructor
  · obtain ⟨next, report, hrun, hreport⟩ : ∃ next report,
        ix.run fs [⟨"notes.txt"⟩, ⟨"a.py"⟩] = .ok (next, report) ∧ report = ⟨1, 0, skipped⟩ :=
      exists_run_of_toOption (g := Prod.snd) (by decide +kernel)
    have hfirst : (indexPaths fs [⟨"notes.txt"⟩, ⟨"a.py"⟩]).run ix = (.ok ⟨1, 0, skipped⟩, next) := by
      rw [run_indexPaths, hrun, hreport]
    obtain ⟨files, -, -, -, hagain⟩ :=
      (indexPaths_accounts ix fs [⟨"notes.txt"⟩, ⟨"a.py"⟩]).1 _ _ hfirst
    exact ⟨next, hfirst, hagain⟩
  -- The second target is missing, so discovery fails although the first one is there.
  · have hmissing : fs.resolve? ((⟨"/w"⟩ : Path).join ⟨"b.py"⟩) = none := by decide +kernel
    obtain ⟨failure, next, hfailure⟩ := (indexPaths_accounts ix fs [⟨"a.py"⟩, ⟨"b.py"⟩]).2.2.2 (by
      rintro ⟨-, -, htargets⟩
      have hfound := htargets ⟨"b.py"⟩ (by decide)
      rw [show fs.resolve? (ix.workspace.join ⟨"b.py"⟩) = none from hmissing] at hfound
      cases hfound)
    obtain rfl := (indexPaths_accounts ix fs [⟨"a.py"⟩, ⟨"b.py"⟩]).2.1 _ _ hfailure
    exact ⟨failure, hfailure⟩

end NameAtlas.Indexer
