import NameAtlas.Command
import NameAtlas.Proofs.FileSystem.Tree
import NameAtlas.Proofs.Indexer.Run
import NameAtlas.Proofs.RelativeImport

/-!
# What annotating calls a file

Annotating takes the path of a file below the workspace as it is written, with slashes for
backslashes; an index takes the names in it. Both end in the name of the file, so they agree on
whether it is the file of a package (`isPackagePath_annotatedPath`). They agree on its module just if
the path is written plainly (`moduleOfPath_annotatedPath_iff`): dots that stay between the names become
segments of the module, and a backslash parts a name in two. So both commands find the same facts, but
for the path, just if it is, or if the module is given (`runAnnotate_agrees`).
-/

namespace NameAtlas

open Python

variable {cs word : List Char} {front : List String} {last stem suffix : String}
  {workspace file : Path}

/-! ### Slashes for backslashes -/

/-- A text with slashes for backslashes. -/
def withSlashes (cs : List Char) : List Char := cs.map fun c => if c = '\\' then '/' else c

/-- The path of an annotated file is the relative one with its backslashes turned. -/
theorem annotatedPath_eq (workspace file : Path) :
    annotatedPath workspace file =
      String.ofList (withSlashes (file.relativeTo workspace).text.toList) := rfl

/-- A text without backslashes is left as it is. -/
theorem withSlashes_of_not_mem (h : '\\' ∉ cs) : withSlashes cs = cs := by
  rw [withSlashes]
  refine (List.map_congr_left fun c hc => if_neg ?_).trans (List.map_id' cs)
  rintro rfl
  exact h hc

/-- No backslash is left. -/
theorem not_mem_withSlashes (cs : List Char) : '\\' ∉ withSlashes cs := by
  rw [withSlashes, List.mem_map]
  rintro ⟨c, -, hc⟩
  split at hc
  · cases hc
  · next hne => exact hne hc

/-- Where a text ends in a word without slashes, it does so however its slashes are written. -/
theorem suffix_withSlashes_iff (hslash : '/' ∉ word) (hback : '\\' ∉ word) :
    word <:+ withSlashes cs ↔ word <:+ cs := by
  rw [withSlashes, List.suffix_map_iff]
  constructor
  · rintro ⟨ds, hds, rfl⟩
    have hsame : '\\' ∉ ds := fun hmem => hslash (List.mem_map.2 ⟨'\\', hmem, rfl⟩)
    rwa [← withSlashes, withSlashes_of_not_mem hsame]
  · exact fun h => ⟨word, h, (withSlashes_of_not_mem hback).symm⟩

/-! ### Packages -/

/-- A package is known by the end of its path. -/
theorem isPackagePath_iff_suffix {path : String} :
    isPackagePath path ↔
      "__init__.py".toList <:+ path.toList ∨ "__init__.pyi".toList <:+ path.toList := by
  rw [isPackagePath, Bool.or_eq_true, List.isSuffixOf_iff_suffix, List.isSuffixOf_iff_suffix]

/-- The name of a file tells whether it is the file of a package. -/
theorem isPackagePath_filePath : isPackagePath (filePath front last) = isPackagePath last := by
  rw [Bool.eq_iff_iff, isPackagePath_iff_suffix, isPackagePath_iff_suffix,
    suffix_filePath_iff (by decide), suffix_filePath_iff (by decide)]

/-- Turning backslashes does not make or break a package, as its name holds none. -/
theorem isPackagePath_withSlashes (path : String) :
    isPackagePath (String.ofList (withSlashes path.toList)) = isPackagePath path := by
  have htext : (String.ofList (withSlashes path.toList)).toList = withSlashes path.toList :=
    String.toList_ofList
  rw [Bool.eq_iff_iff, isPackagePath_iff_suffix, isPackagePath_iff_suffix, htext,
    suffix_withSlashes_iff (by decide) (by decide), suffix_withSlashes_iff (by decide) (by decide)]

/-- The last name alone decides if a path is a Python source. -/
theorem isPythonPath_filePath : isPythonPath (filePath front last) = isPythonPath last := by
  rw [Bool.eq_iff_iff, isPythonPath, isPythonPath, Bool.or_eq_true, Bool.or_eq_true,
    List.isSuffixOf_iff_suffix, List.isSuffixOf_iff_suffix, List.isSuffixOf_iff_suffix,
    List.isSuffixOf_iff_suffix, suffix_filePath_iff (by decide), suffix_filePath_iff (by decide)]

/-- The suffixes of sources hold no backslash. -/
theorem backslash_not_mem_suffix (h : suffix ∈ sourceSuffixes) : '\\' ∉ suffix.toList := by
  rcases List.mem_cons.1 h with rfl | h
  · decide
  · obtain rfl := List.mem_singleton.1 h
    decide

/-- The name of a Python source is a stem and a suffix. -/
theorem exists_stem (h : isPythonPath last) :
    ∃ stem, ∃ suffix ∈ sourceSuffixes, last = stem ++ suffix := by
  rw [isPythonPath, Bool.or_eq_true, List.isSuffixOf_iff_suffix, List.isSuffixOf_iff_suffix] at h
  rcases h with ⟨cs, hcs⟩ | ⟨cs, hcs⟩
  · exact ⟨String.ofList cs, ".py", by decide, String.toList_inj.1 (by simp [← hcs])⟩
  · exact ⟨String.ofList cs, ".pyi", by decide, String.toList_inj.1 (by simp [← hcs])⟩

/-! ### Modules -/

/-- The segments of a path are the pieces that are not empty. -/
theorem pathSegments_eq_filter (path : String) :
    pathSegments path.toList = (⟨path⟩ : Path).pieces.filter (· ≠ "") := by
  rw [pathSegments, Path.pieces]
  induction Text.splitAt '/' path.toList with
  | nil => rfl
  | cons part parts ih =>
    rw [List.map_cons, List.filter_cons, ← ih]
    by_cases hpart : part = []
    · simp [hpart]
    · have hne : String.ofList part ≠ "" := fun h => hpart (by simpa using congrArg String.toList h)
      simp [hpart, hne]

/-- A character of a segment stands in the path. -/
theorem mem_of_mem_pathSegments {segment : String} {c : Char} (h : segment ∈ pathSegments cs)
    (hc : c ∈ segment.toList) (hne : c ≠ '/') : c ∈ cs := by
  obtain ⟨part, hpart, hsegment⟩ := List.mem_filterMap.1 h
  split at hsegment
  · cases hsegment
  · obtain rfl := Option.some.inj hsegment
    rw [String.toList_ofList] at hc
    exact (Text.mem_iff_mem_splitAt hne cs).2 ⟨part, hpart, hc⟩

/-- Of the segments of a path a module has all of some kind, unless those of packages or that of the
module without a name are of this kind. -/
theorem countP_moduleOfPath {P : String → Bool} (hpackage : P packageStem = false)
    (hfallback : P fallbackModule = false) (path : String) :
    (moduleOfPath path).segments.countP P =
      (pathSegments (stripSourceSuffix path.toList)).countP P := by
  rw [moduleOfPath]
  generalize pathSegments (stripSourceSuffix path.toList) = segments
  -- An `__init__` at the end is dropped, and it does not count.
  have hdrop : (if segments.getLast? = some "__init__" then segments.dropLast
      else segments).countP P = segments.countP P := by
    split
    · next hlast =>
      obtain ⟨front, rfl⟩ := List.getLast?_eq_some_iff.1 hlast
      rw [List.dropLast_concat, List.countP_append, List.countP_singleton,
        show P "__init__" = false from hpackage]
      rfl
    · rfl
  generalize (if segments.getLast? = some "__init__" then segments.dropLast
    else segments) = short at hdrop ⊢
  by_cases hnil : short = []
  · rw [if_pos hnil, ← hdrop, hnil, Fqn.root, List.countP_singleton, hfallback]
    rfl
  · rw [if_neg hnil, hdrop]

/-- True for a path without backslashes and without dots that stand for a directory. -/
structure Path.IsPlainlyWritten (p : Path) : Prop where
  /-- It has no backslash. -/
  backslash : '\\' ∉ p.text.toList
  /-- No piece of it is a dot or two. -/
  dots : ∀ piece ∈ p.pieces, piece ≠ "." ∧ piece ≠ ".."

section Pieces

variable (hpieces : (file.relativeTo workspace).pieces = front ++ [last]) (hlast : IsEntryName last)

include hpieces

/-- The relative path is written as the names in front and the last one. -/
theorem text_relativeTo : (file.relativeTo workspace).text = filePath front last := by
  rw [← Path.intercalate_pieces, hpieces, filePath]

/-- The names in front hold no slash. -/
theorem slash_not_mem_front {piece : String} (h : piece ∈ front) : '/' ∉ piece.toList :=
  Path.slash_not_mem_of_mem_pieces (hpieces ▸ List.mem_append_left [last] h)

include hlast

/-- In the workspace, the void and the upward pieces are left out. -/
theorem inWorkspace_eq_filePath :
    file.inWorkspace workspace = filePath (front.filter Path.isName) last := by
  rw [Path.inWorkspace, Path.names_eq_filter, hpieces, List.filter_append, filePath,
    List.filter_eq_self.2 (List.forall_mem_singleton.2 (Path.isName_of_isEntryName hlast))]

/-- Both paths agree on whether the file is that of a package. -/
theorem isPackagePath_annotatedPath :
    isPackagePath (annotatedPath workspace file) = isPackagePath (file.inWorkspace workspace) := by
  rw [annotatedPath_eq, isPackagePath_withSlashes, text_relativeTo hpieces, isPackagePath_filePath,
    inWorkspace_eq_filePath hpieces hlast, isPackagePath_filePath]

section Stem

variable (hsuffix : suffix ∈ sourceSuffixes) (hstem : last = stem ++ suffix)

include hsuffix hstem

/-- The segments of the path in the workspace are the names in front and the stem, if it is not
empty. -/
theorem pathSegments_inWorkspace :
    pathSegments (stripSourceSuffix (file.inWorkspace workspace).toList) =
      front.filter Path.isName ++ if stem = "" then [] else [stem] := by
  have hslash : '/' ∉ stem.toList := fun hmem => hlast.1.2 (by simp [hstem, hmem])
  rw [inWorkspace_eq_filePath hpieces hlast, hstem]
  refine pathSegments_source (fun d hd => ?_) hslash hsuffix
  obtain ⟨hd, hname⟩ := List.mem_filter.1 hd
  refine ⟨fun hempty => ?_, slash_not_mem_front hpieces hd⟩
  subst hempty
  exact absurd hname (by decide)

omit hlast in
/-- The suffix of the annotated path may be taken off before the backslashes are turned. -/
theorem pathSegments_annotatedPath :
    pathSegments (stripSourceSuffix (annotatedPath workspace file).toList) =
      pathSegments (withSlashes (filePath front stem).toList) := by
  have hplain := withSlashes_of_not_mem (backslash_not_mem_suffix hsuffix)
  rw [annotatedPath_eq, String.toList_ofList, text_relativeTo hpieces, hstem, filePath_append,
    String.toList_append, withSlashes, List.map_append, ← withSlashes, ← withSlashes, hplain,
    stripSourceSuffix_append _ hsuffix]

omit hsuffix in
/-- Without backslashes, the path as it is written has all pieces as segments that are not empty. -/
theorem pathSegments_of_backslash_not_mem (h : '\\' ∉ (file.relativeTo workspace).text.toList) :
    pathSegments (withSlashes (filePath front stem).toList) =
      front.filter (· ≠ "") ++ if stem = "" then [] else [stem] := by
  have hslash : ∀ piece ∈ front ++ [stem], '/' ∉ piece.toList := by
    rw [List.forall_mem_append, List.forall_mem_singleton]
    exact ⟨fun _ => slash_not_mem_front hpieces, fun hmem => hlast.1.2 (by simp [hstem, hmem])⟩
  have hback : '\\' ∉ (filePath front stem).toList := by
    rw [text_relativeTo hpieces, hstem, filePath_append, String.toList_append] at h
    exact fun hmem => h (List.mem_append_left _ hmem)
  rw [withSlashes_of_not_mem hback, pathSegments_eq_filter, filePath,
    Path.pieces_intercalate (by simp) hslash, List.filter_append]
  by_cases hempty : stem = "" <;> simp [hempty]

/-- A backslash in the path is in the name of a directory or in the stem. -/
theorem exists_backslash_mem (h : '\\' ∈ (file.relativeTo workspace).text.toList) :
    ∃ segment ∈ front.filter Path.isName ++ (if stem = "" then [] else [stem]),
      '\\' ∈ segment.toList := by
  obtain ⟨piece, hpiece, hc⟩ := (Path.mem_text_iff (by decide)).1 h
  rw [hpieces, List.mem_append, List.mem_singleton] at hpiece
  -- The backslash stands in a piece in front or in the last one, and there in the stem.
  rcases hpiece with hpiece | rfl
  · have hname : Path.isName piece := by
      have hne : ∀ s : String, '\\' ∉ s.toList → piece ≠ s := fun s hs h => hs (h ▸ hc)
      simp [Path.isName, Path.isVoid, hne "" (by decide), hne "." (by decide), hne ".." (by decide)]
    exact ⟨piece, List.mem_append_left _ (List.mem_filter.2 ⟨hpiece, hname⟩), hc⟩
  · rw [hstem, String.toList_append, List.mem_append] at hc
    have hc := hc.resolve_right (backslash_not_mem_suffix hsuffix)
    have hne : stem ≠ "" := by
      rintro rfl
      cases hc
    exact ⟨stem, List.mem_append_right _ (by rw [if_neg hne]; exact List.mem_singleton_self stem), hc⟩

section Same

variable (hsame : moduleOfPath (annotatedPath workspace file) =
  moduleOfPath (file.inWorkspace workspace))

include hsame

/-- Where both paths give one module, they have as many segments of a kind. -/
theorem countP_pathSegments {P : String → Bool} (hpackage : P packageStem = false)
    (hfallback : P fallbackModule = false) :
    (pathSegments (withSlashes (filePath front stem).toList)).countP P =
      (front.filter Path.isName ++ if stem = "" then [] else [stem]).countP P := by
  rw [← pathSegments_annotatedPath hpieces hsuffix hstem,
    ← pathSegments_inWorkspace hpieces hlast hsuffix hstem,
    ← countP_moduleOfPath hpackage hfallback, ← countP_moduleOfPath hpackage hfallback, hsame]

/-- A name with a backslash is a segment of the one module, and the other has no backslash. -/
theorem backslash_not_mem_of_moduleOfPath_eq : '\\' ∉ (file.relativeTo workspace).text.toList := by
  intro hmem
  let P (segment : String) : Bool := decide ('\\' ∈ segment.toList)
  have hnone : (pathSegments (withSlashes (filePath front stem).toList)).countP P = 0 := by
    refine List.countP_eq_zero.2 fun segment hsegment hP => ?_
    have hc := mem_of_mem_pathSegments hsegment (of_decide_eq_true hP) (by decide)
    exact not_mem_withSlashes _ hc
  obtain ⟨segment, hsegment, hc⟩ :=
    exists_backslash_mem hpieces hlast hsuffix hstem hmem
  rw [countP_pathSegments hpieces hlast hsuffix hstem hsame (P := P) (by decide) (by decide)] at hnone
  exact List.countP_eq_zero.1 hnone segment hsegment (decide_eq_true hc)

/-- The one module has no dots among its directories, and the stem is the same in both. -/
theorem dots_not_mem_of_moduleOfPath_eq :
    ∀ piece ∈ (file.relativeTo workspace).pieces, piece ≠ "." ∧ piece ≠ ".." := by
  -- Segments that are dots are counted on both sides: the path in the workspace has none.
  let P (segment : String) : Bool := decide (segment = "." ∨ segment = "..")
  have hback := backslash_not_mem_of_moduleOfPath_eq hpieces hlast hsuffix hstem hsame
  have hdots := countP_pathSegments hpieces hlast hsuffix hstem hsame (P := P) (by decide) (by decide)
  rw [pathSegments_of_backslash_not_mem hpieces hlast hstem hback, List.countP_append,
    List.countP_append, Nat.add_right_cancel_iff] at hdots
  have hnone : (front.filter Path.isName).countP P = 0 := by
    refine List.countP_eq_zero.2 fun segment hsegment hP => ?_
    have hname := (List.mem_filter.1 hsegment).2
    rcases of_decide_eq_true hP with rfl | rfl
    · exact absurd hname (by decide)
    · exact absurd hname (by decide)
  rw [hnone, List.countP_eq_zero] at hdots
  intro piece hpiece
  rw [hpieces, List.mem_append, List.mem_singleton] at hpiece
  rcases hpiece with hpiece | rfl
  · by_cases hempty : piece = ""
    · rw [hempty]
      decide
    · have hP := hdots piece (List.mem_filter.2 ⟨hpiece, decide_eq_true hempty⟩)
      simpa [P] using hP
  · exact hlast.2

end Same

end Stem

/-- Both paths give the same module just if the one that is taken as it is written is so plainly. -/
theorem moduleOfPath_annotatedPath_iff (hpython : isPythonPath last) :
    moduleOfPath (annotatedPath workspace file) = moduleOfPath (file.inWorkspace workspace) ↔
      (file.relativeTo workspace).IsPlainlyWritten := by
  obtain ⟨stem, suffix, hsuffix, hstem⟩ := exists_stem hpython
  constructor
  · intro hsame
    exact ⟨backslash_not_mem_of_moduleOfPath_eq hpieces hlast hsuffix hstem hsame,
      dots_not_mem_of_moduleOfPath_eq hpieces hlast hsuffix hstem hsame⟩
  · intro hplain
    -- Written plainly, a path has no pieces but empty ones that are no names.
    have hnames : front.filter (· ≠ "") = front.filter Path.isName := by
      refine List.filter_congr fun piece hpiece => ?_
      obtain ⟨hdot, hparent⟩ := hplain.dots piece (hpieces ▸ List.mem_append_left [last] hpiece)
      simp [Path.isName, Path.isVoid, hdot, hparent]
    have hsegments : pathSegments (stripSourceSuffix (annotatedPath workspace file).toList) =
        pathSegments (stripSourceSuffix (file.inWorkspace workspace).toList) := by
      rw [pathSegments_annotatedPath hpieces hsuffix hstem,
        pathSegments_inWorkspace hpieces hlast hsuffix hstem,
        pathSegments_of_backslash_not_mem hpieces hlast hstem hplain.backslash, hnames]
    simp only [moduleOfPath, hsegments]

end Pieces

/-! ### The two commands -/

/-- The path of a file matters to its analysis only by whether it is that of a package. -/
theorem analyzeModule_path {path other : String} (h : isPackagePath other = isPackagePath path)
    (module : Fqn) (m : Module) (passes : Nat) :
    analyzeModule other module m passes =
      { analyzeModule path module m passes with path := other } := by
  simp only [analyzeModule, finalWalk, factsOf, h]

/-- A file with a tree is analyzed, and what is found depends on its path only by whether it is that of
a package. -/
theorem exists_analyze (passes : Nat) (text : String) (tree : Source.Node) :
    ∃ factsOf : String → Fqn → FileFacts,
      (∀ path module, analyze ⟨passes, false⟩ ⟨path, module, text, some tree⟩ =
        .ok (factsOf path module)) ∧
      (∀ path module, (factsOf path module).path = path ∧ (factsOf path module).module = module) ∧
      ∀ path other module, isPackagePath other = isPackagePath path →
        factsOf other module = { factsOf path module with path := other } := by
  refine ⟨fun path module => analyzeModule path module (.ofTree (.ofString text) tree) passes,
    fun path module => ?_, fun path module => ⟨rfl, rfl⟩,
    fun path other module h => analyzeModule_path h module _ passes⟩
  simp [analyze]

variable {fs : FileSystem} {o : RunOptions} {config : Config} {globs : List Glob}
  {content : FileContent} {text : String} {tree : Source.Node}

/-- A file that is the only target is all that is discovered. -/
theorem exists_discover_file (hdirectory : fs.isDirectory workspace)
    (hglobs : excludeGlobs config.index.exclude = .ok globs)
    (hcontent : fs.file? (workspace.join file) = some content) :
    ∃ route, fs.discover workspace [file] config.index.exclude isPythonPath =
      .ok [⟨(workspace.join file).inWorkspace workspace, route, content⟩] := by
  obtain ⟨route, hroute, hfile⟩ := FileSystem.exists_of_file? hcontent
  refine ⟨route, FileSystem.discover_eq_ok_iff.2
    ⟨hdirectory, globs, hglobs, [[_]], .cons ?_ .nil, rfl⟩⟩
  rw [FileSystem.target, hroute]
  dsimp only
  rw [hfile]

/-- The path of a file ends in its name below the workspace as well. -/
theorem exists_pieces_of_file (hdirectory : fs.isDirectory workspace)
    (hcontent : fs.file? (workspace.join file) = some content) :
    ∃ front last, ((workspace.join file).relativeTo workspace).pieces = front ++ [last] ∧
      IsEntryName last ∧ isPythonPath (workspace.join file).text = isPythonPath last := by
  obtain ⟨front, last, hpieces, hlast⟩ := FileSystem.exists_pieces_of_file? hcontent
  -- The file is not the workspace, which is a directory.
  have hne : (workspace.join file).components ≠ workspace.components := by
    intro heq
    obtain ⟨route, hroute, hfile⟩ := FileSystem.exists_of_file? hcontent
    obtain ⟨root, es, hroot, hentry⟩ := FileSystem.exists_of_isDirectory hdirectory
    rw [FileSystem.resolve?_eq hroute, heq, ← FileSystem.resolve?_eq hroot, hentry] at hfile
    cases hfile
  obtain ⟨below, hbelow⟩ := Path.exists_pieces_relativeTo hpieces hlast hne
  refine ⟨below, last, hbelow, hlast, ?_⟩
  rw [← Path.intercalate_pieces, hpieces]
  exact isPythonPath_filePath

/-- A file with the ending of a source keeps it when it is joined to the workspace. -/
theorem isPythonPath_join (h : isPythonPath file.text) : isPythonPath (workspace.join file).text := by
  -- Joining only adds text in front.
  have hsuffix : file.text.toList <:+ (workspace.join file).text.toList := by
    rw [Path.join]
    split
    · exact List.suffix_rfl
    · split
      · rw [String.toList_append]
        exact List.suffix_append _ _
      · rw [String.toList_append]
        exact List.suffix_append _ _
  rw [isPythonPath, Bool.or_eq_true, List.isSuffixOf_iff_suffix, List.isSuffixOf_iff_suffix] at h ⊢
  exact h.imp (·.trans hsuffix) (·.trans hsuffix)

/-- A run that looks at one file and analyzes it stores its facts and reports it. -/
theorem run_singleton {ix : Indexer} {targets : List Path} {f : Discovered} {facts : FileFacts}
    {hash : String}
    (hdiscover : fs.discover ix.workspace targets ix.config.index.exclude isPythonPath = .ok [f])
    (houtcome : ix.outcome f = .analyzed facts hash) :
    ix.run fs targets = .ok ({ ix with store := ix.store.upsert facts hash }, ⟨1, 0, []⟩) := by
  rw [Indexer.run, hdiscover]
  simp only [List.map_cons, List.map_nil, houtcome]
  rfl

/-- The index of a file is that of its facts. -/
theorem runIndex_file {facts : FileFacts} (hconfig : o.loadConfig fs (o.workspaceIn fs) = .ok config)
    (hdirectory : fs.isDirectory (o.workspaceIn fs))
    (hglobs : excludeGlobs config.index.exclude = .ok globs)
    (hcontent : fs.file? ((o.workspaceIn fs).join file) = some content)
    (htext : content.text? = some text) (hsize : content.size ≤ config.index.maxFileSize)
    {path : String} (hpath : ((o.workspaceIn fs).join file).inWorkspace (o.workspaceIn fs) = path)
    (hpython : isPythonPath path)
    (hfacts : analyze ⟨config.analysis.maxPasses, false⟩
      ⟨path, config.moduleOf path, text, content.tree⟩ = .ok facts) :
    runIndex fs o [file] =
      .ok ⟨.ofIndex (Store.empty.upsert facts (Sha256.digest content.bytes.toList)).index, []⟩ := by
  obtain ⟨route, hdiscover⟩ := exists_discover_file hdirectory hglobs hcontent
  rw [hpath] at hdiscover
  have hreadable : (Indexer.ofWorkspace (o.workspaceIn fs) config false).Readable
      ⟨path, route, content⟩ := ⟨hpython, hsize, by rw [htext]; rfl⟩
  -- The indexer is new, so it does not know the file and analyzes it.
  have houtcome : (Indexer.ofWorkspace (o.workspaceIn fs) config false).outcome
      ⟨path, route, content⟩ = .analyzed facts (Sha256.digest content.bytes.toList) := by
    rw [Indexer.outcome_of_text hreadable htext, if_neg (by rintro ⟨⟩)]
    exact hfacts ▸ rfl
  have hrun : (Indexer.ofWorkspace (o.workspaceIn fs) config false).run fs [file] = _ :=
    run_singleton hdiscover houtcome
  rw [runIndex, buildIndex, hconfig]
  show ((Indexer.ofWorkspace (o.workspaceIn fs) config false).run fs [file] >>= _) >>= _ = _
  rw [hrun]
  rfl

/-- Annotating analyzes the file under its path as it is written. -/
theorem runAnnotate_file {facts : FileFacts}
    (hconfig : o.loadConfig fs (o.workspaceIn fs) = .ok config)
    (hcontent : fs.file? ((o.workspaceIn fs).join file) = some content)
    (htext : content.text? = some text) {path : String}
    (hpath : annotatedPath (o.workspaceIn fs) ((o.workspaceIn fs).join file) = path)
    (hfacts : analyze ⟨config.analysis.maxPasses, false⟩
      ⟨path, config.moduleOf path, text, content.tree⟩ = .ok facts) :
    runAnnotate fs o file = .ok (Annotate.annotate text facts) := by
  rw [runAnnotate, hconfig]
  simp only [bind, Except.bind, hcontent, htext, hpath, hfacts]
  rfl

/-- Annotating a Python source finds the facts of its index, but for the path, just if the module is
given or the path below the workspace is written plainly. Both agree on packages in any case. -/
theorem runAnnotate_agrees (hconfig : o.loadConfig fs (o.workspaceIn fs) = .ok config)
    (hdirectory : fs.isDirectory (o.workspaceIn fs))
    (hglobs : excludeGlobs config.index.exclude = .ok globs)
    (hcontent : fs.file? ((o.workspaceIn fs).join file) = some content)
    (htext : content.text? = some text) (htree : content.tree = some tree)
    (hsize : content.size ≤ config.index.maxFileSize) (hpython : isPythonPath file.text) :
    ∃ facts annotated,
      runIndex fs o [file] =
        .ok ⟨.ofIndex (Store.empty.upsert facts (Sha256.digest content.bytes.toList)).index, []⟩ ∧
      runAnnotate fs o file = .ok (Annotate.annotate text annotated) ∧
      isPackagePath annotated.path = isPackagePath facts.path ∧
      (annotated.module = facts.module → annotated = { facts with path := annotated.path }) ∧
      (annotated.module = facts.module ↔ config.index.rootModule.isSome ∨
        (((o.workspaceIn fs).join file).relativeTo (o.workspaceIn fs)).IsPlainlyWritten) := by
  obtain ⟨front, last, hpieces, hlast, hname⟩ := exists_pieces_of_file hdirectory hcontent
  have hpython : isPythonPath last := hname ▸ isPythonPath_join hpython
  have hindexed :
      isPythonPath (((o.workspaceIn fs).join file).inWorkspace (o.workspaceIn fs)) := by
    rw [inWorkspace_eq_filePath hpieces hlast, isPythonPath_filePath]
    exact hpython
  obtain ⟨factsOf, hfacts, hkept, hpath⟩ := exists_analyze config.analysis.maxPasses text tree
  rw [← htree] at hfacts
  have hpackage := isPackagePath_annotatedPath hpieces hlast
  refine ⟨factsOf _ _, factsOf _ _,
    runIndex_file hconfig hdirectory hglobs hcontent htext hsize rfl hindexed (hfacts _ _),
    runAnnotate_file hconfig hcontent htext rfl (hfacts _ _), ?_⟩
  -- The facts of both commands are those of one analysis, so they differ in path and module only.
  refine ⟨?_, fun hmodule => ?_, ?_⟩
  · rw [(hkept _ _).1, (hkept _ _).1]
    exact hpackage
  · rw [(hkept _ _).2, (hkept _ _).2] at hmodule
    rw [hmodule, (hkept (annotatedPath _ _) _).1]
    exact hpath _ _ _ hpackage
  · rw [(hkept _ _).2, (hkept _ _).2, Config.moduleOf, Config.moduleOf]
    cases config.index.rootModule with
    | some root => simp
    | none =>
      rw [Option.isSome_none, moduleOfPath_annotatedPath_iff hpieces hlast hpython]
      simp

/-- The tree of a class without members. -/
def classTree : Source.Node :=
  wholeNode 0 "module" "" 0 18
    [wholeNode 1 "class_definition" "" 0 17
      [wholeNode 2 "identifier" "name" 6 7 [],
        wholeNode 3 "block" "body" 13 17 [wholeNode 4 "pass_statement" "" 13 17 []]]]

/-- A file that declares a class. -/
def classContent : FileContent := ⟨"class C:\n    pass\n".toUTF8, some classTree⟩

/-- A file system with that file in a package. -/
def classInPackage : FileSystem :=
  ⟨.directory [("w", .directory [("pkg", .directory [("a.py", .file classContent)])])], []⟩

/-- The workspace around the package. -/
def aroundPackage : RunOptions := { workspace := some ⟨"/w"⟩ }

/-- A dot in front and slashes that are doubled do not matter. -/
theorem runAnnotate_agrees_classInPackage :
    ∃ facts annotated,
      runIndex classInPackage aroundPackage [⟨"./pkg//a.py"⟩] =
        .ok ⟨.ofIndex (Store.empty.upsert facts (Sha256.digest classContent.bytes.toList)).index, []⟩ ∧
      runAnnotate classInPackage aroundPackage ⟨"./pkg//a.py"⟩ =
        .ok (Annotate.annotate "class C:\n    pass\n" annotated) ∧
      annotated = { facts with path := annotated.path } := by
  have hconfig : aroundPackage.loadConfig classInPackage (aroundPackage.workspaceIn classInPackage) =
      .ok {} := rfl
  -- The path is plainly written although it is spelled in another way, so the facts agree.
  have hplain : (((aroundPackage.workspaceIn classInPackage).join ⟨"./pkg//a.py"⟩).relativeTo
      (aroundPackage.workspaceIn classInPackage)).IsPlainlyWritten :=
    ⟨by decide +kernel, by decide +kernel⟩
  obtain ⟨facts, annotated, hindex, hannotate, -, hsame, hmodule⟩ :=
    @runAnnotate_agrees ⟨"./pkg//a.py"⟩ classInPackage aroundPackage {} [] classContent
      "class C:\n    pass\n" classTree hconfig (by decide +kernel) rfl rfl (by decide +kernel) rfl
      (by decide +kernel) (by decide +kernel)
  exact ⟨facts, annotated, hindex, hannotate, hsame (hmodule.2 (.inr hplain))⟩

/-- A dot between the names is a segment of its own in the annotations, and not in the index. -/
theorem runAnnotate_of_dot_between :
    runAnnotate classInPackage aroundPackage ⟨"pkg/./a.py"⟩ =
        .ok "class C:\n# s C !pkg::.::a::C\n    pass\n" ∧
      ∃ index report, buildIndex classInPackage aroundPackage [⟨"pkg/./a.py"⟩] = .ok (index, report) ∧
        index.symbols.keys = [⟨["pkg", "a"]⟩, ⟨["pkg", "a", "C"]⟩] := by
  -- Both runs are evaluated; their results hold functions, so a part of each is compared.
  obtain ⟨_, hannotate, rfl⟩ : ∃ text,
      runAnnotate classInPackage aroundPackage ⟨"pkg/./a.py"⟩ = .ok text ∧
        text = "class C:\n# s C !pkg::.::a::C\n    pass\n" :=
    FileSystem.exists_of_toOption (g := id) (by decide +kernel)
  obtain ⟨⟨index, report⟩, hindex, hkeys⟩ : ∃ r,
      buildIndex classInPackage aroundPackage [⟨"pkg/./a.py"⟩] = .ok r ∧
        r.1.symbols.keys = [⟨["pkg", "a"]⟩, ⟨["pkg", "a", "C"]⟩] :=
    FileSystem.exists_of_toOption (by decide +kernel)
  exact ⟨hannotate, index, report, hindex, hkeys⟩

end NameAtlas
