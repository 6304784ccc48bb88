import Mathlib.Data.String.Basic
import NameAtlas.Proofs.Discovery
import NameAtlas.Proofs.FileSystem.Tree

/-!
# What a discovery lists

A walk leaves out what stands in the directories of tools without looking at it, and still finds just
the files that have no such name on the way (`mem_walk_iff`). Leaving out the paths that came before
is done for each target on its own (`firstOfEach_flatten`), so the files come target by target
(`discover_lists`). All of this needs that the targets are written as the workspace is: the path of
an absolute target that is not, is the whole path, and what stands above the workspace counts
(`discover_of_other_spelling`).
-/

namespace NameAtlas.FileSystem

open NameAtlas.Path

/-- A file that some names lead to, under the path of these names. -/
structure IsNamed (fs : FileSystem) (root names : Route) (f : Discovered) : Prop where
  /-- Where the file is. -/
  route : f.route = root ++ names
  /-- The path. -/
  path : f.path = "/".intercalate names
  /-- It is a file, with this content. -/
  file : fs.entryAt? f.route = some (.file f.content)

/-- A file below a workspace that is found there, unless it is asked for. -/
def IsSelected (fs : FileSystem) (root : Route) (isTaken : String → Bool) (f : Discovered) : Prop :=
  ∃ names, fs.IsNamed root names f ∧ isTaken f.path ∧ ∀ name ∈ names, isToolName name = false

/-- What is listed for a target: the file itself, or in the order of their paths the files below a
directory that are selected. -/
inductive Lists (fs : FileSystem) (root : Route) (isTaken : String → Bool) (route : Route) :
    List Discovered → Prop
  | file {f : Discovered} {names : Route} (hnamed : fs.IsNamed root names f)
      (hroute : f.route = route) : Lists fs root isTaken route [f]
  | directory {es : List (String × Entry)} {listing : List Discovered}
      (hentry : fs.entryAt? route = some (.directory es))
      (hmem : ∀ f, f ∈ listing ↔ fs.IsSelected root isTaken f ∧ route <+: f.route)
      (hsorted : listing.Pairwise fun f g => f.path < g.path) : Lists fs root isTaken route listing

/-- Some files with those of a listing behind them that have other paths. -/
def addListing (listed listing : List Discovered) : List Discovered :=
  listed ++ listing.filter fun f => f.path ∉ listed.map Discovered.path

/-- True where a walk looks behind some names below its directory. -/
def opens (workspace directory : Path) (below : Route) : Bool :=
  !((directory.descend below).relativeTo workspace).names.any isToolName

variable {fs : FileSystem} {workspace p : Path} {root route names : Route}
  {isTaken accepts : String → Bool} {f g : Discovered} {files listing : List Discovered}
  {listings : List (List Discovered)} {exclude : List String} {globs : List Glob}

/-! ### The files below a directory -/

/-- The path of a file tells which one it is. -/
theorem IsNamed.eq_of_path (hfs : fs.IsTree) {more : Route} (hf : fs.IsNamed root names f)
    (hg : fs.IsNamed root more g) (h : f.path = g.path) : f = g := by
  obtain ⟨fpath, froute, fcontent⟩ := f
  obtain ⟨gpath, groute, gcontent⟩ := g
  obtain ⟨rfl, rfl, hfile⟩ := hf
  obtain ⟨rfl, rfl, hfile'⟩ := hg
  obtain rfl := intercalate_names_inj (hfs.isEntryName hfile) (hfs.isEntryName hfile') h
  rw [hfile] at hfile'
  obtain ⟨rfl⟩ := hfile'
  rfl

/-- What a walk finds behind its directory. -/
theorem mem_walk_iff_exists :
    f ∈ fs.walk workspace p route isTaken ↔
      (∃ e below, fs.entryAt? route = some e ∧ opens workspace p [] ∧
        (below, f.content) ∈ e.files (opens workspace p) ∧
        f = ⟨(p.descend below).inWorkspace workspace, route ++ below, f.content⟩) ∧
      isTaken f.path := by
  rw [walk, List.mem_mergeSort, List.mem_filter, List.mem_map]
  refine and_congr_left fun _ => ⟨?_, ?_⟩
  -- From a member of the sorted list back to the entry that it was made of.
  · rintro ⟨⟨below, content⟩, hfound, rfl⟩
    split at hfound
    · next e hentry =>
      split at hfound
      · next hfirst => exact ⟨e, below, hentry, hfirst, hfound, rfl⟩
      · cases hfound
    · cases hfound
  · rintro ⟨e, below, hentry, hfirst, hfound, hf⟩
    refine ⟨(below, f.content), ?_, hf.symm⟩
    rw [opens] at hfirst
    rw [hentry]
    dsimp only
    rw [if_pos hfirst]
    exact hfound

section Walk

variable (hfs : fs.IsTree) (hp : p.text ≠ "")
  (hcomponents : p.components = workspace.components ++ names.map .name)

include hp hcomponents

/-- The names behind the workspace are those on the way to the directory and those on the way on
from it. -/
theorem names_descend {below : Route} (hbelow : ∀ name ∈ below, IsEntryName name) :
    ((p.descend below).relativeTo workspace).names = names ++ below := by
  refine names_of_components (components_relativeTo ?_)
  rw [components_descend hp hbelow, hcomponents, List.append_assoc, List.map_append]

/-- A walk looks behind names that are not those of tools. -/
theorem opens_iff {below : Route} (hbelow : ∀ name ∈ below, IsEntryName name) :
    opens workspace p below ↔ ∀ name ∈ names ++ below, isToolName name = false := by
  rw [opens, names_descend hp hcomponents hbelow, Bool.not_eq_true', List.any_eq_false]
  simp only [Bool.not_eq_true]

include hfs

/-- A walk finds the selected files behind the names of its directory. -/
theorem mem_walk_iff :
    f ∈ fs.walk workspace p (root ++ names) isTaken ↔
      fs.IsSelected root isTaken f ∧ root ++ names <+: f.route := by
  rw [mem_walk_iff_exists]
  constructor
  · rintro ⟨⟨e, below, hentry, hfirst, hfound, hf⟩, htaken⟩
    obtain ⟨hfind, hfront⟩ := (Entry.mem_files_iff (hfs.entryAt? hentry)).1 hfound
    have hfile : fs.entryAt? (root ++ names ++ below) = some (.file f.content) := by
      rw [entryAt?_append, hentry, Option.bind_some, hfind]
    have hbelow := hfs.isEntryName hfile
    have hpath : (p.descend below).inWorkspace workspace = "/".intercalate (names ++ below) :=
      congrArg _ (names_descend hp hcomponents hbelow)
    have hopen : opens workspace p below := by
      by_cases hnil : below = []
      · exact hnil ▸ hfirst
      · exact hfront below (List.prefix_refl below) hnil
    have hroute : f.route = root ++ names ++ below := congrArg Discovered.route hf
    refine ⟨⟨names ++ below, ⟨?_, ?_, ?_⟩, htaken, (opens_iff hp hcomponents hbelow).1 hopen⟩, ?_⟩
    · rw [hroute, List.append_assoc]
    · exact (congrArg Discovered.path hf).trans hpath
    · rw [hroute, hfile]
    · rw [hroute]
      exact List.prefix_append _ _
  · rintro ⟨⟨all, ⟨hroute, hpath, hfile⟩, htaken, htool⟩, below, hbelow⟩
    obtain rfl : names ++ below = all :=
      List.append_cancel_left ((List.append_assoc ..).symm.trans (hbelow.trans hroute))
    rw [← hbelow] at hfile
    have hnames := hfs.isEntryName hfile
    -- What is in front of names without tools is not one either.
    have hkept : ∀ front, front <+: below → opens workspace p front := by
      rintro front ⟨behind, rfl⟩
      refine (opens_iff hp hcomponents fun name h => hnames name (List.mem_append_left _ h)).2 ?_
      intro name hname
      refine htool name ?_
      rw [← List.append_assoc]
      exact List.mem_append_left behind hname
    obtain ⟨e, hentry, hfind⟩ := Option.bind_eq_some_iff.1 ((entryAt?_append ..).symm.trans hfile)
    have hfound : (below, f.content) ∈ e.files (opens workspace p) :=
      (Entry.mem_files_iff (hfs.entryAt? hentry)).2
        ⟨hfind, fun front hfront _ => hkept front hfront⟩
    have hpath' : (p.descend below).inWorkspace workspace = f.path :=
      (congrArg _ (names_descend hp hcomponents hnames)).trans hpath.symm
    refine ⟨⟨e, below, hentry, hkept [] List.nil_prefix, hfound, ?_⟩, htaken⟩
    rw [hpath', hbelow]

/-- No path comes twice in a walk. -/
theorem nodup_walk :
    ((fs.walk workspace p (root ++ names) isTaken).map Discovered.path).Nodup := by
  refine List.Nodup.map_on (fun f hf g hg hpath => ?_) ?_
  · obtain ⟨⟨_, hf, -⟩, -⟩ := (mem_walk_iff hfs hp hcomponents).1 hf
    obtain ⟨⟨_, hg, -⟩, -⟩ := (mem_walk_iff hfs hp hcomponents).1 hg
    exact hf.eq_of_path hfs hg hpath
  -- The names that lead to the files are different ones.
  · rw [walk, (List.mergeSort_perm _ _).nodup_iff]
    refine List.Nodup.filter _ (List.Nodup.of_map Discovered.route ?_)
    rw [List.map_map]
    split
    · next e hentry =>
      split
      · have hnodup := Entry.nodup_files (opens workspace p) e (hfs.entryAt? hentry)
        exact List.pairwise_map.2 ((List.pairwise_map.1 hnodup).imp
          fun hne heq => hne (List.append_cancel_left heq))
      · exact List.nodup_nil
    · exact List.nodup_nil

/-- A walk lists paths in strictly increasing order. -/
theorem strictSorted_walk :
    (fs.walk workspace p (root ++ names) isTaken).Pairwise fun f g => f.path < g.path := by
  have hne : (fs.walk workspace p (root ++ names) isTaken).Pairwise fun f g => f.path ≠ g.path :=
    List.pairwise_map.1 (nodup_walk hfs hp hcomponents)
  exact ((sorted_walk p _ isTaken).and hne).imp fun h => lt_of_le_of_ne h.1 h.2

end Walk

/-- What a discovery finds of a target is what is listed for it. -/
theorem exists_target_lists (isTaken : String → Bool) (hfs : fs.IsTree)
    (hroot : fs.resolve? workspace = some root) (hroute : fs.resolve? p = some route)
    (hbehind : p.IsBehind workspace) :
    ∃ listing, fs.target workspace isTaken p = .ok listing ∧
      fs.Lists root isTaken route listing := by
  obtain ⟨names, hcomponents⟩ := hbehind
  have hp := text_ne_of_resolve? hroute
  obtain rfl := resolve?_eq_append hroot hroute hcomponents
  obtain ⟨e, hentry⟩ := Option.isSome_iff_exists.1 (isSome_entryAt?_of_resolve? hroute)
  rw [target, hroute]
  dsimp only
  rw [hentry]
  -- The entry decides between a file, which is listed alone, and a directory, which is walked.
  cases e with
  | file content =>
    have hpath : p.inWorkspace workspace = "/".intercalate (names ++ []) :=
      congrArg _ (names_descend hp hcomponents (List.forall_mem_nil _))
    rw [List.append_nil] at hpath
    exact ⟨_, rfl, .file ⟨rfl, hpath, hentry⟩ rfl⟩
  | directory es =>
    exact ⟨_, rfl, .directory hentry (fun f => mem_walk_iff hfs hp hcomponents)
      (strictSorted_walk hfs hp hcomponents)⟩

/-- Whatever a listing holds is named by its route behind the root. -/
theorem Lists.isNamed (h : fs.Lists root isTaken route listing) (hf : f ∈ listing) :
    ∃ names, fs.IsNamed root names f := by
  cases h with
  | file hnamed hroute => exact ⟨_, List.mem_singleton.1 hf ▸ hnamed⟩
  | directory hentry hmem hsorted =>
    obtain ⟨⟨names, hnamed, -⟩, -⟩ := (hmem f).1 hf
    exact ⟨names, hnamed⟩

/-- No path occurs twice in a listing. -/
theorem Lists.nodup (h : fs.Lists root isTaken route listing) :
    (listing.map Discovered.path).Nodup := by
  cases h with
  | file hnamed hroute => exact List.nodup_singleton _
  | directory hentry hmem hsorted => exact List.pairwise_map.2 (hsorted.imp ne_of_lt)

/-! ### Leaving out the paths that came before -/

/-- Leaving out the files with one path leaves the other paths. -/
theorem mem_paths_others {path : String} (hne : path ≠ f.path) :
    path ∈ (files.filter fun g => (g.path == f.path) = false).map Discovered.path ↔
      path ∈ files.map Discovered.path := by
  simp only [List.mem_map, List.mem_filter]
  refine exists_congr fun g => ⟨fun h => ⟨h.1.1, h.2⟩, fun h => ⟨⟨h.1, ?_⟩, h.2⟩⟩
  simp [h.2, hne]

/-- Every path that was there stays. -/
theorem mem_paths_firstOfEach {path : String} (files : List Discovered) :
    path ∈ (firstOfEach files).map Discovered.path ↔ path ∈ files.map Discovered.path := by
  induction files using firstOfEach_induction with
  | nil => rfl
  | cons f rest ih =>
    rw [firstOfEach_cons, List.map_cons, List.mem_cons, ih, List.map_cons, List.mem_cons]
    by_cases hne : path = f.path
    · simp only [hne, true_or]
    · exact or_congr_right (mem_paths_others hne)

/-- Of an appended list only the files with new paths are added. -/
theorem firstOfEach_append (files more : List Discovered) :
    firstOfEach (files ++ more) =
      firstOfEach files ++ firstOfEach (more.filter fun f => f.path ∉ files.map Discovered.path) := by
  induction files using firstOfEach_induction generalizing more with
  | nil => simp [firstOfEach]
  | cons f rest ih =>
    rw [List.cons_append, firstOfEach_cons, List.filter_append, ih, firstOfEach_cons,
      List.cons_append, List.filter_filter]
    -- A path is new behind all of them if it is neither that of the first nor one of the others.
    have hnew : ∀ g : Discovered,
        (decide (g.path ∉ (rest.filter fun g => (g.path == f.path) = false).map Discovered.path) &&
          decide ((g.path == f.path) = false)) =
            decide (g.path ∉ (f :: rest).map Discovered.path) := by
      intro g
      by_cases hne : g.path = f.path
      · simp [hne]
      · simp only [List.map_cons, List.mem_cons, mem_paths_others hne, hne, beq_false_of_ne hne,
          false_or, decide_true, Bool.and_true]
    rw [List.filter_congr fun g _ => hnew g]

/-- Files with distinct paths all stay. -/
theorem firstOfEach_of_nodup (h : (files.map Discovered.path).Nodup) : firstOfEach files = files := by
  induction files with
  | nil => rfl
  | cons f rest ih =>
    obtain ⟨hnew, hrest⟩ := List.nodup_cons.1 h
    have hall : rest.filter (fun g => (g.path == f.path) = false) = rest := by
      refine List.filter_eq_self.2 fun g hg => ?_
      have hne : g.path ≠ f.path := fun hpath => hnew (hpath ▸ List.mem_map_of_mem hg)
      simpa using hne
    rw [firstOfEach_cons, hall, ih hrest]

/-- The first files of each path are listed target by target. -/
theorem firstOfEach_flatten (h : ∀ l ∈ listings, (l.map Discovered.path).Nodup) :
    firstOfEach listings.flatten = listings.foldl addListing [] := by
  induction listings using List.reverseRecOn with
  | nil => rfl
  | append_singleton earlier last ih =>
    rw [List.forall_mem_append, List.forall_mem_singleton] at h
    have hnodup : ((last.filter fun f => f.path ∉ earlier.flatten.map Discovered.path).map
        Discovered.path).Nodup := h.2.sublist (List.filter_sublist.map Discovered.path)
    rw [List.flatten_append, List.flatten_singleton, firstOfEach_append, firstOfEach_of_nodup hnodup,
      List.foldl_append, List.foldl_cons, List.foldl_nil, ← ih h.1, addListing]
    simp only [mem_paths_firstOfEach]

/-! ### Discoveries -/

/-- What a discovery finds from where it starts, if that is written as the workspace is. -/
theorem exists_listings (hfs : fs.IsTree) (hdirectory : fs.isDirectory workspace)
    (hroot : fs.resolve? workspace = some root) (hglobs : excludeGlobs exclude = .ok globs)
    {targets : List Path}
    (hstarts : ∀ p ∈ starts workspace targets, (fs.resolve? p).isSome ∧ p.IsBehind workspace) :
    ∃ listings,
      List.Forall₂ (fun p listing => ∃ route, fs.resolve? p = some route ∧
        fs.Lists root (takes accepts globs) route listing) (starts workspace targets) listings ∧
      fs.discover workspace targets exclude accepts = .ok (firstOfEach listings.flatten) := by
  -- Every start is listed for itself first; discovery only appends the listings and drops what
  -- comes twice.
  have hall : ∀ p ∈ starts workspace targets, ∃ listing,
      fs.target workspace (takes accepts globs) p = .ok listing ∧
        ∃ route, fs.resolve? p = some route ∧
          fs.Lists root (takes accepts globs) route listing := by
    intro p hp
    obtain ⟨hfound, hbehind⟩ := hstarts p hp
    obtain ⟨route, hroute⟩ := Option.isSome_iff_exists.1 hfound
    obtain ⟨listing, htarget, hlists⟩ :=
      exists_target_lists (takes accepts globs) hfs hroot hroute hbehind
    exact ⟨listing, htarget, route, hroute, hlists⟩
  obtain ⟨listings, hlistings⟩ := exists_forall₂ hall
  refine ⟨listings, hlistings.imp fun _ _ h => h.2, ?_⟩
  exact discover_eq_ok_iff.2
    ⟨hdirectory, globs, hglobs, listings, hlistings.imp fun _ _ h => h.1, rfl⟩

/-- True for a target that is there and is written as the workspace is: without two dots, and if it is
absolute, behind the components of the workspace. -/
structure IsPlain (fs : FileSystem) (workspace target : Path) : Prop where
  /-- There is something at it. -/
  found : (fs.resolve? (workspace.join target)).isSome
  /-- It has no two dots. -/
  down : .parent ∉ target.components
  /-- If it is absolute, it starts as the workspace does. -/
  front : target.isAbsolute → workspace.components <+: target.components

/-- The components of an absolute path without two dots are the names that it leads to. -/
theorem components_of_isAbsolute (habsolute : p.isAbsolute) (hdown : .parent ∉ p.components)
    (hroute : fs.resolve? p = some route) : p.components = .top :: route.map .name := by
  have hcomponents := components_eq_top_cons habsolute
  rw [hcomponents, List.mem_cons, not_or] at hdown
  obtain ⟨names, hnames⟩ := exists_map_name (fun _ => eq_parent_or_name_of_mem_inner) hdown.2
  rw [hcomponents, hnames, resolve?_eq hroute, hcomponents, hnames, List.foldl_cons,
    foldl_follow_names, follow, List.nil_append]

/-- Behind an absolute workspace without two dots, every target inside it that has none is plain. -/
theorem IsPlain.of_isAbsolute (habsolute : workspace.isAbsolute)
    (hdown : .parent ∉ workspace.components) (hroot : fs.resolve? workspace = some root)
    {target : Path} (htarget : .parent ∉ target.components)
    (hroute : fs.resolve? (workspace.join target) = some route) (hinside : root <+: route) :
    fs.IsPlain workspace target where
  found := by rw [hroute]; rfl
  down := htarget
  front h := by
    rw [join_of_isAbsolute h] at hroute
    rw [components_of_isAbsolute habsolute hdown hroot, components_of_isAbsolute h htarget hroute]
    exact List.cons_prefix_cons.2 ⟨rfl, hinside.map _⟩

/-- A discovery without targets finds just the selected files, in the order of their paths. One with
targets finds what is listed for each of them, target by target, but for the paths that came
before. -/
theorem discover_lists (hfs : fs.IsTree) (hdirectory : fs.isDirectory workspace)
    (hroot : fs.resolve? workspace = some root) (hglobs : excludeGlobs exclude = .ok globs) :
    (∃ files, fs.discover workspace [] exclude accepts = .ok files ∧
        (∀ f, f ∈ files ↔ fs.IsSelected root (takes accepts globs) f) ∧
        files.Pairwise fun f g => f.path < g.path) ∧
      ∀ targets ≠ [], (∀ t ∈ targets, fs.IsPlain workspace t) →
        ∃ listings,
          List.Forall₂ (fun t listing => ∃ route, fs.resolve? (workspace.join t) = some route ∧
            fs.Lists root (takes accepts globs) route listing) targets listings ∧
          fs.discover workspace targets exclude accepts = .ok (listings.foldl addListing []) ∧
          ((listings.foldl addListing []).map Discovered.path).Nodup := by
  have hworkspace : (fs.resolve? workspace).isSome ∧ workspace.IsBehind workspace :=
    ⟨by rw [hroot]; rfl, [], (List.append_nil _).symm⟩
  constructor
  · obtain ⟨_, hlistings, hdiscover⟩ := exists_listings hfs hdirectory hroot hglobs
      (forall_mem_starts hworkspace (List.forall_mem_nil _))
    obtain ⟨listing, _, ⟨route, hroute, hlists⟩, hrest, rfl⟩ := List.forall₂_cons_left_iff.1 hlistings
    obtain rfl := List.forall₂_nil_left_iff.1 hrest
    obtain rfl := Option.some.inj (hroot.symm.trans hroute)
    rw [List.flatten_singleton, firstOfEach_of_nodup hlists.nodup] at hdiscover
    cases hlists with
    | file hnamed hfile =>
      -- There is a directory at the workspace, not a file.
      obtain ⟨route, es, hresolve, hentry⟩ := exists_of_isDirectory hdirectory
      rw [hroot, Option.some.injEq, ← hfile] at hresolve
      rw [← hresolve, hnamed.file] at hentry
      cases hentry
    | directory hentry hmem hsorted =>
      refine ⟨listing, hdiscover, fun f => ?_, hsorted⟩
      rw [hmem]
      refine and_iff_left_of_imp ?_
      rintro ⟨names, hnamed, -⟩
      rw [hnamed.route]
      exact List.prefix_append root names
  · intro targets hne hplain
    have htargets : ∀ t ∈ targets,
        (fs.resolve? (workspace.join t)).isSome ∧ (workspace.join t).IsBehind workspace :=
      fun t ht => ⟨(hplain t ht).found,
        isBehind_join (text_ne_of_resolve? hroot) (hplain t ht).down (hplain t ht).front⟩
    obtain ⟨listings, hlistings, hdiscover⟩ := exists_listings hfs hdirectory hroot hglobs
      (forall_mem_starts hworkspace htargets)
    have hnodup : ∀ l ∈ listings, (l.map Discovered.path).Nodup := by
      intro l hl
      obtain ⟨p, -, route, -, hlists⟩ := exists_mem_of_forall₂ hlistings.flip hl
      exact hlists.nodup
    rw [starts_of_ne_nil workspace hne, List.forall₂_map_left_iff] at hlistings
    rw [firstOfEach_flatten hnodup] at hdiscover
    exact ⟨listings, hlistings, hdiscover, nodup_discover hdiscover⟩

/-- A workspace in a directory that has the name of one that tools fill. -/
def workspaceInBuild : FileSystem :=
  let empty : Entry := .file ⟨.empty, none⟩
  let package : Entry := .directory [("dist", .directory [("c.py", empty)]), ("b.py", empty)]
  ⟨.directory [("w", .directory [("build", .directory [("p", package), ("a.py", empty)])])], ["w"]⟩

/-- The directories of the example list their entries once. -/
theorem isTree_workspaceInBuild : workspaceInBuild.IsTree := by
  simp only [workspaceInBuild, IsTree, Entry.IsTree, Entry.AreTrees]
  decide

/-- A file that is asked for comes first, and the directory that it is in adds nothing. -/
theorem discover_lists_workspaceInBuild :
    let targets : List Path := [⟨"p/./b.py"⟩, ⟨"a.py"⟩, ⟨"/w//build/p"⟩]
    (∃ listings,
      List.Forall₂ (fun t listing => ∃ route,
        workspaceInBuild.resolve? ((⟨"/w/build"⟩ : Path).join t) = some route ∧
          workspaceInBuild.Lists ["w", "build"] (takes (fun _ => true) []) route listing)
        targets listings ∧
      workspaceInBuild.discover ⟨"/w/build"⟩ targets [] (fun _ => true) =
        .ok (listings.foldl addListing [])) ∧
    (workspaceInBuild.discover ⟨"/w/build"⟩ targets [] (fun _ => true)).toOption.map
      (List.map Discovered.path) = some ["p/b.py", "a.py"] := by
  intro targets
  -- All three spellings are plain, which is evaluated here, so `discover_lists` applies.
  have hplain : ∀ t ∈ targets, workspaceInBuild.IsPlain ⟨"/w/build"⟩ t := by
    simp only [targets, List.forall_mem_cons]
    exact ⟨⟨by decide +kernel, by decide +kernel, by decide +kernel⟩,
      ⟨by decide +kernel, by decide +kernel, by decide +kernel⟩,
      ⟨by decide +kernel, by decide +kernel, by decide +kernel⟩, by simp⟩
  obtain ⟨listings, hlistings, hdiscover, -⟩ :=
    (@discover_lists workspaceInBuild ⟨"/w/build"⟩ ["w", "build"] (fun _ => true) [] []
      isTree_workspaceInBuild (by decide +kernel) (by decide +kernel) rfl).2 targets (by decide) hplain
  exact ⟨⟨listings, hlistings, hdiscover⟩, by decide +kernel⟩

/-- With a relative workspace, the name of the directory around it hides what an absolute target
asks for. -/
theorem discover_of_other_spelling :
    workspaceInBuild.IsTree ∧ workspaceInBuild.isDirectory ⟨"build"⟩ ∧
      workspaceInBuild.resolve? ⟨"build"⟩ = some ["w", "build"] ∧
      workspaceInBuild.resolve? ((⟨"build"⟩ : Path).join ⟨"/w/build/p"⟩) = some ["w", "build", "p"] ∧
      .parent ∉ (⟨"/w/build/p"⟩ : Path).components ∧
      (∃ f, workspaceInBuild.IsSelected ["w", "build"] (takes (fun _ => true) []) f ∧
        ["w", "build", "p"] <+: f.route) ∧
      workspaceInBuild.discover ⟨"build"⟩ [⟨"/w/build/p"⟩] [] (fun _ => true) = .ok [] := by
  obtain ⟨files, hfiles, hlength⟩ : ∃ files,
      workspaceInBuild.discover ⟨"build"⟩ [⟨"/w/build/p"⟩] [] (fun _ => true) = .ok files ∧
        files.length = 0 := exists_of_toOption (by decide +kernel)
  refine ⟨isTree_workspaceInBuild, by decide +kernel, by decide +kernel, by decide +kernel,
    by decide +kernel, ⟨⟨"p/b.py", ["w", "build", "p", "b.py"], ⟨.empty, none⟩⟩, ?_, ?_⟩, ?_⟩
  -- The file is behind the target, but the spelling of the target lies outside the workspace.
  · exact ⟨["p", "b.py"], ⟨rfl, by decide +kernel, rfl⟩, rfl, by decide +kernel⟩
  · exact ⟨["b.py"], rfl⟩
  · rw [hfiles, List.eq_nil_of_length_eq_zero hlength]

end NameAtlas.FileSystem
