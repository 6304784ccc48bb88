import NameAtlas.Proofs.Discovery.Listing

/-!
# What a discovered path stands for

The path of a file that is found is made of names only, so it stands for the file if its names lead to
it from the workspace. They do just if the target is written as the workspace with names behind it
(`resolve?_inWorkspace_iff`), since two dots lead back and leave no name. If all targets are, no file
stands under the path of another one, and each target is found (`discover_denotes`). Otherwise a file
takes the path, and the place, of another one (`discover_of_two_dots`).
-/

namespace NameAtlas.FileSystem

open NameAtlas.Path

variable {fs : FileSystem} {workspace : Path} {root route names : Route} {content : FileContent}
  {cs : List Component} {accepts : String → Bool} {exclude : List String} {globs : List Glob}
  {f g : Discovered}

/-! ### Names that lead to a file -/

section Length

variable (hinner : ∀ c ∈ cs, c = .parent ∨ ∃ name, c = .name name)

include hinner

/-- Every name leads one step down, and nothing else does. -/
theorem length_foldl_follow_le (route : Route) :
    (cs.foldl follow route).length ≤ route.length + (namesOf cs).length := by
  -- The induction is on the components: a step up makes the route shorter, and a step down makes it
  -- longer by one.
  induction cs generalizing route with
  | nil => exact Nat.le_add_right _ _
  | cons c cs ih =>
    rw [List.forall_mem_cons] at hinner
    have hrest := ih hinner.2 (follow route c)
    rcases hinner.1 with rfl | ⟨name, rfl⟩
    · have hup : (follow route .parent).length ≤ route.length := by
        rw [follow, List.length_dropLast]
        exact Nat.sub_le _ _
      exact hrest.trans (Nat.add_le_add_right hup _)
    · have hdown : (follow route (.name name)).length = route.length + 1 := List.length_append
      rw [hdown, Nat.add_assoc, Nat.add_comm 1] at hrest
      exact hrest

/-- Two dots lead back. -/
theorem length_foldl_follow_lt (hparent : .parent ∈ cs) (hne : route ≠ []) :
    (cs.foldl follow route).length < route.length + (namesOf cs).length := by
  -- Here one step goes up, so somewhere the route gets shorter although no name is used up.
  induction cs generalizing route with
  | nil => cases hparent
  | cons c cs ih =>
    rw [List.forall_mem_cons] at hinner
    rcases hinner.1 with rfl | ⟨name, rfl⟩
    · have hup : (follow route .parent).length < route.length := by
        rw [follow, List.length_dropLast]
        exact Nat.sub_lt (List.length_pos_of_ne_nil hne) Nat.one_pos
      exact (length_foldl_follow_le hinner.2 _).trans_lt (Nat.add_lt_add_right hup _)
    · have hdown : (follow route (.name name)).length = route.length + 1 := List.length_append
      have hbelow : .parent ∈ cs := (List.mem_cons.1 hparent).resolve_left (by rintro ⟨⟩)
      have hstep : follow route (.name name) ≠ [] :=
        List.append_ne_nil_of_right_ne_nil _ (List.cons_ne_nil _ _)
      have hrest := ih hinner.2 hbelow hstep
      rw [hdown, Nat.add_assoc, Nat.add_comm 1] at hrest
      exact hrest

end Length

/-- An absolute path leads down by one step for each of its names at most. -/
theorem length_le_of_isAbsolute {p : Path} (habsolute : p.isAbsolute)
    (hroute : fs.resolve? p = some route) : route.length ≤ p.names.length := by
  have hle : (p.inner.foldl follow []).length ≤ 0 + (namesOf p.inner).length :=
    length_foldl_follow_le (fun _ => eq_parent_or_name_of_mem_inner) []
  rw [Nat.zero_add] at hle
  rw [resolve?_eq hroute, names_eq, components_eq_top_cons habsolute]
  exact hle

/-- Behind the components of a workspace, a path that leads down by one step for each of its names has
names only. -/
theorem isBehind_of_length {p : Path} (hroot : fs.resolve? workspace = some root) (hne : root ≠ [])
    (hroute : fs.resolve? p = some route) (hstart : workspace.components <+: p.components)
    (hlength : route.length = root.length + (p.relativeTo workspace).names.length) :
    p.IsBehind workspace := by
  obtain ⟨ds, hds⟩ := hstart
  have hinner : ∀ c ∈ ds, c = .parent ∨ ∃ name, c = .name name := fun c hc =>
    eq_parent_or_name_of_mem_inner (subset_inner (text_ne_of_resolve? hroot) hds.symm hc)
  -- A step up would make the route too short, since the workspace is not the root of the file
  -- system.
  have hdown : .parent ∉ ds := by
    intro hparent
    have hlt := length_foldl_follow_lt hinner hparent hne
    rw [resolve?_eq hroute, ← hds, List.foldl_append, ← resolve?_eq hroot] at hlength
    rw [hlength, names_eq, components_relativeTo hds.symm] at hlt
    exact hlt.false
  obtain ⟨names, rfl⟩ := exists_map_name hinner hdown
  exact ⟨names, hds.symm⟩

section Workspace

variable (hfs : fs.IsTree) (hdirectory : fs.isDirectory workspace)
  (hroot : fs.resolve? workspace = some root)

include hfs hdirectory hroot

/-- The path that is made of the names of a file stands for it. -/
theorem resolve?_join_of_file (hfile : fs.entryAt? (root ++ names) = some (.file content)) :
    fs.resolve? (workspace.join ⟨"/".intercalate names⟩) = some (root ++ names) := by
  refine resolve?_join_names hroot ?_ (hfs.isEntryName hfile) (by rw [hfile]; rfl)
  -- At the workspace itself is a directory.
  rintro rfl
  obtain ⟨route, es, hresolve, hentry⟩ := exists_of_isDirectory hdirectory
  obtain rfl := Option.some.inj (hroot.symm.trans hresolve)
  rw [List.append_nil, hentry] at hfile
  cases hfile

/-- What is named behind the root is found under its path. -/
theorem IsNamed.resolve? (hnamed : fs.IsNamed root names f) :
    fs.resolve? (workspace.join ⟨f.path⟩) = some f.route := by
  have hfile := hnamed.file
  rw [hnamed.route] at hfile
  rw [hnamed.path, hnamed.route]
  exact resolve?_join_of_file hfs hdirectory hroot hfile

/-- The path of a file stands for it just if its target is written as the workspace with names behind
it. Only at the top do two dots lead nowhere. -/
theorem resolve?_inWorkspace_iff {target : Path} (hne : root ≠ [])
    (hroute : fs.resolve? (workspace.join target) = some route)
    (hfile : fs.entryAt? route = some (.file content)) :
    fs.resolve? (workspace.join ⟨(workspace.join target).inWorkspace workspace⟩) = some route ↔
      (workspace.join target).IsBehind workspace := by
  have htext := text_ne_of_resolve? hroot
  constructor
  · intro hpath
    let names := ((workspace.join target).relativeTo workspace).names
    have hnames : ∀ name ∈ names, IsEntryName name := fun _ => isEntryName_of_mem_names
    have hlength : route.length = root.length + names.length := by
      rw [← List.length_append]
      refine congrArg List.length (resolve?_eq_append hroot hpath ?_)
      rw [inWorkspace, components_join htext (isAbsolute_of_front? (front?_intercalate_names hnames)),
        inner_intercalate_names hnames]
    by_cases hstart : workspace.components <+: (workspace.join target).components
    · exact isBehind_of_length hroot hne hroute hstart hlength
    -- All names of an absolute path lead to the file from the top, so none lead to the workspace.
    · cases habsolute : target.isAbsolute with
      | false => exact absurd ⟨_, (components_join htext habsolute).symm⟩ hstart
      | true =>
        have hle : route.length ≤ names.length := by
          show _ ≤ ((workspace.join target).relativeTo workspace).names.length
          rw [join_of_isAbsolute habsolute] at hroute hstart ⊢
          rw [relativeTo_of_not_isPrefix hstart]
          exact length_le_of_isAbsolute habsolute hroute
        have hpos := List.length_pos_of_ne_nil hne
        omega
  · rintro ⟨names, hnames⟩
    obtain rfl := resolve?_eq_append hroot hroute hnames
    have hpath : (workspace.join target).inWorkspace workspace = "/".intercalate names :=
      congrArg _ (names_of_components (components_relativeTo hnames))
    rw [hpath]
    exact resolve?_join_of_file hfs hdirectory hroot hfile

/-! ### Discoveries -/

/-- If every target is there and is written as the workspace with names behind it, the path of each file
that is found stands for this file, no file is found under the path of another one, and every target
that is a file is found. -/
theorem discover_denotes (hglobs : excludeGlobs exclude = .ok globs) {targets : List Path}
    (htargets : ∀ t ∈ targets,
      (fs.resolve? (workspace.join t)).isSome ∧ (workspace.join t).IsBehind workspace) :
    ∃ files, fs.discover workspace targets exclude accepts = .ok files ∧
      (∀ f ∈ files, fs.resolve? (workspace.join ⟨f.path⟩) = some f.route ∧
        fs.entryAt? f.route = some (.file f.content)) ∧
      (∀ f ∈ files, ∀ g ∈ files, f.path = g.path ↔ f.route = g.route) ∧
      ∀ t ∈ targets, ∀ content, fs.file? (workspace.join t) = some content →
        ∃ f ∈ files, fs.resolve? (workspace.join t) = some f.route := by
  have hworkspace : (fs.resolve? workspace).isSome ∧ workspace.IsBehind workspace :=
    ⟨by rw [hroot]; rfl, [], (List.append_nil _).symm⟩
  obtain ⟨listings, hlistings, hdiscover⟩ := exists_listings hfs hdirectory hroot hglobs
    (forall_mem_starts hworkspace htargets)
  -- Each file comes from the listing of one start, which names it.
  have hnamed : ∀ f ∈ listings.flatten, ∃ names, fs.IsNamed root names f := by
    intro f hf
    obtain ⟨l, hl, hf⟩ := List.mem_flatten.1 hf
    obtain ⟨p, -, route, -, hlists⟩ := exists_mem_of_forall₂ hlistings.flip hl
    exact hlists.isNamed hf
  have hsub := (firstOfEach_sublist listings.flatten).subset
  refine ⟨_, hdiscover, fun f hf => ?_, fun f hf g hg => ?_, fun t ht content hcontent => ?_⟩
  · obtain ⟨names, hf⟩ := hnamed f (hsub hf)
    exact ⟨hf.resolve? hfs hdirectory hroot, hf.file⟩
  · obtain ⟨names, hf⟩ := hnamed f (hsub hf)
    obtain ⟨more, hg⟩ := hnamed g (hsub hg)
    refine ⟨fun hpath => congrArg Discovered.route (hf.eq_of_path hfs hg hpath), fun hroute => ?_⟩
    rw [hf.path, hg.path, List.append_cancel_left (hf.route.symm.trans (hroute.trans hg.route))]
  · -- What is listed for a file is this file, and one with its path is kept.
    obtain ⟨l, hl, route, hroute, hlists⟩ :=
      exists_mem_of_forall₂ hlistings (join_mem_starts workspace ht)
    obtain ⟨route', hroute', hentry⟩ := exists_of_file? hcontent
    obtain rfl := Option.some.inj (hroute.symm.trans hroute')
    cases hlists with
    | directory hdirectory hmem hsorted => cases hentry.symm.trans hdirectory
    | @file f names hf hfound =>
      have hflat : f ∈ listings.flatten := List.mem_flatten.2 ⟨_, hl, List.mem_singleton_self f⟩
      have hpath := (mem_paths_firstOfEach listings.flatten).2 (List.mem_map_of_mem hflat)
      obtain ⟨g, hg, hpath⟩ := List.mem_map.1 hpath
      obtain ⟨more, hnamed⟩ := hnamed g (hsub hg)
      obtain rfl := hnamed.eq_of_path hfs hf hpath
      exact ⟨g, hg, hfound ▸ hroute⟩

end Workspace

/-- Two files with one name. -/
def namesakes : FileSystem :=
  let empty : Entry := .file ⟨.empty, none⟩
  ⟨.directory [("w", .directory [("a.py", empty), ("pkg", .directory [("a.py", empty)])])], []⟩

/-- The directories of the example list their entries once. -/
theorem isTree_namesakes : namesakes.IsTree := by
  simp only [namesakes, IsTree, Entry.IsTree, Entry.AreTrees]
  decide

/-- Dots and slashes in the workspace and in the targets do not matter. -/
theorem discover_denotes_namesakes :
    ∃ files, namesakes.discover ⟨"w/."⟩ [⟨"./pkg//a.py"⟩, ⟨"a.py"⟩] [] (fun _ => true) = .ok files ∧
      (∃ f ∈ files, f.route = ["w", "pkg", "a.py"]) ∧ (∃ f ∈ files, f.route = ["w", "a.py"]) ∧
      ∀ f ∈ files, namesakes.resolve? ((⟨"w/."⟩ : Path).join ⟨f.path⟩) = some f.route := by
  let targets : List Path := [⟨"./pkg//a.py"⟩, ⟨"a.py"⟩]
  -- Both targets lead behind the workspace, so `discover_denotes` applies to them.
  have htargets : ∀ t ∈ targets, (namesakes.resolve? ((⟨"w/."⟩ : Path).join t)).isSome ∧
      ((⟨"w/."⟩ : Path).join t).IsBehind ⟨"w/."⟩ := by
    simp only [targets, List.forall_mem_cons]
    exact ⟨⟨by decide +kernel, ["pkg", "a.py"], by decide +kernel⟩,
      ⟨by decide +kernel, ["a.py"], by decide +kernel⟩, List.forall_mem_nil _⟩
  obtain ⟨files, hfiles, hdenotes, -, hfound⟩ :=
    @discover_denotes namesakes ⟨"w/."⟩ ["w"] (fun _ => true) [] [] isTree_namesakes
      (by decide +kernel) (by decide +kernel) rfl targets htargets
  have hroute : ∀ t ∈ targets, ∀ route, (namesakes.file? ((⟨"w/."⟩ : Path).join t)).isSome →
      namesakes.resolve? ((⟨"w/."⟩ : Path).join t) = some route → ∃ f ∈ files, f.route = route := by
    intro t ht route hfile hroute
    obtain ⟨content, hcontent⟩ := Option.isSome_iff_exists.1 hfile
    obtain ⟨f, hf, hresolve⟩ := hfound t ht content hcontent
    exact ⟨f, hf, Option.some.inj (hresolve.symm.trans hroute)⟩
  exact ⟨files, hfiles,
    hroute ⟨"./pkg//a.py"⟩ List.mem_cons_self _ (by decide +kernel) (by decide +kernel),
    hroute ⟨"a.py"⟩ (List.mem_cons_of_mem _ List.mem_cons_self) _ (by decide +kernel)
      (by decide +kernel),
    fun f hf => (hdenotes f hf).1⟩

/-- Behind a directory and two dots, a file is found under the path of another one, which has no place
behind it. -/
theorem discover_of_two_dots :
    namesakes.resolve? ((⟨"/w"⟩ : Path).join ⟨"pkg/../a.py"⟩) = some ["w", "a.py"] ∧
      (∃ f, namesakes.discover ⟨"/w"⟩ [⟨"pkg/../a.py"⟩] [] (fun _ => true) = .ok [f] ∧
        f.route = ["w", "a.py"] ∧
        namesakes.resolve? ((⟨"/w"⟩ : Path).join ⟨f.path⟩) = some ["w", "pkg", "a.py"]) ∧
      ∃ f, namesakes.discover ⟨"/w"⟩ [⟨"pkg/a.py"⟩, ⟨"pkg/../a.py"⟩] [] (fun _ => true) = .ok [f] ∧
        f.route = ["w", "pkg", "a.py"] := by
  -- Sorting and globbing are evaluated once for each list of targets.
  obtain ⟨alone, halone, hpath⟩ : ∃ files,
      namesakes.discover ⟨"/w"⟩ [⟨"pkg/../a.py"⟩] [] (fun _ => true) = .ok files ∧
        files.map (fun f => (f.route, f.path)) = [(["w", "a.py"], "pkg/a.py")] :=
    exists_of_toOption (by decide +kernel)
  obtain ⟨both, hboth, hroute⟩ : ∃ files,
      namesakes.discover ⟨"/w"⟩ [⟨"pkg/a.py"⟩, ⟨"pkg/../a.py"⟩] [] (fun _ => true) = .ok files ∧
        files.map Discovered.route = [["w", "pkg", "a.py"]] := exists_of_toOption (by decide +kernel)
  obtain ⟨f, rfl, hf⟩ := List.map_eq_singleton_iff.1 hpath
  obtain ⟨hroute', hpath⟩ := Prod.mk.inj hf
  obtain ⟨g, rfl, hg⟩ := List.map_eq_singleton_iff.1 hroute
  refine ⟨by decide +kernel, ⟨f, halone, hroute', ?_⟩, g, hboth, hg⟩
  rw [hpath]
  decide +kernel

end NameAtlas.FileSystem
