import Mathlib.Data.List.Forall2
import Mathlib.Data.List.Nodup
import NameAtlas.Discovery

/-!
# What a discovery finds

No path is found twice (`nodup_discover`). Without targets the whole workspace is searched, and the
files come in the order of their paths (`sorted_discover`). A discovery fails just if something that
it is told of is missing or wrong (`exists_discover_iff`).
-/

namespace NameAtlas.FileSystem

/-! ### The first files of each path -/

/-- The first file stays, and the later ones with its path go. -/
theorem firstOfEach_cons (f : Discovered) (rest : List Discovered) :
    firstOfEach (f :: rest) = f :: firstOfEach (rest.filter fun g => (g.path == f.path) = false) :=
  List.eraseDupsBy_cons

/-- The files behind the first one of a path are those that have other paths. -/
@[elab_as_elim]
theorem firstOfEach_induction {motive : List Discovered → Prop} (nil : motive [])
    (cons : ∀ f rest, motive (rest.filter fun g => (g.path == f.path) = false) → motive (f :: rest))
    (files : List Discovered) : motive files := by
  cases files with
  | nil => exact nil
  | cons f rest => exact cons f rest (firstOfEach_induction nil cons _)
termination_by files.length
decreasing_by
  have hle := List.length_filter_le (fun g => decide ((g.path == f.path) = false)) rest
  simp only [List.length_cons]
  omega

/-- Only files are left out, and the others keep their order. -/
theorem firstOfEach_sublist (files : List Discovered) : (firstOfEach files).Sublist files := by
  induction files using firstOfEach_induction with
  | nil => exact List.Sublist.slnil
  | cons f rest ih =>
    rw [firstOfEach_cons]
    exact (ih.trans List.filter_sublist).cons_cons f

/-- Among the first files of each path no path comes twice. -/
theorem nodup_firstOfEach (files : List Discovered) :
    ((firstOfEach files).map Discovered.path).Nodup := by
  induction files using firstOfEach_induction with
  | nil => exact List.nodup_nil
  | cons f rest ih =>
    rw [firstOfEach_cons, List.map_cons, List.nodup_cons]
    refine ⟨fun hmem => ?_, ih⟩
    -- What stands behind a file has other paths.
    obtain ⟨g, hg, hpath⟩ := List.mem_map.1 hmem
    have hne := (List.mem_filter.1 ((firstOfEach_sublist _).subset hg)).2
    simp [hpath] at hne

/-! ### Results of many -/

section Results

variable {ε α β : Type} {R : α → β → Prop} {f : α → Except ε β} {xs : List α} {ys : List β} {x : α}

/-- A computation that succeeds does so in both of its parts. -/
theorem exists_of_bind_eq_ok {a : Except ε α} {y : β} (h : (a >>= f) = .ok y) :
    ∃ x, a = .ok x ∧ f x = .ok y := by
  cases a with
  | error e => cases h
  | ok x => exact ⟨x, rfl, h⟩

/-- A result is what a part of it shows by evaluation. -/
theorem exists_of_toOption {a : Except ε α} {g : α → β} {y : β} (h : a.toOption.map g = some y) :
    ∃ x, a = .ok x ∧ g x = y := by
  cases a with
  | error e => cases h
  | ok x => exact ⟨x, rfl, Option.some.inj h⟩

/-- A list of computations succeeds exactly if each of them does, with their results in order. -/
theorem mapM_eq_ok_iff : xs.mapM f = .ok ys ↔ List.Forall₂ (fun x y => f x = .ok y) xs ys := by
  induction xs generalizing ys with
  | nil =>
    rw [List.forall₂_nil_left_iff, List.mapM_nil]
    exact ⟨fun h => (Except.ok.inj h).symm, fun h => by rw [h]; rfl⟩
  | cons x xs ih =>
    -- Of a list that is not empty the first computation runs first, and the rest only if it
    -- succeeds.
    rw [List.forall₂_cons_left_iff, List.mapM_cons]
    constructor
    · intro h
      obtain ⟨y, hy, h⟩ := exists_of_bind_eq_ok h
      obtain ⟨ys, hys, h⟩ := exists_of_bind_eq_ok h
      exact ⟨y, ys, hy, ih.1 hys, (Except.ok.inj h).symm⟩
    · rintro ⟨y, ys, hy, hys, rfl⟩
      rw [hy, ih.2 hys]
      rfl

/-- If every member has a partner, there is a list of partners. -/
theorem exists_forall₂ (h : ∀ x ∈ xs, ∃ y, R x y) : ∃ ys, List.Forall₂ R xs ys := by
  induction xs with
  | nil => exact ⟨[], .nil⟩
  | cons x xs ih =>
    rw [List.forall_mem_cons] at h
    obtain ⟨y, hy⟩ := h.1
    obtain ⟨ys, hys⟩ := ih h.2
    exact ⟨y :: ys, .cons hy hys⟩

/-- A member of the first of two related lists has a partner in the second. -/
theorem exists_mem_of_forall₂ (h : List.Forall₂ R xs ys) (hx : x ∈ xs) : ∃ y ∈ ys, R x y := by
  induction h with
  | nil => cases hx
  | @cons x' y xs ys hy hys ih =>
    rcases List.mem_cons.1 hx with rfl | hx
    · exact ⟨y, List.mem_cons_self, hy⟩
    · obtain ⟨y', hy', hR⟩ := ih hx
      exact ⟨y', List.mem_cons_of_mem y hy', hR⟩

/-- All of many results are there just if each of them is. -/
theorem exists_mapM_iff : (∃ ys, xs.mapM f = .ok ys) ↔ ∀ x ∈ xs, ∃ y, f x = .ok y := by
  simp only [mapM_eq_ok_iff]
  refine ⟨fun ⟨ys, hys⟩ x hx => ?_, exists_forall₂⟩
  obtain ⟨y, -, hy⟩ := exists_mem_of_forall₂ hys hx
  exact ⟨y, hy⟩

end Results

/-! ### Discoveries -/

variable {fs : FileSystem} {workspace p : Path} {targets : List Path} {exclude : List String}
  {accepts isTaken : String → Bool} {files : List Discovered}

/-- True for the paths that are taken below a directory. -/
def takes (accepts : String → Bool) (globs : List Glob) (path : String) : Bool :=
  accepts path && !globs.any fun g => g.accepts path

/-- Where a discovery starts. -/
def starts (workspace : Path) (targets : List Path) : List Path :=
  if targets.isEmpty then [workspace] else targets.map workspace.join

/-- With targets, discovery starts at each of them. -/
theorem starts_of_ne_nil (workspace : Path) (hne : targets ≠ []) :
    starts workspace targets = targets.map workspace.join := if_neg (by simpa using hne)

/-- What holds of the workspace and of all targets holds of all places where discovery starts. -/
theorem forall_mem_starts {P : Path → Prop} (hworkspace : P workspace)
    (htargets : ∀ t ∈ targets, P (workspace.join t)) : ∀ p ∈ starts workspace targets, P p := by
  rw [starts]
  split
  · exact List.forall_mem_singleton.2 hworkspace
  · exact List.forall_mem_map.2 htargets

/-- Discovery starts at every target. -/
theorem join_mem_starts (workspace : Path) {t : Path} (ht : t ∈ targets) :
    workspace.join t ∈ starts workspace targets := by
  rw [starts_of_ne_nil workspace (List.ne_nil_of_mem ht)]
  exact List.mem_map_of_mem ht

/-- A discovery gives the first files of each path among those that are found from its starts. -/
theorem discover_eq_ok_iff :
    fs.discover workspace targets exclude accepts = .ok files ↔
      fs.isDirectory workspace ∧ ∃ globs, excludeGlobs exclude = .ok globs ∧
        ∃ found, List.Forall₂ (fun p l => fs.target workspace (takes accepts globs) p = .ok l)
          (starts workspace targets) found ∧ files = firstOfEach found.flatten := by
  rw [discover]
  cases hdirectory : fs.isDirectory workspace with
  | false => simp [throw, throwThe, MonadExceptOf.throw, bind, Except.bind]
  | true =>
    -- The workspace is a directory, so the guard is passed, and the two binds are taken apart.
    simp only [Bool.not_true, Bool.false_eq_true, if_false, true_and]
    constructor
    · intro h
      obtain ⟨globs, hglobs, h⟩ := exists_of_bind_eq_ok h
      obtain ⟨found, hfound, h⟩ := exists_of_bind_eq_ok h
      exact ⟨globs, hglobs, found, mapM_eq_ok_iff.1 hfound, (Except.ok.inj h).symm⟩
    · rintro ⟨globs, hglobs, found, hfound, rfl⟩
      have hfound : (starts workspace targets).mapM (fs.target workspace (takes accepts globs)) =
          .ok found := mapM_eq_ok_iff.2 hfound
      rw [hglobs]
      exact congrArg (· >>= fun found => pure (firstOfEach found.flatten)) hfound

/-- No path is discovered twice. -/
theorem nodup_discover (h : fs.discover workspace targets exclude accepts = .ok files) :
    (files.map Discovered.path).Nodup := by
  obtain ⟨-, globs, -, found, -, rfl⟩ := discover_eq_ok_iff.1 h
  exact nodup_firstOfEach _

/-- The files below a directory come in the order of their paths. -/
theorem sorted_walk (directory : Path) (route : Route) (isTaken : String → Bool) :
    (fs.walk workspace directory route isTaken).Pairwise fun a b => a.path ≤ b.path := by
  have htrans : ∀ a b c : Discovered, decide (a.path ≤ b.path) → decide (b.path ≤ c.path) →
      decide (a.path ≤ c.path) := fun a b c hab hbc =>
    decide_eq_true (String.le_trans (of_decide_eq_true hab) (of_decide_eq_true hbc))
  have htotal : ∀ a b : Discovered, decide (a.path ≤ b.path) || decide (b.path ≤ a.path) :=
    fun a b => by simpa using String.le_total a.path b.path
  exact (List.pairwise_mergeSort htrans htotal _).imp of_decide_eq_true

/-- A target gives files just if there is something at it. -/
theorem exists_target_iff : (∃ l, fs.target workspace isTaken p = .ok l) ↔ (fs.resolve? p).isSome := by
  rw [target]
  cases fs.resolve? p with
  | none => simp
  | some route =>
    simp only [Option.isSome_some, iff_true]
    split <;> exact ⟨_, rfl⟩

/-- A directory is walked where it is found. -/
theorem target_of_isDirectory (h : fs.isDirectory p) :
    ∃ route, fs.target workspace isTaken p = .ok (fs.walk workspace p route isTaken) := by
  rw [isDirectory, entry?] at h
  rw [target]
  -- A directory is the one entry that `entry?` recognises, so the branch for a file is out.
  cases hroute : fs.resolve? p with
  | none => simp [hroute] at h
  | some route =>
    rw [hroute, Option.bind_some] at h
    refine ⟨route, ?_⟩
    cases hentry : fs.entryAt? route with
    | none => simp [hentry]
    | some e =>
      cases e with
      | file content => simp [hentry] at h
      | directory es => simp [hentry]

/-- Without targets the files are those below the workspace, in the order of their paths. -/
theorem sorted_discover (h : fs.discover workspace [] exclude accepts = .ok files) :
    (files.map Discovered.path).Pairwise (· ≤ ·) := by
  obtain ⟨hdirectory, globs, -, found, hfound, rfl⟩ := discover_eq_ok_iff.1 h
  obtain ⟨l, rest, hl, hrest, rfl⟩ := List.forall₂_cons_left_iff.1 hfound
  obtain rfl := List.forall₂_nil_left_iff.1 hrest
  obtain ⟨route, htarget⟩ : ∃ route, fs.target workspace (takes accepts globs) workspace =
      .ok (fs.walk workspace workspace route (takes accepts globs)) := target_of_isDirectory hdirectory
  obtain rfl := Except.ok.inj (hl.symm.trans htarget)
  rw [List.flatten_singleton, List.pairwise_map]
  exact (sorted_walk workspace route _).sublist (firstOfEach_sublist _)

/-- A discovery fails just if the workspace is no directory, a pattern is wrong or a target is
missing. -/
theorem exists_discover_iff :
    (∃ files, fs.discover workspace targets exclude accepts = .ok files) ↔
      fs.isDirectory workspace ∧ (∀ pattern ∈ exclude, ∃ g, Glob.parse pattern = .ok g) ∧
        ∀ t ∈ targets, (fs.resolve? (workspace.join t)).isSome := by
  -- The patterns fail one by one, whatever the file system is.
  have hglobs : (∃ globs, excludeGlobs exclude = .ok globs) ↔
      ∀ pattern ∈ exclude, ∃ g, Glob.parse pattern = .ok g := by
    rw [excludeGlobs, exists_mapM_iff]
    refine forall₂_congr fun pattern _ => exists_congr fun g => ?_
    cases Glob.parse pattern <;> simp
  rw [← hglobs]
  constructor
  · rintro ⟨files, h⟩
    obtain ⟨hdirectory, globs, hparse, found, hfound, -⟩ := discover_eq_ok_iff.1 h
    refine ⟨hdirectory, ⟨globs, hparse⟩, fun t ht => ?_⟩
    obtain ⟨l, -, hl⟩ := exists_mem_of_forall₂ hfound (join_mem_starts workspace ht)
    exact exists_target_iff.1 ⟨l, hl⟩
  · rintro ⟨hdirectory, ⟨globs, hparse⟩, htargets⟩
    have hworkspace : ∃ l, fs.target workspace (takes accepts globs) workspace = .ok l :=
      (target_of_isDirectory hdirectory).elim fun _ h => ⟨_, h⟩
    have hall : ∀ p ∈ starts workspace targets,
        ∃ l, fs.target workspace (takes accepts globs) p = .ok l :=
      forall_mem_starts hworkspace fun t ht => exists_target_iff.2 (htargets t ht)
    obtain ⟨found, hfound⟩ := exists_forall₂ hall
    exact ⟨_, discover_eq_ok_iff.2 ⟨hdirectory, globs, hparse, found, hfound, rfl⟩⟩

end NameAtlas.FileSystem
