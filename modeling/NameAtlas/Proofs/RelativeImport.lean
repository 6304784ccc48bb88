import NameAtlas.Proofs.ModuleName
import NameAtlas.Python.Analysis

/-!
# Relative imports

A relative import points at a file: one directory up for each dot behind the first one, then down
along its names. `resolveSource` finds the module of that file by shortening the module of the
importing file, so it depends on how many segments that module has and on the test for files of
packages. The two agree for plain modules (`take_plain_iff`) and for files of packages below the root
(`take_package_iff`), if the test takes none for the other.
-/

namespace NameAtlas.Python

/-- True for a name that stands for itself, in a path as in the source of an import. -/
def IsPlainName (name : String) : Prop :=
  name ≠ "" ∧ ∀ c ∈ name.toList, c ≠ '.' ∧ c ≠ '/' ∧ Text.isBlank c = false

-- The characters of the name are gone through, not all characters.
instance (name : String) : Decidable (IsPlainName name) :=
  @instDecidableAnd _ _ inferInstance (List.decidableBAll _ _)

/-- A plain name can stand in a path. -/
theorem IsPlainName.isPathName {name : String} (h : IsPlainName name) : IsPathName name :=
  ⟨h.1, fun hmem => (h.2 _ hmem).2.1 rfl⟩

/-- The source of a relative import: dots and a path of names. -/
def relativeSource (level : Nat) (path : List String) : String :=
  String.ofList (List.replicate level '.') ++ ".".intercalate path

/-! ### Reading a relative source -/

section

variable {level : Nat} {path : List String} (hpath : ∀ name ∈ path, IsPlainName name)

include hpath

/-- Joined names do not begin with a dot. -/
theorem head?_intercalate_ne (c : Char) (cs : List Char)
    (h : (".".intercalate path).toList = c :: cs) : c ≠ '.' := by
  cases path with
  | nil => simp at h
  | cons name names =>
    obtain ⟨hne, hplain⟩ := hpath name List.mem_cons_self
    -- The text starts with the first letter of the first name.
    have hstart : ∃ rest, (".".intercalate (name :: names)).toList = name.toList ++ rest := by
      cases names with
      | nil => exact ⟨[], by simp⟩
      | cons next names =>
        rw [String.intercalate_cons_of_ne_nil (List.cons_ne_nil _ _), String.toList_append,
          String.toList_append, List.append_assoc]
        exact ⟨_, rfl⟩
    obtain ⟨rest, hstart⟩ := hstart
    have hletters : name.toList ≠ [] := by simpa using hne
    obtain ⟨d, ds, hd⟩ := List.exists_cons_of_ne_nil hletters
    rw [h, hd, List.cons_append, List.cons.injEq] at hstart
    exact hstart.1 ▸ (hplain d (hd ▸ List.mem_cons_self)).1

/-- The dots in front of a relative source are its level. -/
theorem takeWhile_relativeSource :
    (relativeSource level path).toList.takeWhile (· = '.') = List.replicate level '.' := by
  have hnames : (".".intercalate path).toList.takeWhile (· = '.') = [] := by
    cases h : (".".intercalate path).toList with
    | nil => rfl
    | cons c cs =>
      exact List.takeWhile_cons_of_neg (by simpa using head?_intercalate_ne hpath c cs h)
  rw [relativeSource, String.toList_append, String.toList_ofList,
    List.takeWhile_append_of_pos (by simp), hnames, List.append_nil]

/-- What stands behind the dots of a relative source are its names. -/
theorem dropWhile_relativeSource :
    (relativeSource level path).toList.dropWhile (· = '.') = (".".intercalate path).toList := by
  have hnames : (".".intercalate path).toList.dropWhile (· = '.') = (".".intercalate path).toList := by
    cases h : (".".intercalate path).toList with
    | nil => rfl
    | cons c cs =>
      exact List.dropWhile_cons_of_neg (by simpa using head?_intercalate_ne hpath c cs h)
  rw [relativeSource, String.toList_append, String.toList_ofList,
    List.dropWhile_append_of_pos (by simp), hnames]

/-- The names of a relative source are read as they stand. -/
theorem trimmedParts_intercalate (hne : path ≠ []) :
    Text.trimmedParts (Text.splitAt '.' (".".intercalate path).toList) = path := by
  have hsplit : Text.splitAt '.' (".".intercalate path).toList = path.map String.toList := by
    rw [String.toList_intercalate]
    refine Text.splitAt_intercalate (by simpa using hne) fun part hpart hmem => ?_
    obtain ⟨name, hname, rfl⟩ := List.mem_map.1 hpart
    exact ((hpath name hname).2 _ hmem).1 rfl
  rw [hsplit]
  exact Text.trimmedParts_map_toList fun name hname =>
    ⟨(hpath name hname).1, .of_forall fun c hc => ((hpath name hname).2 c hc).2.2⟩

/-- A relative import leads from the module that is shortened by the climb down its names. -/
theorem resolveSource_relativeSource (hne : path ≠ []) (hlevel : 1 ≤ level) (module : Fqn)
    (isPackage : Bool) :
    resolveSource (relativeSource level path) module isPackage =
      ⟨module.segments.take (module.length - if isPackage then level - 1 else level) ++ path⟩ := by
  have hdots : ((relativeSource level path).toList.takeWhile (· = '.')).length = level := by
    rw [takeWhile_relativeSource hpath, List.length_replicate]
  rw [resolveSource, hdots, dropWhile_relativeSource hpath, trimmedParts_intercalate hpath hne,
    if_neg (by omega)]
  rfl

end

/-! ### The test for files of packages -/

/-- A text that ends in `suffix` ends in a word before it if the rest ends in the word. -/
theorem suffix_append_iff {word cs suffix : List Char} :
    word ++ suffix <:+ cs ++ suffix ↔ word <:+ cs := by
  rw [List.suffix_append_inj_of_length_eq rfl, and_iff_left rfl]

/-- A text ends in a word without slashes if its last component does. -/
theorem suffix_filePath_iff {word : List Char} (hword : '/' ∉ word) (directories : List String)
    (stem : String) : word <:+ (filePath directories stem).toList ↔ word <:+ stem.toList := by
  by_cases hnil : directories = []
  · rw [hnil, filePath, List.nil_append, String.intercalate_singleton]
  · have hpath : (filePath directories stem).toList =
        ("/".intercalate directories).toList ++ '/' :: stem.toList := by
      rw [filePath, String.intercalate_append_of_ne_nil hnil (by simp), String.intercalate_singleton,
        String.toList_append, String.toList_append, List.append_assoc]
      rfl
    rw [hpath]
    refine ⟨fun h => ?_, fun h => (h.trans (List.suffix_cons _ _)).trans (List.suffix_append _ _)⟩
    -- A word without a slash that stands at the end of the path cannot reach over the last slash.
    rcases List.suffix_or_suffix_of_suffix h (List.suffix_append _ _) with h | h
    · rcases List.suffix_cons_iff.1 h with h | h
      · exact absurd (h ▸ List.mem_cons_self) hword
      · exact h
    · exact absurd (h.subset List.mem_cons_self) hword

/-- A file passes for the file of a package as soon as its stem ends like the stem of one. -/
theorem isPackagePath_iff (directories : List String) (stem : String) {suffix : String}
    (hsuffix : suffix ∈ sourceSuffixes) :
    isPackagePath (filePath directories (stem ++ suffix)) ↔
      packageStem.toList <:+ stem.toList := by
  rw [← suffix_filePath_iff (by decide) directories stem, filePath_append, isPackagePath,
    String.toList_append, Bool.or_eq_true, List.isSuffixOf_iff_suffix, List.isSuffixOf_iff_suffix]
  generalize (filePath directories stem).toList = cs
  have hpy : "__init__.py".toList = packageStem.toList ++ ".py".toList := rfl
  have hpyi : "__init__.pyi".toList = packageStem.toList ++ ".pyi".toList := rfl
  -- Of the two endings only that of the file's own suffix can match, as the last characters differ.
  rcases List.mem_cons.1 hsuffix with rfl | h
  · have hstub : ¬"__init__.pyi".toList <:+ cs ++ ".py".toList := fun h => by
      have hlast := getLast?_eq_of_suffix h (by decide)
      simp [List.getLast?_append] at hlast
    rw [or_iff_left hstub, hpy, suffix_append_iff]
  · obtain rfl := List.mem_singleton.1 h
    have hplain : ¬"__init__.py".toList <:+ cs ++ ".pyi".toList := fun h => by
      have hlast := getLast?_eq_of_suffix h (by decide)
      simp [List.getLast?_append] at hlast
    rw [or_iff_right hplain, hpyi, suffix_append_iff]

/-! ### The file that a relative import points at -/

/-- The module of a source without a stem is too short, unless nothing of it is left anyway. -/
theorem take_stemless_iff {directories : List String} {module : Fqn} {level : Nat}
    (hlength : module.length ≤ max 1 directories.length) (hone : 1 ≤ level)
    (hlevel : level ≤ directories.length + 1) :
    module.segments.take (module.length - level) =
      directories.take (directories.length + 1 - level) ↔ level = directories.length + 1 := by
  refine ⟨fun h => ?_, fun h => ?_⟩
  · have hsame := congrArg List.length h
    rw [List.length_take, List.length_take, ← Fqn.length] at hsame
    omega
  · have hmodule : module.length - level = 0 := by omega
    have htarget : directories.length + 1 - level = 0 := by omega
    rw [hmodule, htarget, List.take_zero, List.take_zero]

/-- The module of the file of a package is as long as its directories, unless there are none. -/
theorem take_package_iff {directories : List String} {level : Nat} (hone : 1 ≤ level)
    (hlevel : level ≤ directories.length + 1) :
    (if directories = [] then Fqn.root fallbackModule else ⟨directories⟩).segments.take
        ((if directories = [] then Fqn.root fallbackModule else ⟨directories⟩).length - (level - 1)) =
      directories.take (directories.length + 1 - level) ↔ directories ≠ [] := by
  by_cases hnil : directories = []
  · subst hnil
    obtain rfl : level = 1 := Nat.le_antisymm hlevel hone
    simp [Fqn.root, Fqn.length]
  · have hclimb : directories.length - (level - 1) = directories.length + 1 - level := by omega
    rw [if_neg hnil, Fqn.length, hclimb]
    exact ⟨fun _ => hnil, fun _ => rfl⟩

/-- The module of a plain file has one segment more than its directories, so one dot more has to be
climbed than for a package. -/
theorem take_plain_iff {directories : List String} {stem : String} {level : Nat} {isPackage : Bool}
    (hone : 1 ≤ level) (hlevel : level ≤ directories.length + 1) :
    (directories ++ [stem]).take
        ((directories ++ [stem]).length - if isPackage then level - 1 else level) =
      directories.take (directories.length + 1 - level) ↔ isPackage = false := by
  rw [List.length_append, List.length_singleton]
  cases isPackage with
  | false =>
    refine ⟨fun _ => rfl, fun _ => List.take_append_of_le_length ?_⟩
    rw [if_neg Bool.false_ne_true]
    omega
  | true =>
    refine ⟨fun h => ?_, fun h => nomatch h⟩
    -- For a package one level less is taken off, which shows in the length.
    have hsame := congrArg List.length h
    rw [if_pos rfl, List.length_take, List.length_take, List.length_append,
      List.length_singleton] at hsame
    omega

/-- A relative import of a source names the module of the file that it points at, unless the source
has no stem and lies above the file, is the file of a package without a name, or only looks like the
file of a package. -/
theorem resolveSource_eq_moduleOfPath_iff {directories packages : List String}
    {stem suffix name : String} {level : Nat} (hdirectories : ∀ d ∈ directories, IsPathName d)
    (hstem : '/' ∉ stem.toList) (hsuffix : suffix ∈ sourceSuffixes)
    (hpackages : ∀ p ∈ packages, IsPlainName p) (hname : IsPlainName name)
    (hinit : name ≠ packageStem) (hone : 1 ≤ level) (hlevel : level ≤ directories.length + 1) :
    resolveSource (relativeSource level (packages ++ [name]))
        (moduleOfPath (filePath directories (stem ++ suffix)))
        (isPackagePath (filePath directories (stem ++ suffix))) =
      moduleOfPath (filePath (directories.take (directories.length + 1 - level) ++ packages)
        (name ++ ".py")) ↔
      (stem = "" → level = directories.length + 1) ∧ (stem = packageStem → directories ≠ []) ∧
        (packageStem.toList <:+ stem.toList → stem = packageStem) := by
  have hpath : ∀ p ∈ packages ++ [name], IsPlainName p := fun p hp => by
    rcases List.mem_append.1 hp with hp | hp
    · exact hpackages p hp
    · exact List.mem_singleton.1 hp ▸ hname
  have htarget : ∀ d ∈ directories.take (directories.length + 1 - level) ++ packages,
      IsPathName d := fun d hd => by
    rcases List.mem_append.1 hd with hd | hd
    · exact hdirectories d (List.mem_of_mem_take hd)
    · exact (hpackages d hd).isPathName
  have hpackage := isPackagePath_iff directories stem hsuffix
  rw [resolveSource_relativeSource hpath (by simp) hone,
    moduleOfPath_filePath htarget hname.isPathName.2 (by simp [sourceSuffixes]) hname.1 hinit,
    Fqn.mk.injEq, List.append_assoc, List.append_left_inj]
  -- Three kinds of stems: an empty one, that of a package, and any other.
  by_cases hempty : stem = ""
  · have hnotPackage : stem ≠ packageStem := hempty ▸ by decide
    have hnotSuffix : ¬packageStem.toList <:+ stem.toList := hempty ▸ by decide
    have hplain : isPackagePath (filePath directories (stem ++ suffix)) = false :=
      Bool.eq_false_iff.2 fun h => hnotSuffix (hpackage.1 h)
    rw [hplain, if_neg Bool.false_ne_true,
      take_stemless_iff (length_moduleOfPath_le hdirectories hsuffix hempty) hone hlevel]
    exact ⟨fun h => ⟨fun _ => h, fun h => absurd h hnotPackage, fun h => absurd h hnotSuffix⟩,
      fun h => h.1 hempty⟩
  by_cases hstemPackage : stem = packageStem
  · have hispackage : isPackagePath (filePath directories (stem ++ suffix)) = true :=
      hpackage.2 (hstemPackage ▸ List.suffix_rfl)
    have hmodule := moduleOfPath_package hdirectories hsuffix
    rw [← hstemPackage] at hmodule
    rw [hispackage, if_pos rfl, hmodule, take_package_iff hone hlevel]
    exact ⟨fun h => ⟨fun h => absurd h hempty, fun _ => h, fun _ => hstemPackage⟩,
      fun h => h.2.1 hstemPackage⟩
  · rw [moduleOfPath_filePath hdirectories hstem hsuffix hempty hstemPackage,
      Fqn.length, take_plain_iff hone hlevel, Bool.eq_false_iff, Ne, hpackage]
    exact ⟨fun h => ⟨fun he => absurd he hempty, fun he => absurd he hstemPackage,
      fun hs => absurd hs h⟩, fun h hs => hstemPackage (h.2.2 hs)⟩

/-- From a module in `pkg/sub`, two levels up leads to `pkg`. -/
theorem resolveSource_up_to_package :
    resolveSource (relativeSource 2 (["base"] ++ ["names"]))
        (moduleOfPath (filePath ["pkg", "sub"] ("mod" ++ ".py")))
        (isPackagePath (filePath ["pkg", "sub"] ("mod" ++ ".py"))) =
      moduleOfPath (filePath (["pkg", "sub"].take (2 + 1 - 2) ++ ["base"]) ("names" ++ ".py")) :=
  (resolveSource_eq_moduleOfPath_iff (by decide) (by decide) (by decide) (by decide) (by decide)
    (by decide) (by decide) (by decide)).2 (by decide)

/-- A plain module whose name ends like that of the file of a package finds `.x` below itself. -/
theorem exists_resolveSource_ne :
    ∃ directories stem name, (∀ d ∈ directories, IsPathName d) ∧ '/' ∉ stem.toList ∧
      stem ≠ packageStem ∧ IsPlainName name ∧ name ≠ packageStem ∧
      resolveSource (relativeSource 1 [name]) (moduleOfPath (filePath directories (stem ++ ".py")))
          (isPackagePath (filePath directories (stem ++ ".py"))) =
        (moduleOfPath (filePath directories (stem ++ ".py"))).child name ∧
      (moduleOfPath (filePath directories (stem ++ ".py"))).child name ≠
        moduleOfPath (filePath directories (name ++ ".py")) :=
  ⟨["pkg"], "my__init__", "x", by decide, by decide, by decide, by decide, by decide, by decide,
    by decide⟩

end NameAtlas.Python
