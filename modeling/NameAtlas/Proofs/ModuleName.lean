import NameAtlas.ModuleName
import NameAtlas.Proofs.Text.Split

/-!
# The module of a file

The path of a Python source is made of directories, a stem and a suffix (`filePath`). Its module is
named by the directories and the stem (`moduleOfPath_filePath`), except that the file of a package
has the name of its directory (`moduleOfPath_package`).
-/

namespace NameAtlas

/-- The path of a file below some directories. -/
def filePath (directories : List String) (file : String) : String :=
  "/".intercalate (directories ++ [file])

/-- True for a name that can stand between the slashes of a path. -/
def IsPathName (name : String) : Prop := name ≠ "" ∧ '/' ∉ name.toList

instance (name : String) : Decidable (IsPathName name) := inferInstanceAs (Decidable (_ ∧ _))

/-- The suffixes of Python sources. -/
def sourceSuffixes : List String := [".py", ".pyi"]

/-- The stem with which the file of a package is named. -/
def packageStem : String := "__init__"

/-! ### Paths and their parts -/

/-- A suffix may be appended to the last name before or behind joining. -/
theorem intercalate_concat_append (sep : String) (names : List String) (stem suffix : String) :
    sep.intercalate (names ++ [stem ++ suffix]) = sep.intercalate (names ++ [stem]) ++ suffix := by
  induction names with
  | nil => simp
  | cons name names ih =>
    rw [List.cons_append, List.cons_append, String.intercalate_cons_of_ne_nil (by simp),
      String.intercalate_cons_of_ne_nil (by simp), ih, ← String.append_assoc]

/-- The suffix of a path is that of its last component. -/
theorem filePath_append (directories : List String) (stem suffix : String) :
    filePath directories (stem ++ suffix) = filePath directories stem ++ suffix :=
  intercalate_concat_append "/" directories stem suffix

/-- A suffix that was appended is dropped again. -/
theorem dropSuffix?_append (cs suffix : List Char) : dropSuffix? suffix (cs ++ suffix) = some cs := by
  have hsuffix : suffix.isSuffixOf (cs ++ suffix) := List.isSuffixOf_iff_suffix.2 (List.suffix_append _ _)
  have hlength : (cs ++ suffix).length - suffix.length = cs.length := by
    rw [List.length_append, Nat.add_sub_cancel]
  rw [dropSuffix?, if_pos hsuffix, hlength, List.take_left]

/-- A list ends as the part of it ends in which it ends. -/
theorem getLast?_eq_of_suffix {as bs : List Char} (h : as <:+ bs) (hne : as ≠ []) :
    as.getLast? = bs.getLast? := by
  obtain ⟨front, rfl⟩ := h
  rw [List.getLast?_append, List.getLast?_eq_some_getLast hne, Option.some_or]

/-- Each suffix of a Python source is dropped, whatever stands in front of it. -/
theorem stripSourceSuffix_append (cs : List Char) {suffix : String} (h : suffix ∈ sourceSuffixes) :
    stripSourceSuffix (cs ++ suffix.toList) = cs := by
  rcases List.mem_cons.1 h with rfl | h
  · -- What ends in `.py` does not end in `.pyi`, because the last letters differ.
    have hstub : dropSuffix? ".pyi".toList (cs ++ ".py".toList) = none := by
      refine if_neg fun hsuffix => ?_
      have hlast := getLast?_eq_of_suffix (List.isSuffixOf_iff_suffix.1 hsuffix) (by decide)
      simp [List.getLast?_append] at hlast
    rw [stripSourceSuffix, hstub, dropSuffix?_append, Option.getD_some]
  · obtain rfl := List.mem_singleton.1 h
    rw [stripSourceSuffix, dropSuffix?_append]

/-- Names of a path are components as they are. -/
theorem filterMap_ofList_names {names : List String} (h : ∀ d ∈ names, IsPathName d) :
    (names.map String.toList).filterMap
      (fun s => if s = [] then none else some (String.ofList s)) = names := by
  induction names with
  | nil => rfl
  | cons name names ih =>
    have hne : name.toList ≠ [] := by simpa using (h name List.mem_cons_self).1
    rw [List.map_cons, List.filterMap_cons, if_neg hne, String.ofList_toList,
      ih fun d hd => h d (List.mem_cons_of_mem name hd)]

/-- A path has the names it is made of as its components, without a last one that is empty. -/
theorem pathSegments_filePath {directories : List String} {stem : String}
    (hdirectories : ∀ d ∈ directories, IsPathName d) (hstem : '/' ∉ stem.toList) :
    pathSegments (filePath directories stem).toList =
      directories ++ if stem = "" then [] else [stem] := by
  -- Names hold no slash, so splitting gives back the directories and the stem.
  have hsplit : Text.splitAt '/' (filePath directories stem).toList =
      (directories ++ [stem]).map String.toList := by
    rw [filePath, String.toList_intercalate]
    refine Text.splitAt_intercalate (by simp) fun part hpart => ?_
    obtain ⟨name, hname, rfl⟩ := List.mem_map.1 hpart
    rcases List.mem_append.1 hname with hname | hname
    · exact (hdirectories name hname).2
    · exact List.mem_singleton.1 hname ▸ hstem
  rw [pathSegments, hsplit, List.map_append, List.filterMap_append,
    filterMap_ofList_names hdirectories]
  congr 1
  by_cases h : stem = ""
  · subst h
    rfl
  · have hne : stem.toList ≠ [] := by simpa using h
    rw [if_neg h, List.map_singleton, List.filterMap_cons, if_neg hne, String.ofList_toList]
    rfl

/-! ### Modules -/

section

variable {directories : List String} {stem suffix : String}
  (hdirectories : ∀ d ∈ directories, IsPathName d) (hstem : '/' ∉ stem.toList)
  (hsuffix : suffix ∈ sourceSuffixes)

include hdirectories hsuffix

include hstem in
/-- The segments of a source are its directories and its stem, if it is not empty. -/
theorem pathSegments_source :
    pathSegments (stripSourceSuffix (filePath directories (stem ++ suffix)).toList) =
      directories ++ if stem = "" then [] else [stem] := by
  rw [filePath_append, String.toList_append, stripSourceSuffix_append _ hsuffix,
    pathSegments_filePath hdirectories hstem]

include hstem in
/-- The module of a source is named by its directories and its stem. -/
theorem moduleOfPath_filePath (hne : stem ≠ "") (hinit : stem ≠ packageStem) :
    moduleOfPath (filePath directories (stem ++ suffix)) = ⟨directories ++ [stem]⟩ := by
  have hlast : (directories ++ [stem]).getLast? ≠ some "__init__" := by
    simpa [List.getLast?_append, packageStem] using hinit
  simp only [moduleOfPath, pathSegments_source hdirectories hstem hsuffix, if_neg hne, if_neg hlast]
  exact if_neg (by simp)

/-- The module of the file of a package is named by its directories. -/
theorem moduleOfPath_package :
    moduleOfPath (filePath directories (packageStem ++ suffix)) =
      if directories = [] then .root fallbackModule else ⟨directories⟩ := by
  have hlast : (directories ++ [packageStem]).getLast? = some "__init__" := by
    simp [List.getLast?_append, packageStem]
  have hstem : '/' ∉ packageStem.toList := by decide
  simp only [moduleOfPath, pathSegments_source hdirectories hstem hsuffix,
    if_neg (show packageStem ≠ "" by decide), if_pos hlast, List.dropLast_concat]

/-- A source without a stem has no name of its own in its module. -/
theorem length_moduleOfPath_le (hempty : stem = "") :
    (moduleOfPath (filePath directories (stem ++ suffix))).length ≤ max 1 directories.length := by
  subst hempty
  -- Dropping an `__init__` at the end only makes the list shorter.
  have hshort : (if directories.getLast? = some "__init__" then directories.dropLast
      else directories).length ≤ directories.length := by
    split
    · exact (List.dropLast_sublist _).length_le
    · exact Nat.le_refl _
  have hstem : '/' ∉ "".toList := by decide
  simp only [moduleOfPath, pathSegments_source hdirectories hstem hsuffix,
    if_true, List.append_nil]
  generalize (if directories.getLast? = some "__init__" then directories.dropLast
    else directories) = segments at hshort ⊢
  by_cases hnil : segments = []
  · rw [if_pos hnil]
    exact Nat.le_max_left _ _
  · rw [if_neg hnil]
    exact Nat.le_trans hshort (Nat.le_max_right _ _)

end

end NameAtlas
