import Mathlib.Data.List.Nodup
import NameAtlas.FileSystem.Tree
import NameAtlas.Proofs.FileSystem.Path

/-!
# Trees of files

The files below an entry are what its names lead to (`mem_files_iff`), each found once
(`nodup_files`), if every directory has each name once (`IsTree`), as all do that are made by writing
and removing (`IsTree.put`). Since nothing links to another place, where a path leads is decided by
its components alone (`resolve?_eq`); so names that lead to an entry lead to it behind every spelling
of the directory that they start from (`resolve?_join_names`).
-/

namespace NameAtlas

namespace Entry

mutual

/-- True if every directory in an entry has each name once, and only names that a path can have. -/
def IsTree : Entry → Prop
  | .file _ => True
  | .directory es => (es.map Prod.fst).Nodup ∧ AreTrees es

/-- True if some entries have names that a path can have and are trees. -/
def AreTrees : List (String × Entry) → Prop
  | [] => True
  | (name, e) :: rest => IsEntryName name ∧ e.IsTree ∧ AreTrees rest

end

variable {e e' : Entry} {es : List (String × Entry)} {name : String} {names more : Route}
  {isKept : Route → Bool} {content : FileContent}

/-- Entries are trees if each of them has a name and is a tree. -/
theorem areTrees_iff : AreTrees es ↔ ∀ entry ∈ es, IsEntryName entry.1 ∧ entry.2.IsTree := by
  induction es with
  | nil => simp [AreTrees]
  | cons entry rest ih => rw [AreTrees, ih, List.forall_mem_cons, and_assoc]

/-! ### Entries by their names -/

/-- Names lead on from where the names in front of them lead. -/
theorem find?_append (names more : Route) (e : Entry) :
    e.find? (names ++ more) = (e.find? names).bind (find? more) := by
  induction names generalizing e with
  | nil => rfl
  | cons name names ih =>
    cases e with
    | file content => rfl
    | directory es =>
      rw [List.cons_append, find?, find?, Option.bind_assoc]
      exact congrArg _ (funext ih)

/-- In a tree a look-up gives exactly what the directory lists under the name. -/
theorem IsTree.lookup_iff (h : IsTree (.directory es)) :
    Table.lookup name es = some e ↔ (name, e) ∈ es := Table.lookup_eq_some_iff h.1 name e

/-- What is found in a tree is a tree, under names that a path can have. -/
theorem IsTree.of_find? (h : e.IsTree) (hfind : e.find? names = some e') :
    (∀ name ∈ names, IsEntryName name) ∧ e'.IsTree := by
  -- The induction is on the names: each look-up gives an entry of the directory, which is a tree
  -- again.
  induction names generalizing e with
  | nil =>
    obtain rfl := Option.some.inj hfind
    exact ⟨fun _ hmem => absurd hmem List.not_mem_nil, h⟩
  | cons name names ih =>
    cases e with
    | file content => cases hfind
    | directory es =>
      obtain ⟨below, hlookup, hfind⟩ := Option.bind_eq_some_iff.1 hfind
      obtain ⟨hname, hbelow⟩ := areTrees_iff.1 h.2 _ (h.lookup_iff.1 hlookup)
      obtain ⟨hnames, hfound⟩ := ih hbelow hfind
      exact ⟨List.forall_mem_cons.2 ⟨hname, hnames⟩, hfound⟩

/-! ### The files of an entry -/

/-- The files in a directory are those of its entries, with the name of the entry in front of their
routes. -/
theorem mem_filesIn_iff {f : Route × FileContent} :
    f ∈ filesIn isKept es ↔ ∃ entry ∈ es, isKept [entry.1] ∧
      ∃ g ∈ entry.2.files fun names => isKept (entry.1 :: names), f = (entry.1 :: g.1, g.2) := by
  induction es with
  | nil => simp [filesIn]
  | cons entry rest ih =>
    rw [filesIn, List.mem_append, ih, List.exists_mem_cons_iff]
    refine or_congr_left ?_
    split
    · next hkept => simp [hkept, eq_comm]
    · next hkept => simp [hkept]

/-- A file is among the files of an entry if its names lead to it and everything on the way is
kept. -/
theorem mem_files_iff (h : e.IsTree) :
    (names, content) ∈ e.files isKept ↔
      e.find? names = some (.file content) ∧ ∀ front, front <+: names → front ≠ [] → isKept front := by
  induction names generalizing e isKept with
  | nil =>
    have hfront : ∀ front : Route, front <+: [] → front ≠ [] → isKept front :=
      fun front hprefix hne => absurd (List.prefix_nil.1 hprefix) hne
    rw [and_iff_left hfront]
    cases e with
    | file c => simp [files, find?, eq_comm]
    | directory es => simp [files, find?, mem_filesIn_iff]
  | cons name names ih =>
    cases e with
    | file c => simp [files, find?]
    | directory es =>
      rw [files, mem_filesIn_iff, find?, Option.bind_eq_some_iff]
      constructor
      -- The front that consists of the first name is kept by its entry, and the longer ones are kept
      -- by what is below it.
      · rintro ⟨⟨_, below⟩, hentry, hkept, ⟨names, content⟩, hmem, heq⟩
        obtain ⟨hnames, rfl⟩ := Prod.mk.inj heq
        obtain ⟨rfl, rfl⟩ := List.cons.inj hnames
        obtain ⟨hfind, hfront⟩ := (ih (areTrees_iff.1 h.2 _ hentry).2).1 hmem
        refine ⟨⟨below, h.lookup_iff.2 hentry, hfind⟩, fun front hprefix hne => ?_⟩
        obtain ⟨first, behind, rfl⟩ := List.exists_cons_of_ne_nil hne
        obtain ⟨rfl, hbehind⟩ := List.cons_prefix_cons.1 hprefix
        by_cases hnil : behind = []
        · rwa [hnil]
        · exact hfront behind hbehind hnil
      · rintro ⟨⟨below, hlookup, hfind⟩, hfront⟩
        have hentry := h.lookup_iff.1 hlookup
        refine ⟨(name, below), hentry, hfront [name] ?_ (List.cons_ne_nil _ _), (names, content), ?_, rfl⟩
        · exact List.cons_prefix_cons.2 ⟨rfl, List.nil_prefix⟩
        · refine (ih (areTrees_iff.1 h.2 _ hentry).2).2 ⟨hfind, fun front hprefix _ => ?_⟩
          exact hfront (name :: front) (List.cons_prefix_cons.2 ⟨rfl, hprefix⟩) (List.cons_ne_nil _ _)

mutual

/-- No names come twice among the files of a tree. -/
theorem nodup_files (isKept : Route → Bool) : ∀ e : Entry, e.IsTree →
    ((e.files isKept).map Prod.fst).Nodup
  | .file _, _ => List.nodup_singleton _
  | .directory es, h => nodup_filesIn isKept es h.1 h.2

/-- No route is listed twice in a directory whose names are distinct. -/
theorem nodup_filesIn (isKept : Route → Bool) : ∀ es : List (String × Entry),
    (es.map Prod.fst).Nodup → AreTrees es → ((filesIn isKept es).map Prod.fst).Nodup
  | [], _, _ => List.nodup_nil
  | (name, e) :: rest, hnodup, h => by
    obtain ⟨hnew, hrest⟩ := List.nodup_cons.1 hnodup
    rw [filesIn, List.map_append, List.nodup_append']
    refine ⟨?_, nodup_filesIn isKept rest hrest h.2.2, ?_⟩
    · split
      · have hbelow := nodup_files (fun names => isKept (name :: names)) e h.2.1
        rw [List.map_map]
        have hmap := hbelow.map (f := (name :: ·)) (fun _ _ heq => (List.cons.inj heq).2)
        rwa [List.map_map] at hmap
      · exact List.nodup_nil
    -- What stands behind an entry starts with other names.
    · intro names hfirst hbehind
      obtain ⟨f, hf, rfl⟩ := List.mem_map.1 hfirst
      obtain ⟨g, hg, hnames⟩ := List.mem_map.1 hbehind
      obtain ⟨entry, hentry, -, below, -, rfl⟩ := mem_filesIn_iff.1 hg
      split at hf
      · obtain ⟨inside, -, rfl⟩ := List.mem_map.1 hf
        exact hnew (List.mem_map.2 ⟨entry, hentry, (List.cons.inj hnames).1⟩)
      · exact absurd hf List.not_mem_nil

end

/-! ### Changing entries -/

/-- A tree that is inserted under the name of an entry leaves trees. -/
theorem areTrees_insertEntry (h : AreTrees es) (hname : IsEntryName name) (he : e.IsTree) :
    AreTrees (Table.insertEntry name e es) := by
  induction es with
  | nil => exact ⟨hname, he, trivial⟩
  | cons entry rest ih =>
    obtain ⟨hentry, hbelow, hrest⟩ := h
    rw [Table.insertEntry]
    split
    · exact ⟨hname, he, hrest⟩
    · exact ⟨hentry, hbelow, ih hrest⟩

/-- Inserting a tree into a directory leaves a tree. -/
theorem IsTree.insertEntry (h : IsTree (.directory es)) (hname : IsEntryName name) (he : e.IsTree) :
    IsTree (.directory (Table.insertEntry name e es)) :=
  ⟨Table.nodup_insertEntry name e h.1, areTrees_insertEntry h.2 hname he⟩

/-- A change that makes trees of trees leaves a tree. -/
theorem IsTree.put {change : Option Entry → Option Entry} (h : e.IsTree)
    (hnames : ∀ name ∈ names, IsEntryName name)
    (hchange : ∀ old new, (∀ x ∈ old, Entry.IsTree x) → change old = some new → new.IsTree) :
    (e.put change names).IsTree := by
  induction names generalizing e with
  | nil =>
    rw [Entry.put]
    cases hnew : change (some e) with
    | none => exact h
    | some new =>
      refine hchange (some e) new (fun x hx => ?_) hnew
      obtain rfl := Option.some.inj hx
      exact h
  | cons name names ih =>
    cases e with
    | file content =>
      rw [Entry.put]
      exact trivial
    | directory es =>
      have hlookup : ∀ x ∈ Table.lookup name es, Entry.IsTree x := fun x hx =>
        (areTrees_iff.1 h.2 _ (h.lookup_iff.1 hx)).2
      have hname := hnames name List.mem_cons_self
      -- The change is made at the last name, and every name in front of it leads to a directory.
      cases names with
      | nil =>
        rw [Entry.put]
        split
        · next new hnew => exact h.insertEntry hname (hchange _ new hlookup hnew)
        · refine ⟨(List.filter_sublist.map Prod.fst).nodup h.1, areTrees_iff.2 fun entry hentry => ?_⟩
          exact areTrees_iff.1 h.2 entry (List.mem_filter.1 hentry).1
      | cons next names =>
        rw [Entry.put]
        · refine h.insertEntry hname (ih ?_ fun n hn => hnames n (List.mem_cons_of_mem name hn))
          cases hbelow : Table.lookup name es with
          | none => exact ⟨List.nodup_nil, trivial⟩
          | some below => exact hlookup below hbelow
        · exact List.cons_ne_nil _ _

end Entry

namespace FileSystem

open NameAtlas.Path

/-- True if every directory has each name once, and only names that a path can have. -/
def IsTree (fs : FileSystem) : Prop := fs.top.IsTree

variable {fs : FileSystem} {p base : Path} {route next : Route} {ps : List String} {names : Route}
  {piece : String} {e : Entry}

/-- A route may be followed in two parts. -/
theorem entryAt?_append (fs : FileSystem) (route names : Route) :
    fs.entryAt? (route ++ names) = (fs.entryAt? route).bind (Entry.find? names) :=
  Entry.find?_append route names fs.top

/-- The names on the way to an entry are names of entries. -/
theorem IsTree.isEntryName (h : fs.IsTree) (hentry : fs.entryAt? (route ++ names) = some e) :
    ∀ name ∈ names, IsEntryName name := fun name hname =>
  (Entry.IsTree.of_find? h hentry).1 name (List.mem_append_right route hname)

/-- What is found in a tree is a tree. -/
theorem IsTree.entryAt? (h : fs.IsTree) (hentry : fs.entryAt? route = some e) : e.IsTree :=
  (Entry.IsTree.of_find? h hentry).2

/-! ### Changing file systems -/

section Change

variable (h : fs.IsTree) (hnames : ∀ name ∈ route, IsEntryName name)

include h hnames

/-- Writing a file leaves a tree. -/
theorem IsTree.write (content : FileContent) : (fs.write route content).IsTree :=
  Entry.IsTree.put h hnames fun _ _ _ hnew => Option.some.inj hnew ▸ trivial

/-- Making a directory leaves a tree. -/
theorem IsTree.makeDirectory : (fs.makeDirectory route).IsTree := by
  refine Entry.IsTree.put h hnames fun old new hold hnew => ?_
  obtain rfl := Option.some.inj hnew
  cases old with
  | none => exact ⟨List.nodup_nil, trivial⟩
  | some e => exact hold e rfl

/-- Removing an entry leaves a tree. -/
theorem IsTree.remove : (fs.remove route).IsTree :=
  Entry.IsTree.put h hnames fun _ _ _ hnew => by cases hnew

end Change

/-! ### Resolving paths -/

/-- Where a component leads to. -/
def follow : Route → Component → Route
  | _, .top => []
  | route, .current => route
  | route, .parent => route.dropLast
  | route, .name name => route ++ [name]

/-- The step of a piece starts in a directory. -/
theorem exists_directory_of_step? (h : fs.step? route piece = some next) :
    ∃ es, fs.entryAt? route = some (.directory es) := by
  rw [step?] at h
  split at h
  · next es hes => exact ⟨es, hes⟩
  · cases h

/-- The step of a piece leads to where its component does. -/
theorem eq_of_step? (h : fs.step? route piece = some next) :
    next = (componentOf? piece).toList.foldl follow route := by
  rw [step?] at h
  -- The branches are those of `step?` and of `componentOf?`, which ask the same questions in the
  -- same order.
  split at h
  · rw [componentOf?]
    split at h
    · next hvoid =>
      rw [if_pos hvoid]
      exact (Option.some.inj h).symm
    · next hvoid =>
      rw [if_neg hvoid]
      split at h
      · next hparent =>
        rw [if_pos hparent]
        exact (Option.some.inj h).symm
      · next hparent =>
        rw [if_neg hparent]
        split at h
        · exact (Option.some.inj h).symm
        · cases h
  · cases h

/-- A route that resolves is what following the components gives. -/
theorem eq_of_foldlM_step? (h : ps.foldlM fs.step? route = some next) :
    next = (ps.filterMap componentOf?).foldl follow route := by
  induction ps generalizing route with
  | nil => exact (Option.some.inj h).symm
  | cons piece ps ih =>
    obtain ⟨middle, hstep, h⟩ := Option.bind_eq_some_iff.1 ((List.foldlM_cons ..).symm.trans h)
    rw [ih h, eq_of_step? hstep]
    cases hpiece : componentOf? piece with
    | none => rw [List.filterMap_cons_none hpiece]; rfl
    | some c => rw [List.filterMap_cons_some hpiece]; rfl

/-- Where a path leads is decided by its components. -/
theorem resolve?_eq (h : fs.resolve? p = some route) : route = p.components.foldl follow fs.current := by
  rw [resolve?] at h
  split at h
  · cases h
  · rw [eq_of_foldlM_step? h, components_eq, List.foldl_append]
    refine congrArg (List.foldl follow · p.inner) ?_
    rw [front?]
    split
    · rfl
    · split <;> rfl

/-- Following names appends them. -/
theorem foldl_follow_names (route names : Route) :
    (names.map Component.name).foldl follow route = route ++ names := by
  induction names generalizing route with
  | nil => exact (List.append_nil route).symm
  | cons name names ih =>
    rw [List.map_cons, List.foldl_cons, ih, follow, List.append_assoc]
    rfl

/-- A path that is written with some names behind those of a base leads to what is behind these names
there. -/
theorem resolve?_eq_append (hbase : fs.resolve? base = some route) (h : fs.resolve? p = some next)
    (hp : p.components = base.components ++ names.map .name) : next = route ++ names := by
  rw [resolve?_eq h, hp, List.foldl_append, ← resolve?_eq hbase, foldl_follow_names]

/-- The empty path does not resolve. -/
theorem text_ne_of_resolve? (h : fs.resolve? p = some route) : p.text ≠ "" := by
  intro hempty
  rw [resolve?, if_pos hempty] at h
  cases h

/-- A step leads to an entry. -/
theorem isSome_entryAt?_of_step? (h : fs.step? route piece = some next) :
    (fs.entryAt? next).isSome := by
  obtain ⟨es, hes⟩ := exists_directory_of_step? h
  rw [step?, hes] at h
  dsimp only at h
  split at h
  · obtain rfl := Option.some.inj h
    rw [hes]
    rfl
  · split at h
    · obtain rfl := Option.some.inj h
      -- What stands above an entry is an entry.
      rcases List.eq_nil_or_concat' route with rfl | ⟨above, name, rfl⟩
      · rw [List.dropLast_nil, hes]
        rfl
      · rw [List.dropLast_concat]
        rw [entryAt?_append] at hes
        exact Option.isSome_of_isSome_bind (Option.isSome_iff_exists.2 ⟨_, hes⟩)
    · split at h
      · next hlookup =>
        obtain rfl := Option.some.inj h
        obtain ⟨e, he⟩ := Option.isSome_iff_exists.1 hlookup
        rw [entryAt?_append, hes, Option.bind_some, Entry.find?, he]
        rfl
      · cases h

/-- There is an entry where a path resolves to. -/
theorem isSome_entryAt?_of_resolve? (h : fs.resolve? p = some route) : (fs.entryAt? route).isSome := by
  rw [resolve?] at h
  split at h
  · cases h
  · rw [← p.pieces.dropLast_append_getLast p.pieces_ne_nil, List.foldlM_append] at h
    obtain ⟨middle, -, h⟩ := Option.bind_eq_some_iff.1 h
    obtain ⟨last, hstep, h⟩ := Option.bind_eq_some_iff.1 ((List.foldlM_cons ..).symm.trans h)
    obtain rfl := Option.some.inj h
    exact isSome_entryAt?_of_step? hstep

/-- A path with a file resolves to the route of this file. -/
theorem exists_of_file? {content : FileContent} (h : fs.file? p = some content) :
    ∃ route, fs.resolve? p = some route ∧ fs.entryAt? route = some (.file content) := by
  rw [file?] at h
  split at h
  · next hentry =>
    obtain rfl := Option.some.inj h
    exact Option.bind_eq_some_iff.1 hentry
  · cases h

/-- The path of a file ends in a name. -/
theorem exists_pieces_of_file? {content : FileContent} (h : fs.file? p = some content) :
    ∃ front last, p.pieces = front ++ [last] ∧ IsEntryName last := by
  obtain ⟨route, hroute, hfile⟩ := exists_of_file? h
  have hpieces := p.pieces.dropLast_append_getLast p.pieces_ne_nil
  refine ⟨_, _, hpieces.symm, ?_⟩
  have hslash := slash_not_mem_of_mem_pieces (p.pieces.getLast_mem p.pieces_ne_nil)
  rw [resolve?, if_neg (text_ne_of_resolve? hroute), ← hpieces, List.foldlM_append] at hroute
  generalize p.pieces.getLast p.pieces_ne_nil = last at hroute hslash
  obtain ⟨middle, -, hroute⟩ := Option.bind_eq_some_iff.1 hroute
  obtain ⟨next, hstep, hroute⟩ := Option.bind_eq_some_iff.1 ((List.foldlM_cons ..).symm.trans hroute)
  obtain rfl := Option.some.inj hroute
  obtain ⟨es, hes⟩ := exists_directory_of_step? hstep
  rw [step?, hes] at hstep
  dsimp only at hstep
  -- What stands for nothing leads to the directory that it starts in, and two dots to one above it.
  split at hstep
  · obtain rfl := Option.some.inj hstep
    cases hes.symm.trans hfile
  · next hvoid =>
    split at hstep
    · obtain rfl := Option.some.inj hstep
      rcases List.eq_nil_or_concat' middle with rfl | ⟨above, name, rfl⟩
      · cases hes.symm.trans hfile
      · rw [List.dropLast_concat] at hfile
        rw [entryAt?_append, hfile] at hes
        cases hes
    · next hparent =>
      rw [isVoid, Bool.or_eq_true, decide_eq_true_eq, decide_eq_true_eq, not_or] at hvoid
      exact ⟨⟨hvoid.1, hslash⟩, hvoid.2, hparent⟩

/-- A path that is a directory resolves to a route with a directory. -/
theorem exists_of_isDirectory (h : fs.isDirectory p) :
    ∃ route es, fs.resolve? p = some route ∧ fs.entryAt? route = some (.directory es) := by
  rw [isDirectory] at h
  split at h
  · next es hentry =>
    obtain ⟨route, hroute, hentry⟩ := Option.bind_eq_some_iff.1 hentry
    exact ⟨route, es, hroute, hentry⟩
  · cases h

/-- A path is resolved from where the path that it is joined to leads. -/
theorem resolve?_join (hbase : fs.resolve? base = some route) (hp : p.isAbsolute = false) :
    fs.resolve? (base.join p) = p.pieces.foldlM fs.step? route := by
  have htext := text_ne_of_resolve? hbase
  obtain ⟨ps, hne, hpieces, hjoin⟩ := exists_pieces_join htext hp
  rw [resolve?, if_neg htext] at hbase
  rw [resolve?, if_neg (text_join_ne htext hp), hjoin, List.foldlM_append, isAbsolute_join htext hp]
  rcases hpieces with hpieces | hpieces
  · rw [← hpieces, hbase]
    rfl
  -- A slash at the end of the base leads nowhere else.
  · rw [hpieces, List.foldlM_append] at hbase
    obtain ⟨middle, hmiddle, hlast⟩ := Option.bind_eq_some_iff.1 hbase
    obtain rfl := eq_of_foldlM_step? hlast
    rw [hmiddle]
    rfl

/-- Names that lead to an entry are followed step by step. -/
theorem foldlM_step?_names (hnames : ∀ name ∈ names, IsEntryName name)
    (hentry : (fs.entryAt? (route ++ names)).isSome) :
    names.foldlM fs.step? route = some (route ++ names) := by
  -- The induction is on the names: there is an entry at the end of the route, so there is a
  -- directory at every step.
  induction names generalizing route with
  | nil => rw [List.append_nil]; rfl
  | cons name names ih =>
    have hstep : fs.step? route name = some (route ++ [name]) := by
      obtain ⟨hpath, hdot, hparent⟩ := hnames name List.mem_cons_self
      have hvoid : isVoid name = false := by simp [isVoid, hpath.1, hdot]
      rw [entryAt?_append] at hentry
      obtain ⟨e, he⟩ := Option.isSome_iff_exists.1 (Option.isSome_of_isSome_bind hentry)
      rw [he, Option.bind_some] at hentry
      cases e with
      | file content => cases hentry
      | directory es =>
        rw [Entry.find?] at hentry
        simp [step?, he, hvoid, hparent, Option.isSome_of_isSome_bind hentry]
    have hrest : names.foldlM fs.step? (route ++ [name]) = some (route ++ [name] ++ names) :=
      ih (fun n hn => hnames n (List.mem_cons_of_mem name hn)) (by rwa [List.append_assoc])
    rw [List.foldlM_cons, hstep]
    refine hrest.trans ?_
    rw [List.append_assoc]
    rfl

/-- Names that lead from a directory to an entry lead to it behind any path of the directory. -/
theorem resolve?_join_names (hbase : fs.resolve? base = some route) (hne : names ≠ [])
    (hnames : ∀ name ∈ names, IsEntryName name) (hentry : (fs.entryAt? (route ++ names)).isSome) :
    fs.resolve? (base.join ⟨"/".intercalate names⟩) = some (route ++ names) := by
  have hpieces := pieces_intercalate hne fun name hname => (hnames name hname).1.2
  rw [resolve?_join hbase (isAbsolute_of_front? (front?_intercalate_names hnames)), hpieces,
    foldlM_step?_names hnames hentry]

end FileSystem

end NameAtlas
