import Mathlib.Data.List.DropRight
import NameAtlas.FileSystem.Path
import NameAtlas.Proofs.ModuleName

/-!
# The components of a path

Joining paths appends their components (`components_join`), however the slashes between them are
written, and taking a path relative to another one takes the components of the other one off
(`components_of_relativeTo?`), which works just if it starts with them (`isSome_relativeTo?_iff`). So
what is known of the components of a path is known of all its spellings.
-/

namespace NameAtlas

/-- True for a name that something in a directory can have. -/
def IsEntryName (name : String) : Prop := IsPathName name ∧ name ≠ "." ∧ name ≠ ".."

instance (name : String) : Decidable (IsEntryName name) := inferInstanceAs (Decidable (_ ∧ _))

namespace Path

/-- The components behind the front. -/
def inner (p : Path) : List Component := p.pieces.filterMap componentOf?

/-- True for a path that is written as a base with names behind it. -/
def IsBehind (p base : Path) : Prop :=
  ∃ names : List String, p.components = base.components ++ names.map .name

variable {p base : Path} {piece : String} {ps rest : List String} {cs ds : List Component}

/-! ### Pieces -/

/-- A path has at least one piece, if only an empty one. -/
theorem pieces_ne_nil (p : Path) : p.pieces ≠ [] := by
  rw [pieces, Ne, List.map_eq_nil_iff]
  exact Text.splitAt_ne_nil '/' p.text.toList

/-- Pieces hold no slash, as they are what lies between the slashes. -/
theorem slash_not_mem_of_mem_pieces (h : piece ∈ p.pieces) : '/' ∉ piece.toList := by
  obtain ⟨part, hpart, rfl⟩ := List.mem_map.1 h
  rw [String.toList_ofList]
  exact Text.not_mem_of_mem_splitAt hpart

/-- The text of a path is its pieces with slashes between them. -/
theorem intercalate_pieces (p : Path) : "/".intercalate p.pieces = p.text := by
  apply String.toList_inj.1
  rw [String.toList_intercalate, pieces, List.map_map]
  have hid : String.toList ∘ String.ofList = id := funext fun cs => String.toList_ofList
  rw [hid, List.map_id]
  exact Text.intercalate_splitAt '/' p.text.toList

/-- Pieces without slashes are the pieces of the path that is made of them. -/
theorem pieces_intercalate (hne : ps ≠ []) (h : ∀ piece ∈ ps, '/' ∉ piece.toList) :
    (⟨"/".intercalate ps⟩ : Path).pieces = ps := by
  have hsplit : Text.splitAt '/' ("/".intercalate ps).toList = ps.map String.toList := by
    rw [String.toList_intercalate]
    refine Text.splitAt_intercalate (by simpa using hne) fun part hpart => ?_
    obtain ⟨piece, hpiece, rfl⟩ := List.mem_map.1 hpart
    exact h piece hpiece
  have hid : String.ofList ∘ String.toList = id := funext fun s => String.ofList_toList
  rw [pieces, hsplit, List.map_map, hid, List.map_id]

/-- A character other than the slash stands in the text exactly if it stands in a piece. -/
theorem mem_text_iff {c : Char} (hne : c ≠ '/') :
    c ∈ p.text.toList ↔ ∃ piece ∈ p.pieces, c ∈ piece.toList := by
  rw [Text.mem_iff_mem_splitAt hne, pieces]
  simp [List.mem_map]

/-- A void piece is no component. -/
theorem componentOf?_of_isVoid (h : isVoid piece = true) : componentOf? piece = none := if_pos h

/-- The void pieces are the only ones that are no components. -/
theorem componentOf?_eq_none_iff : componentOf? piece = none ↔ isVoid piece = true := by
  rw [componentOf?]
  split
  · next h => simp [h]
  · next h => split <;> simp [h]

/-- The pieces that name an entry are the names of entries, if they hold no slash. -/
theorem componentOf?_eq_name_iff {name : String} (h : '/' ∉ piece.toList) :
    componentOf? piece = some (.name name) ↔ piece = name ∧ IsEntryName name := by
  rw [componentOf?, IsEntryName, IsPathName]
  split
  -- A void piece is no name, and `..` is none either; every other piece is one.
  · next hvoid =>
    rw [isVoid, Bool.or_eq_true, decide_eq_true_eq, decide_eq_true_eq] at hvoid
    simp only [reduceCtorEq, false_iff, not_and, and_imp]
    rintro rfl hempty - hdot
    exact absurd hvoid (by simp [hempty, hdot])
  · next hvoid =>
    rw [isVoid, Bool.or_eq_true, decide_eq_true_eq, decide_eq_true_eq, not_or] at hvoid
    split
    · next hparent =>
      simp only [Option.some.injEq, reduceCtorEq, false_iff, not_and]
      rintro rfl - -
      exact absurd hparent
    · next hparent =>
      simp only [Option.some.injEq, Component.name.injEq]
      constructor
      · rintro rfl
        exact ⟨rfl, ⟨hvoid.1, h⟩, hvoid.2, hparent⟩
      · exact fun heq => heq.1

/-- The name of an entry is a component. -/
theorem componentOf?_name (h : IsEntryName piece) : componentOf? piece = some (.name piece) :=
  (componentOf?_eq_name_iff h.1.2).2 ⟨rfl, h⟩

/-- Pieces without those at either end that stand for nothing. -/
def trimmed (ps : List String) : List String := (ps.dropWhile isVoid).rdropWhile isVoid

/-- What is trimmed at the end is a part of what is trimmed at the front only. -/
theorem trimmed_isPrefix (ps : List String) : trimmed ps <+: ps.dropWhile isVoid :=
  List.rdropWhile_prefix isVoid _

/-- Trimming only leaves pieces out. -/
theorem trimmed_sublist (ps : List String) : (trimmed ps).Sublist ps :=
  (trimmed_isPrefix ps).sublist.trans (List.dropWhile_sublist _)

/-- What stands for nothing has no components. -/
theorem filterMap_trimmed (ps : List String) :
    (trimmed ps).filterMap componentOf? = ps.filterMap componentOf? := by
  -- It is enough to look at the front, as the end is the front of the reversed list.
  have hfront : ∀ qs : List String,
      (qs.dropWhile isVoid).filterMap componentOf? = qs.filterMap componentOf? := by
    intro qs
    induction qs with
    | nil => rfl
    | cons piece qs ih =>
      by_cases hvoid : isVoid piece
      · rw [List.dropWhile_cons_of_pos hvoid, ih,
          List.filterMap_cons_none (componentOf?_of_isVoid hvoid)]
      · rw [List.dropWhile_cons_of_neg (by simpa using hvoid)]
  rw [trimmed, List.rdropWhile, List.filterMap_reverse, hfront, ← List.filterMap_reverse,
    List.reverse_reverse, hfront]

/-- Behind trimming the first piece is not void. -/
theorem isVoid_head_trimmed (h : trimmed ps = piece :: rest) : isVoid piece = false := by
  obtain ⟨behind, hbehind⟩ := trimmed_isPrefix ps
  have hhead := List.head?_dropWhile_not isVoid ps
  rw [← hbehind, h, List.cons_append, List.head?_cons] at hhead
  exact hhead

/-! ### Components -/

/-- The front of a path is a piece that stands for nothing elsewhere. -/
theorem exists_void_of_front? (h : p.front?.isSome) :
    ∃ piece rest, p.pieces = piece :: rest ∧ isVoid piece := by
  obtain ⟨piece, rest, hpieces⟩ := List.exists_cons_of_ne_nil p.pieces_ne_nil
  refine ⟨piece, rest, hpieces, ?_⟩
  -- A path has a front if it is absolute, and then its first piece is empty, or if its first piece
  -- is a dot.
  rw [front?] at h
  split at h
  · next habsolute =>
    rw [isAbsolute, decide_eq_true_eq, List.head?_eq_some_iff] at habsolute
    obtain ⟨cs, htext⟩ := habsolute
    rw [pieces, htext, Text.splitAt, if_pos rfl, List.map_cons, List.cons.injEq] at hpieces
    rw [← hpieces.1]
    rfl
  · split at h
    · next hdot =>
      rw [hpieces, List.head?_cons, Option.some.injEq] at hdot
      rw [hdot]
      rfl
    · simp at h

/-- The components are the front, if there is one, and those of the pieces. -/
theorem components_eq (p : Path) : p.components = p.front?.toList ++ p.inner := by
  rw [components, body, inner]
  split
  · next hfront =>
    obtain ⟨piece, rest, hpieces, hvoid⟩ := exists_void_of_front? hfront
    rw [hpieces, List.tail_cons, List.filterMap_cons_none (componentOf?_of_isVoid hvoid)]
  · rfl

/-- The components of an absolute path begin with the top. -/
theorem components_eq_top_cons (h : p.isAbsolute) : p.components = .top :: p.inner := by
  rw [components_eq, front?, if_pos h]
  rfl

/-- The body has all inner components, as what it lacks is void. -/
theorem filterMap_body (p : Path) : p.body.filterMap componentOf? = p.inner :=
  List.append_cancel_left (p.components_eq : _ ++ _ = _)

/-- Behind the front only names and two dots are components. -/
theorem eq_parent_or_name_of_mem_inner {c : Component} (h : c ∈ p.inner) :
    c = .parent ∨ ∃ name, c = .name name := by
  obtain ⟨piece, -, hpiece⟩ := List.mem_filterMap.1 h
  rw [componentOf?] at hpiece
  split at hpiece
  · cases hpiece
  · split at hpiece
    · exact .inl (Option.some.inj hpiece).symm
    · exact .inr ⟨piece, (Option.some.inj hpiece).symm⟩

/-- A path that is not empty has a component. -/
theorem components_ne_nil (h : p.text ≠ "") : p.components ≠ [] := by
  rw [components_eq, Ne, List.append_eq_nil_iff]
  rintro ⟨hfront, hinner⟩
  rw [Option.toList_eq_nil_iff, front?] at hfront
  split at hfront
  · cases hfront
  next habsolute =>
  split at hfront
  · cases hfront
  next hdot =>
  -- The first piece stands for something, since it is neither a dot nor what stands before a slash.
  obtain ⟨piece, rest, hpieces⟩ := List.exists_cons_of_ne_nil p.pieces_ne_nil
  rw [inner, List.filterMap_eq_nil_iff, hpieces, List.forall_mem_cons, componentOf?_eq_none_iff,
    isVoid, Bool.or_eq_true, decide_eq_true_eq, decide_eq_true_eq] at hinner
  rw [hpieces, List.head?_cons, Option.some.injEq] at hdot
  have hempty : piece = "" := hinner.1.resolve_right hdot
  have htext := p.intercalate_pieces
  rw [hpieces, hempty] at htext
  cases rest with
  | nil => exact h (htext.symm.trans (String.intercalate_singleton ..))
  | cons next rest =>
    rw [String.intercalate_cons_cons] at htext
    rw [isAbsolute, ← htext] at habsolute
    simp at habsolute

/-- A path written from pieces has these pieces, trimmed. -/
theorem pieces_ofPieces (hne : trimmed ps ≠ []) (h : ∀ piece ∈ ps, '/' ∉ piece.toList) :
    (ofPieces ps).pieces = trimmed ps :=
  pieces_intercalate hne fun piece hpiece => h piece ((trimmed_sublist ps).subset hpiece)

/-- The path of some pieces has their components, whatever stands for nothing among them. -/
theorem components_ofPieces (h : ∀ piece ∈ ps, '/' ∉ piece.toList) :
    (ofPieces ps).components = ps.filterMap componentOf? := by
  rw [components_eq, ← filterMap_trimmed]
  cases htrimmed : trimmed ps with
  | nil =>
    -- If only void pieces are left, the path is empty and has no components.
    have hempty : ofPieces ps = ⟨""⟩ :=
      congrArg (fun qs => (⟨"/".intercalate qs⟩ : Path)) htrimmed
    rw [hempty]
    rfl
  | cons piece rest =>
    have hpieces := pieces_ofPieces (by rw [htrimmed]; exact List.cons_ne_nil _ _) h
    rw [htrimmed] at hpieces
    have hfront : (ofPieces ps).front? = none := by
      -- A front would make the first piece void, which trimming excludes.
      refine Option.not_isSome_iff_eq_none.1 fun hsome => ?_
      obtain ⟨first, behind, hfirst, hvoid⟩ := exists_void_of_front? hsome
      obtain ⟨rfl, -⟩ := List.cons.inj (hpieces.symm.trans hfirst)
      rw [isVoid_head_trimmed htrimmed] at hvoid
      cases hvoid
    rw [hfront, inner, hpieces]
    rfl

/-! ### Joining -/

/-- The pieces of a joined path are those of its parts, without one for a slash at the end. -/
theorem exists_pieces_join (hbase : base.text ≠ "") (hp : p.isAbsolute = false) :
    ∃ ps, ps ≠ [] ∧ (base.pieces = ps ∨ base.pieces = ps ++ [""]) ∧
      (base.join p).pieces = ps ++ p.pieces := by
  -- The base may end in a slash, which then stands for the one that joins the paths.
  by_cases hslash : base.text.toList.getLast? = some '/'
  · obtain ⟨front, hfront⟩ := List.getLast?_eq_some_iff.1 hslash
    refine ⟨(Text.splitAt '/' front).map String.ofList, ?_, .inr ?_, ?_⟩
    · simpa using Text.splitAt_ne_nil '/' front
    · rw [pieces, hfront, Text.splitAt_append_sep, List.map_append]
      rfl
    · have htext : (base.join p).text.toList = front ++ '/' :: p.text.toList := by
        simp [join, hp, hfront]
      rw [pieces, htext, Text.splitAt_append_sep, List.map_append]
      rfl
  · refine ⟨base.pieces, base.pieces_ne_nil, .inl rfl, ?_⟩
    have htext : (base.join p).text.toList = base.text.toList ++ '/' :: p.text.toList := by
      simp [join, hp, hslash, hbase]
    rw [pieces, htext, Text.splitAt_append_sep, List.map_append]
    rfl

/-- A joined path is not empty. -/
theorem text_join_ne (hbase : base.text ≠ "") (hp : p.isAbsolute = false) :
    (base.join p).text ≠ "" := by
  rw [join, hp]
  split
  · contradiction
  · split <;> simp [hbase]

/-- A path that is joined to a base is absolute if the base is. -/
theorem isAbsolute_join (hbase : base.text ≠ "") (hp : p.isAbsolute = false) :
    (base.join p).isAbsolute = base.isAbsolute := by
  obtain ⟨c, cs, hcs⟩ := List.exists_cons_of_ne_nil (show base.text.toList ≠ [] by simpa using hbase)
  have htext : (base.join p).text.toList.head? = some c := by
    rw [join, hp]
    split
    · contradiction
    · split <;> simp [hcs]
  rw [isAbsolute, htext, isAbsolute, hcs, List.head?_cons]

/-- A path that is joined to a base has the front of the base. -/
theorem front?_join (hbase : base.text ≠ "") (hp : p.isAbsolute = false) :
    (base.join p).front? = base.front? := by
  obtain ⟨ps, hne, hpieces, hjoin⟩ := exists_pieces_join hbase hp
  obtain ⟨piece, rest, rfl⟩ := List.exists_cons_of_ne_nil hne
  have hhead : (base.join p).pieces.head? = base.pieces.head? := by
    rw [hjoin]
    rcases hpieces with hpieces | hpieces <;> rw [hpieces] <;> rfl
  rw [front?, hhead, isAbsolute_join hbase hp, front?]

/-- Joining appends components. -/
theorem components_join (hbase : base.text ≠ "") (hp : p.isAbsolute = false) :
    (base.join p).components = base.components ++ p.inner := by
  obtain ⟨ps, -, hpieces, hjoin⟩ := exists_pieces_join hbase hp
  have hinner : base.inner = ps.filterMap componentOf? := by
    rcases hpieces with hpieces | hpieces <;> rw [inner, hpieces]
    rw [List.filterMap_append, List.filterMap_cons_none (componentOf?_of_isVoid rfl)]
    exact List.append_nil _
  rw [components_eq, front?_join hbase hp, components_eq base, List.append_assoc, hinner, inner,
    hjoin, List.filterMap_append]
  rfl

/-- A path that is absolute stays as it is. -/
theorem join_of_isAbsolute (hp : p.isAbsolute = true) : base.join p = p := by
  rw [join, if_pos hp]

section Names

variable {name : String} {names : List String}

/-- A path without a front is not absolute. -/
theorem isAbsolute_of_front? (h : p.front? = none) : p.isAbsolute = false := by
  rw [front?] at h
  split at h
  · cases h
  · next habsolute => exact Bool.eq_false_iff.2 habsolute

/-- Names that are joined by slashes make a relative path with these names as its components. -/
theorem front?_intercalate_names (hnames : ∀ name ∈ names, IsEntryName name) :
    (⟨"/".intercalate names⟩ : Path).front? = none := by
  cases names with
  | nil => rfl
  | cons name names =>
    have hpieces := pieces_intercalate (List.cons_ne_nil name names) fun n hn => (hnames n hn).1.2
    refine Option.not_isSome_iff_eq_none.1 fun hsome => ?_
    obtain ⟨first, behind, hfirst, hvoid⟩ := exists_void_of_front? hsome
    obtain ⟨rfl, -⟩ := List.cons.inj (hpieces.symm.trans hfirst)
    have hname := componentOf?_name (hnames name List.mem_cons_self)
    rw [componentOf?_of_isVoid hvoid] at hname
    cases hname

/-- Names of entries are read as themselves. -/
theorem filterMap_componentOf?_names (hnames : ∀ name ∈ names, IsEntryName name) :
    names.filterMap componentOf? = names.map .name := by
  induction names with
  | nil => rfl
  | cons name names ih =>
    rw [List.filterMap_cons_some (componentOf?_name (hnames name List.mem_cons_self)),
      ih fun n hn => hnames n (List.mem_cons_of_mem name hn)]
    rfl

/-- A path of one name has this name as its only component. -/
theorem inner_name (h : IsEntryName name) : (⟨name⟩ : Path).inner = [.name name] := by
  have hpieces := pieces_intercalate (List.cons_ne_nil name []) (by simpa using h.1.2)
  rw [String.intercalate_singleton] at hpieces
  rw [inner, hpieces]
  exact filterMap_componentOf?_names (by simpa using h)

/-- A name is no absolute path. -/
theorem isAbsolute_name (h : IsEntryName name) : (⟨name⟩ : Path).isAbsolute = false := by
  have hfront : (⟨"/".intercalate [name]⟩ : Path).front? = none :=
    front?_intercalate_names (by simpa using h)
  rw [String.intercalate_singleton] at hfront
  exact isAbsolute_of_front? hfront

/-- What some names lead to has these names behind the components of the base. -/
theorem components_descend (hbase : base.text ≠ "") (hnames : ∀ name ∈ names, IsEntryName name) :
    (base.descend names).components = base.components ++ names.map .name := by
  induction names generalizing base with
  | nil => exact (List.append_nil _).symm
  | cons name names ih =>
    have hname := hnames name List.mem_cons_self
    have hrelative := isAbsolute_name hname
    rw [descend, List.foldl_cons]
    refine (ih (text_join_ne hbase hrelative) fun n hn => hnames n (List.mem_cons_of_mem _ hn)).trans ?_
    rw [components_join hbase hrelative, inner_name hname, List.append_assoc]
    rfl

/-- Names with slashes between them are read as themselves. -/
theorem inner_intercalate_names (hnames : ∀ name ∈ names, IsEntryName name) :
    (⟨"/".intercalate names⟩ : Path).inner = names.map .name := by
  cases names with
  | nil => rfl
  | cons name names =>
    rw [inner, pieces_intercalate (List.cons_ne_nil name names) fun n hn => (hnames n hn).1.2]
    exact filterMap_componentOf?_names hnames

/-- Names that a path can have are told by the text that joins them by slashes. -/
theorem intercalate_names_inj {more : List String} (hnames : ∀ name ∈ names, IsEntryName name)
    (hmore : ∀ name ∈ more, IsEntryName name) (h : "/".intercalate names = "/".intercalate more) :
    names = more := by
  refine List.map_injective_iff.2 (fun _ _ => Component.name.inj) ?_
  rw [← inner_intercalate_names hnames, ← inner_intercalate_names hmore, h]

/-- Components that are neither a front nor two dots are names. -/
theorem exists_map_name (h : ∀ c ∈ cs, c = .parent ∨ ∃ name, c = .name name)
    (hparent : Component.parent ∉ cs) : ∃ names : List String, cs = names.map .name := by
  induction cs with
  | nil => exact ⟨[], rfl⟩
  | cons c cs ih =>
    rw [List.mem_cons, not_or] at hparent
    rw [List.forall_mem_cons] at h
    obtain ⟨names, rfl⟩ := ih h.2 hparent.2
    obtain ⟨name, rfl⟩ := h.1.resolve_left (Ne.symm hparent.1)
    exact ⟨name :: names, rfl⟩

/-- What stands behind a base is behind the front. -/
theorem subset_inner (hbase : base.text ≠ "") (h : p.components = base.components ++ ds) :
    ds ⊆ p.inner := by
  obtain ⟨c, cs, hcomponents⟩ := List.exists_cons_of_ne_nil (components_ne_nil hbase)
  rw [components_eq p, hcomponents] at h
  -- The base takes up the front of the path, if there is one.
  cases hfront : p.front? with
  | none =>
    rw [hfront] at h
    have hinner : p.inner = c :: cs ++ ds := h
    exact hinner ▸ List.subset_append_right (c :: cs) ds
  | some front =>
    rw [hfront] at h
    have hinner : p.inner = cs ++ ds := (List.cons.inj h).2
    exact hinner ▸ List.subset_append_right cs ds

/-- A path without two dots is behind the base that it is joined to; one that is absolute, if it has
the components of the base in front. -/
theorem isBehind_join (hbase : base.text ≠ "") (hparent : .parent ∉ p.components)
    (hfront : p.isAbsolute → base.components <+: p.components) : (base.join p).IsBehind base := by
  rw [components_eq, List.mem_append, not_or] at hparent
  -- A relative path is appended to the base, and an absolute one replaces it.
  cases habsolute : p.isAbsolute with
  | false =>
    obtain ⟨names, hnames⟩ := exists_map_name (fun _ => eq_parent_or_name_of_mem_inner) hparent.2
    exact ⟨names, by rw [components_join hbase habsolute, hnames]⟩
  | true =>
    obtain ⟨ds, hds⟩ := hfront habsolute
    have hmem := subset_inner hbase hds.symm
    obtain ⟨names, rfl⟩ := exists_map_name
      (fun c hc => eq_parent_or_name_of_mem_inner (hmem hc)) fun hc => hparent.2 (hmem hc)
    exact ⟨names, by rw [join_of_isAbsolute habsolute, hds]⟩

end Names

/-! ### Taking a path relative to another one -/

/-- What is left of the pieces stands at their end, and the components that are dropped come
first. -/
theorem of_dropComponents? (h : dropComponents? cs ps = some rest) :
    rest <:+ ps ∧ ps.filterMap componentOf? = cs ++ rest.filterMap componentOf? := by
  -- The cases follow the recursion: a void piece is passed over, and a component is dropped if it
  -- is the next one.
  fun_induction dropComponents? cs ps with
  | case1 ps =>
    obtain rfl := Option.some.inj h
    exact ⟨List.suffix_refl _, rfl⟩
  | case2 => cases h
  | case3 c cs piece ps hvoid ih =>
    obtain ⟨hsuffix, hcomponents⟩ := ih h
    exact ⟨hsuffix.trans (List.suffix_cons _ _), by rw [List.filterMap_cons_none hvoid, hcomponents]⟩
  | case4 cs piece ps c hc ih =>
    obtain ⟨hsuffix, hcomponents⟩ := ih h
    exact ⟨hsuffix.trans (List.suffix_cons _ _), by rw [List.filterMap_cons_some hc, hcomponents]; rfl⟩
  | case5 => cases h

/-- Components that come first can be dropped. -/
theorem exists_dropComponents? (h : ps.filterMap componentOf? = cs ++ ds) :
    ∃ rest, dropComponents? cs ps = some rest := by
  fun_induction dropComponents? cs ps with
  | case1 ps => exact ⟨ps, rfl⟩
  | case2 => cases h
  | case3 c cs piece ps hvoid ih => exact ih (by rwa [List.filterMap_cons_none hvoid] at h)
  | case4 cs piece ps c hc ih =>
    rw [List.filterMap_cons_some hc] at h
    exact ih (List.cons.inj h).2
  | case5 c cs piece ps d hd hne =>
    rw [List.filterMap_cons_some hd] at h
    exact absurd (List.cons.inj h).1.symm hne

/-- The pieces at the end of a body hold no slash. -/
theorem slash_not_mem_of_suffix_body (h : rest <:+ p.body) : ∀ piece ∈ rest, '/' ∉ piece.toList := by
  intro piece hpiece
  have hbody : piece ∈ p.body := h.subset hpiece
  rw [body] at hbody
  split at hbody
  · exact slash_not_mem_of_mem_pieces (List.mem_of_mem_tail hbody)
  · exact slash_not_mem_of_mem_pieces hbody

/-- What stands behind a base is made of the last pieces, if the base has any components. -/
theorem of_relativeTo? {q : Path} (h : p.relativeTo? base = some q) :
    base.components = [] ∧ q = p ∨ ∃ rest, rest <:+ p.body ∧ q = ofPieces rest ∧
      p.components = base.components ++ rest.filterMap componentOf? := by
  -- Dropping works on the pieces, so both ways of reading the front come down to it.
  have hrest : ∀ cs : List Component, (dropComponents? cs p.body).map ofPieces = some q →
      ∃ rest, rest <:+ p.body ∧ q = ofPieces rest ∧ p.inner = cs ++ rest.filterMap componentOf? := by
    intro cs hq
    obtain ⟨rest, hrest, rfl⟩ := Option.map_eq_some_iff.1 hq
    obtain ⟨hsuffix, hcomponents⟩ := of_dropComponents? hrest
    exact ⟨rest, hsuffix, rfl, p.filterMap_body.symm.trans hcomponents⟩
  rw [relativeTo?] at h
  split at h
  · next hbase => exact .inl ⟨hbase, (Option.some.inj h).symm⟩
  · next f c cs hfront hbase =>
    split at h
    · next hc =>
      obtain ⟨rest, hsuffix, hq, hinner⟩ := hrest cs h
      refine .inr ⟨rest, hsuffix, hq, ?_⟩
      rw [components_eq p, hfront, hbase, hinner, hc]
      rfl
    · cases h
  · next hfront =>
    obtain ⟨rest, hsuffix, hq, hinner⟩ := hrest _ h
    refine .inr ⟨rest, hsuffix, hq, ?_⟩
    rw [components_eq p, hfront, hinner]
    rfl

/-- Behind a base stands the rest of the components. -/
theorem components_of_relativeTo? {q : Path} (h : p.relativeTo? base = some q) :
    p.components = base.components ++ q.components := by
  obtain ⟨hbase, rfl⟩ | ⟨rest, hsuffix, rfl, hcomponents⟩ := of_relativeTo? h
  · rw [hbase, List.nil_append]
  · rw [hcomponents, components_ofPieces (slash_not_mem_of_suffix_body hsuffix)]

/-- A path has a rest behind a base just if its components start with those of the base. -/
theorem isSome_relativeTo?_iff : (p.relativeTo? base).isSome ↔ base.components <+: p.components := by
  constructor
  · intro h
    obtain ⟨q, hq⟩ := Option.isSome_iff_exists.1 h
    exact ⟨q.components, (components_of_relativeTo? hq).symm⟩
  · rintro ⟨ds, hds⟩
    rw [components_eq p] at hds
    rw [relativeTo?]
    -- The three cases are those of the definition: an empty base, a common front, and no front.
    split
    · rfl
    · next f c cs hfront hbase =>
      rw [hfront, hbase] at hds
      obtain ⟨hc, hds⟩ := List.cons.inj hds
      obtain ⟨rest, hrest⟩ := exists_dropComponents? (p.filterMap_body.trans hds.symm)
      rw [if_pos hc, hrest]
      rfl
    · next hfront =>
      rw [hfront] at hds
      obtain ⟨rest, hrest⟩ := exists_dropComponents? (p.filterMap_body.trans hds.symm)
      rw [hrest]
      rfl

/-- The components of a path behind a base that it starts with. -/
theorem components_relativeTo (h : p.components = base.components ++ ds) :
    (p.relativeTo base).components = ds := by
  obtain ⟨q, hq⟩ := Option.isSome_iff_exists.1 (isSome_relativeTo?_iff.2 ⟨ds, h.symm⟩)
  rw [relativeTo, hq, Option.getD_some]
  exact List.append_cancel_left ((components_of_relativeTo? hq).symm.trans h)

/-- A path that does not start with a base is its own rest. -/
theorem relativeTo_of_not_isPrefix (h : ¬base.components <+: p.components) : p.relativeTo base = p := by
  rw [relativeTo, Option.not_isSome_iff_eq_none.1 (mt isSome_relativeTo?_iff.1 h), Option.getD_none]

/-- The body stands at the end of the pieces. -/
theorem body_suffix (p : Path) : p.body <:+ p.pieces := by
  rw [body]
  split
  · exact List.tail_suffix _
  · exact List.suffix_rfl

/-- A name at the end of a path is at the end of its rest behind a base, unless the base is all of
it. -/
theorem exists_pieces_relativeTo {front : List String} {last : String}
    (hpieces : p.pieces = front ++ [last]) (hlast : IsEntryName last)
    (hne : p.components ≠ base.components) :
    ∃ front, (p.relativeTo base).pieces = front ++ [last] := by
  rw [relativeTo]
  cases hrelative : p.relativeTo? base with
  | none => exact ⟨front, hpieces⟩
  | some q =>
    rw [Option.getD_some]
    obtain ⟨-, rfl⟩ | ⟨rest, hsuffix, rfl, hcomponents⟩ := of_relativeTo? hrelative
    · exact ⟨front, hpieces⟩
    · -- The rest is not empty, and ends as the path does.
      have hvoid : ¬isVoid last := by
        rw [← componentOf?_eq_none_iff, componentOf?_name hlast]
        exact nofun
      obtain rfl | ⟨middle, piece, rfl⟩ := List.eq_nil_or_concat' rest
      · exact absurd (hcomponents.trans (List.append_nil _)) hne
      obtain ⟨above, habove⟩ := hpieces ▸ hsuffix.trans p.body_suffix
      rw [← List.append_assoc] at habove
      obtain ⟨-, hpiece⟩ := List.append_inj' habove rfl
      obtain rfl := (List.cons.inj hpiece).1
      -- Leading blanks of the rest are dropped, but its last piece is none.
      obtain ⟨inside, hinside⟩ : ∃ inside, (middle ++ [piece]).dropWhile isVoid = inside ++ [piece] := by
        rw [List.dropWhile_append]
        split
        · exact ⟨[], List.dropWhile_cons_of_neg hvoid⟩
        · exact ⟨_, rfl⟩
      have htrimmed : trimmed (middle ++ [piece]) = inside ++ [piece] := by
        rw [trimmed, hinside, List.rdropWhile_concat_neg _ _ _ hvoid]
      refine ⟨inside, (pieces_ofPieces ?_ (slash_not_mem_of_suffix_body hsuffix)).trans htrimmed⟩
      rw [htrimmed]
      exact List.append_ne_nil_of_right_ne_nil _ (List.cons_ne_nil _ _)

/-! ### Names -/

/-- The names among some components. -/
def namesOf (cs : List Component) : List String :=
  cs.filterMap fun
    | .name name => some name
    | _ => none

/-- The names of a path are those of its components. -/
theorem names_eq (p : Path) : p.names = namesOf p.components := rfl

/-- The names in a path are names that something in a directory can have. -/
theorem isEntryName_of_mem_names {name : String} (h : name ∈ p.names) : IsEntryName name := by
  rw [names_eq, namesOf, List.mem_filterMap] at h
  obtain ⟨c, hc, hname⟩ := h
  split at hname
  · next component =>
    obtain rfl := Option.some.inj hname
    -- A front is no name, so the name comes from a piece, which is then no void one.
    rw [components_eq, List.mem_append] at hc
    rcases hc with hc | hc
    · rw [Option.mem_toList, front?] at hc
      split at hc
      · cases hc
      · split at hc <;> cases hc
    · obtain ⟨piece, hpiece, hcomponent⟩ := List.mem_filterMap.1 hc
      obtain ⟨rfl, hpiece⟩ :=
        (componentOf?_eq_name_iff (slash_not_mem_of_mem_pieces hpiece)).1 hcomponent
      exact hpiece
  · cases hname

/-- True for the pieces that are names. -/
def isName (piece : String) : Bool := !isVoid piece && piece ≠ ".."

/-- The names in a path are the pieces that are names. -/
theorem names_eq_filter (p : Path) : p.names = p.pieces.filter isName := by
  -- The front is the top or a dot and has no name.
  have hfront : namesOf p.front?.toList = [] := by
    rw [front?]
    split
    · rfl
    · split <;> rfl
  -- Piece by piece: void pieces and `..` have no names, the others are their own.
  have hpieces : ∀ ps : List String, namesOf (ps.filterMap componentOf?) = ps.filter isName := by
    intro ps
    induction ps with
    | nil => rfl
    | cons piece ps ih =>
      rw [List.filter_cons, ← ih, isName]
      by_cases hvoid : isVoid piece
      · rw [List.filterMap_cons_none (componentOf?_of_isVoid hvoid), hvoid]
        rfl
      · by_cases hparent : piece = ".."
        · have hcomponent : componentOf? piece = some .parent := by
            rw [componentOf?, if_neg hvoid, if_pos hparent]
          rw [List.filterMap_cons_some hcomponent, hparent]
          rfl
        · have hcomponent : componentOf? piece = some (.name piece) := by
            rw [componentOf?, if_neg hvoid, if_neg hparent]
          rw [List.filterMap_cons_some hcomponent]
          simp [hvoid, hparent, namesOf]
  rw [names_eq, components_eq, namesOf, List.filterMap_append, ← namesOf, ← namesOf, hfront, inner,
    hpieces, List.nil_append]

/-- The name of an entry is a name. -/
theorem isName_of_isEntryName {name : String} (h : IsEntryName name) : isName name := by
  simp [isName, isVoid, h.1.1, h.2.1, h.2.2]

/-- A path whose components are names has these names. -/
theorem names_of_components {names : List String} (h : p.components = names.map .name) :
    p.names = names := by
  rw [Path.names, h, List.filterMap_map]
  exact List.filterMap_some

end Path

end NameAtlas
