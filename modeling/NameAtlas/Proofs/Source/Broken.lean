import NameAtlas.Proofs.Source.Paths
import NameAtlas.Proofs.Source.Trivia

/-!
# Trees with broken code

Where the code of a file is broken, a parser puts a node around what it cannot place, or supplies a
node that is missing. `Node.mend` takes all such nodes out of a tree. What is left are the sound
trees (`Node.sound`), and what stands on or below a broken node is lost (`Node.lost`). If the nodes
above broken ones are marked, the outermost of them are found by their marks
(`syntaxErrors_of_marked`); and where nodes lie within one another and beside one another, a leaf
that is sound shares no byte with what is lost (`not_overlaps_of_lost`).
-/

namespace NameAtlas.Source.Node

/-- The tree without the broken nodes below the root. -/
def mend (n : Node) : Node := n.erase NodeInfo.isBroken

mutual

/-- The trees in a tree that stand neither on a broken node nor below one, the whole tree apart. -/
def sound : Node → List Node
  | .mk info children => .mk info children :: soundIn children

/-- The sound trees in several trees. -/
def soundIn : List Node → List Node
  | [] => []
  | n :: rest => if n.info.isBroken then soundIn rest else sound n ++ soundIn rest

end

mutual

/-- The trees in a tree that stand on a broken node or below one. -/
def lost : Node → List Node
  | .mk info children => if info.isBroken then subtrees (.mk info children) else lostIn children

/-- The lost trees in several trees. -/
def lostIn : List Node → List Node
  | [] => []
  | n :: rest => lost n ++ lostIn rest

end

mutual

/-- The outermost broken nodes of a tree, in source order. -/
def broken : Node → List NodeInfo
  | .mk info children => if info.isBroken then [info] else brokenIn children

/-- The outermost broken nodes of several trees. -/
def brokenIn : List Node → List NodeInfo
  | [] => []
  | n :: rest => broken n ++ brokenIn rest

end

/-- The sound nodes of a list are those of its members that are not broken. -/
theorem soundIn_eq (ns : List Node) :
    soundIn ns = (ns.filter fun n => !n.info.isBroken).flatMap sound := by
  induction ns with
  | nil => rfl
  | cons n rest ih => by_cases h : n.info.isBroken <;> simp [soundIn, h, ih]

/-- The sound nodes are the node itself and those of its children that are not broken. -/
theorem sound_eq (n : Node) :
    n.sound = n :: (n.children.filter fun c => !c.info.isBroken).flatMap sound := by
  cases n
  rw [sound, soundIn_eq]
  rfl

/-- A node is among its own sound nodes. -/
theorem self_mem_sound (n : Node) : n ∈ n.sound := by
  rw [sound_eq]
  exact List.mem_cons_self

/-- The sound nodes of a child that is not broken are sound. -/
theorem sound_subset_of_mem_children {n c : Node} (h : c ∈ n.children) (hc : ¬c.info.isBroken) :
    c.sound ⊆ n.sound := by
  rw [sound_eq n]
  exact fun t ht => List.mem_cons_of_mem _
    (List.mem_flatMap.2 ⟨c, List.mem_filter.2 ⟨h, by simpa using hc⟩, ht⟩)

mutual

/-- What is sound in a sound node is sound in the whole. -/
theorem sound_subset_of_mem_sound : ∀ n : Node, ∀ t ∈ n.sound, t.sound ⊆ n.sound
  | .mk info children, t, ht => by
    rcases List.mem_cons.1 ht with rfl | ht
    · exact List.Subset.refl _
    · exact fun u hu => List.mem_cons_of_mem _ (sound_subset_of_mem_soundIn children t ht hu)

/-- What is sound in a sound node of a list is sound in the list. -/
theorem sound_subset_of_mem_soundIn : ∀ ns : List Node, ∀ t ∈ soundIn ns, t.sound ⊆ soundIn ns
  | [], _, ht => nomatch ht
  | n :: rest, t, ht => by
    rw [soundIn] at ht ⊢
    by_cases h : n.info.isBroken
    · rw [if_pos h] at ht ⊢
      exact sound_subset_of_mem_soundIn rest t ht
    · rw [if_neg h] at ht ⊢
      rcases List.mem_append.1 ht with ht | ht
      · exact fun u hu => List.mem_append_left _ (sound_subset_of_mem_sound n t ht hu)
      · exact fun u hu => List.mem_append_right _ (sound_subset_of_mem_soundIn rest t ht hu)

end

/-- A child of a sound tree is sound if it is not broken. -/
theorem mem_sound_of_mem_children {n t c : Node} (ht : t ∈ n.sound) (hc : c ∈ t.children)
    (hkept : ¬c.info.isBroken) : c ∈ n.sound :=
  sound_subset_of_mem_sound n t ht (sound_subset_of_mem_children hc hkept (self_mem_sound c))

mutual

/-- Sound nodes are nodes of the tree. -/
theorem sound_subset_subtrees : ∀ n : Node, n.sound ⊆ n.subtrees
  | .mk info children, t, ht => by
    rw [sound] at ht
    rcases List.mem_cons.1 ht with rfl | ht
    · exact List.mem_cons_self
    · exact List.mem_cons_of_mem _ (soundIn_subset_subtreesOf children ht)

/-- Sound nodes of a list are nodes of its trees. -/
theorem soundIn_subset_subtreesOf : ∀ ns : List Node, soundIn ns ⊆ subtreesOf ns
  | [], t, ht => nomatch ht
  | n :: rest, t, ht => by
    rw [soundIn] at ht
    split at ht
    · exact List.mem_append_right _ (soundIn_subset_subtreesOf rest ht)
    · exact (List.mem_append.1 ht).elim
        (fun ht => List.mem_append_left _ (sound_subset_subtrees n ht))
        fun ht => List.mem_append_right _ (soundIn_subset_subtreesOf rest ht)

end

mutual

/-- What is sound in a tree that is not broken itself is not broken. -/
theorem not_isBroken_of_mem_sound :
    ∀ {n : Node}, ¬n.info.isBroken → ∀ t ∈ n.sound, ¬t.info.isBroken
  | .mk info children, h, t, ht => by
    rcases List.mem_cons.1 ht with rfl | ht
    · exact h
    · exact not_isBroken_of_mem_soundIn children t ht

/-- The sound nodes of a list are not broken. -/
theorem not_isBroken_of_mem_soundIn : ∀ ns : List Node, ∀ t ∈ soundIn ns, ¬t.info.isBroken
  | [], _, ht => nomatch ht
  | n :: rest, t, ht => by
    rw [soundIn] at ht
    split at ht
    · exact not_isBroken_of_mem_soundIn rest t ht
    · next hbroken =>
      rcases List.mem_append.1 ht with ht | ht
      · exact not_isBroken_of_mem_sound hbroken t ht
      · exact not_isBroken_of_mem_soundIn rest t ht

end

mutual

/-- Lost nodes are nodes of the tree. -/
theorem lost_subset_subtrees : ∀ n : Node, n.lost ⊆ n.subtrees
  | .mk info children, t, ht => by
    rw [lost] at ht
    split at ht
    · exact ht
    · exact List.mem_cons_of_mem _ (lostIn_subset_subtreesOf children ht)

/-- Lost nodes of a list are nodes of its trees. -/
theorem lostIn_subset_subtreesOf : ∀ ns : List Node, lostIn ns ⊆ subtreesOf ns
  | [], _, ht => nomatch ht
  | n :: rest, _, ht =>
    (List.mem_append.1 ht).elim (fun ht => List.mem_append_left _ (lost_subset_subtrees n ht))
      fun ht => List.mem_append_right _ (lostIn_subset_subtreesOf rest ht)

end

/-! ### Mending -/

/-- Mending keeps the node itself. -/
@[simp] theorem info_mend (n : Node) : n.mend.info = n.info := info_erase _ n

mutual

/-- The trees in a mended tree are the sound ones, mended. -/
theorem subtrees_mend : ∀ n : Node, n.mend.subtrees = n.sound.map mend
  | .mk info children => by
    rw [mend, erase, subtrees, subtreesOf_eraseIn children, sound, List.map_cons, mend, erase]

/-- The nodes that are left of a list are its sound nodes, mended. -/
theorem subtreesOf_eraseIn :
    ∀ ns : List Node, subtreesOf (eraseIn NodeInfo.isBroken ns) = (soundIn ns).map mend
  | [] => rfl
  | n :: rest => by
    have hn : (erase NodeInfo.isBroken n).subtrees = _ := subtrees_mend n
    rw [eraseIn, soundIn]
    split
    · exact subtreesOf_eraseIn rest
    · rw [subtreesOf, hn, subtreesOf_eraseIn rest, List.map_append]

end

mutual

/-- Nothing below the root of a mended tree is broken. -/
theorem broken_mend : ∀ {n : Node}, ¬n.info.isBroken → n.mend.broken = []
  | .mk info children, h => by
    rw [mend, erase, broken, brokenIn_eraseIn children]
    exact if_neg h

/-- Nothing broken is left of a list. -/
theorem brokenIn_eraseIn : ∀ ns : List Node, brokenIn (eraseIn NodeInfo.isBroken ns) = []
  | [] => rfl
  | n :: rest => by
    rw [eraseIn]
    split
    · exact brokenIn_eraseIn rest
    · next h =>
      rw [brokenIn, brokenIn_eraseIn rest, List.append_nil]
      exact broken_mend h

end

/-- What is left of a list are its members that are not broken, mended. -/
theorem eraseIn_isBroken (ns : List Node) :
    eraseIn NodeInfo.isBroken ns = (ns.filter fun n => !n.info.isBroken).map mend := by
  induction ns with
  | nil => rfl
  | cons n rest ih =>
    rw [eraseIn, ih]
    by_cases h : n.info.isBroken
    · rw [if_pos h, List.filter_cons_of_neg (by simpa using h)]
    · rw [if_neg h, List.filter_cons_of_pos (by simpa using h)]
      rfl

/-- The children of a mended node are those that are not broken, mended. -/
theorem children_mend (n : Node) :
    n.mend.children = (n.children.filter fun c => !c.info.isBroken).map mend := by
  cases n
  exact eraseIn_isBroken _

/-! ### Marks -/

/-- True if a node is marked as malformed if a child of it is broken or marked. -/
def PassesMarksOn (n : Node) : Prop :=
  ∀ c ∈ n.children, c.info.isBroken ∨ c.info.malformed → n.info.malformed

instance (n : Node) : Decidable n.PassesMarksOn := inferInstanceAs (Decidable (∀ c ∈ _, _))

mutual

/-- Below a node that is neither broken nor marked nothing is broken, as marks are passed on. -/
theorem broken_of_not_malformed : ∀ {n : Node}, (∀ t ∈ n.sound, t.PassesMarksOn) →
    ¬n.info.isBroken → ¬n.info.malformed → n.broken = []
  | .mk info children, h, hbroken, hmalformed => by
    have hself : (Node.mk info children).PassesMarksOn := h _ (self_mem_sound _)
    have hchildren := brokenIn_of_not_malformed children
      (fun t ht => h t (List.mem_cons_of_mem _ ht)) fun c hc hmark => hmalformed (hself c hc hmark)
    exact (if_neg hbroken).trans hchildren

/-- In a list without broken or marked nodes nothing is broken. -/
theorem brokenIn_of_not_malformed : ∀ ns : List Node, (∀ t ∈ soundIn ns, t.PassesMarksOn) →
    (∀ n ∈ ns, ¬(n.info.isBroken ∨ n.info.malformed)) → brokenIn ns = []
  | [], _, _ => rfl
  | n :: rest, h, hns => by
    obtain ⟨hbroken, hmalformed⟩ := not_or.1 (hns n List.mem_cons_self)
    rw [soundIn, if_neg hbroken] at h
    rw [brokenIn, broken_of_not_malformed (fun t ht => h t (List.mem_append_left _ ht)) hbroken
        hmalformed,
      brokenIn_of_not_malformed rest (fun t ht => h t (List.mem_append_right _ ht))
        fun c hc => hns c (List.mem_cons_of_mem n hc)]
    rfl

end

mutual

/-- The outermost broken nodes are found if the marks lead to them. -/
theorem syntaxErrors_of_marked :
    ∀ n : Node, (∀ t ∈ n.sound, t.PassesMarksOn) → n.syntaxErrors = n.broken
  | .mk info children, h => by
    rw [syntaxErrors]
    by_cases hbroken : info.isBroken
    · rw [if_pos hbroken, broken, if_pos hbroken]
    · rw [if_neg hbroken]
      by_cases hmalformed : info.malformed
      · rw [if_pos hmalformed, broken, if_neg hbroken]
        exact syntaxErrorsOf_of_marked children fun t ht => h t (List.mem_cons_of_mem _ ht)
      · rw [if_neg hmalformed, broken_of_not_malformed h hbroken hmalformed]

/-- If marks are passed on, the search in a list finds the outermost broken nodes. -/
theorem syntaxErrorsOf_of_marked :
    ∀ ns : List Node, (∀ t ∈ soundIn ns, t.PassesMarksOn) → syntaxErrorsOf ns = brokenIn ns
  | [], _ => rfl
  | n :: rest, h => by
    rw [soundIn] at h
    rw [syntaxErrorsOf, brokenIn]
    -- A broken node is found itself; what is in one that is not broken is found by its own search.
    split at h
    · next hbroken =>
      have hn : n.syntaxErrors = n.broken := by
        obtain ⟨info, children⟩ := n
        exact (if_pos hbroken).trans (if_pos hbroken).symm
      rw [hn, syntaxErrorsOf_of_marked rest h]
    · rw [syntaxErrors_of_marked n fun t ht => h t (List.mem_append_left _ ht),
        syntaxErrorsOf_of_marked rest fun t ht => h t (List.mem_append_right _ ht)]

end

/-- True for a node that is broken or has something broken below it. -/
def Damaged (n : Node) : Prop := ∃ u ∈ n.subtrees, u.info.isBroken

instance (n : Node) : Decidable n.Damaged := inferInstanceAs (Decidable (∃ u ∈ _, _))

/-- True if the nodes of a tree that are marked as malformed are the damaged ones. -/
def MarksDamage (n : Node) : Prop := ∀ t ∈ n.subtrees, t.info.malformed ↔ t.Damaged

instance (n : Node) : Decidable n.MarksDamage := inferInstanceAs (Decidable (∀ t ∈ _, _))

/-- If the damaged nodes are marked, the marks lead to the broken ones. -/
theorem MarksDamage.passesMarksOn {n : Node} (h : n.MarksDamage) {t : Node} (ht : t ∈ n.subtrees) :
    t.PassesMarksOn := by
  intro c hc hmark
  have hsub := subtrees_subset_of_mem_children hc
  obtain ⟨u, hu, hbroken⟩ : c.Damaged := by
    refine hmark.elim (fun hbroken => ⟨c, self_mem_subtrees c, hbroken⟩) fun hmalformed => ?_
    exact (h c (subtrees_subset_of_mem_subtrees ht (hsub (self_mem_subtrees c)))).1 hmalformed
  exact (h t ht).2 ⟨u, hsub hu, hbroken⟩

/-- Marks lead to nothing in a mended tree. -/
theorem syntaxErrors_mend {n : Node} (h : ∀ t ∈ n.sound, t.PassesMarksOn)
    (hroot : ¬n.info.isBroken) : n.mend.syntaxErrors = [] := by
  rw [syntaxErrors_of_marked n.mend fun t ht => ?_, broken_mend hroot]
  obtain ⟨u, hu, rfl⟩ := List.mem_map.1 (subtrees_mend n ▸ sound_subset_subtrees n.mend ht)
  intro c hc hmark
  rw [children_mend] at hc
  obtain ⟨d, hd, rfl⟩ := List.mem_map.1 hc
  rw [info_mend] at hmark ⊢
  exact h u hu d (List.mem_filter.1 hd).1 hmark

/-! ### Spans -/

mutual

/-- A tree covers the trees in it. -/
theorem contains_of_mem_subtrees :
    ∀ {n : Node}, n.nested → ∀ t ∈ n.subtrees, n.info.span.contains t.info.span
  | .mk info children, h, t, ht => by
    rcases List.mem_cons.1 ht with rfl | ht
    · exact Span.contains_self _
    · obtain ⟨c, hc, ht⟩ := exists_contains_of_mem_subtreesOf children h ht
      exact Span.contains_trans (nested_of_mem h hc).1 ht.2

/-- A node of a list lies within the member of the list that it belongs to. -/
theorem exists_contains_of_mem_subtreesOf {outer : NodeInfo} {t : Node} :
    ∀ ns : List Node, nestedIn outer ns → t ∈ subtreesOf ns →
      ∃ n ∈ ns, t ∈ n.subtrees ∧ n.info.span.contains t.info.span
  | [], _, ht => nomatch ht
  | n :: rest, h, ht => by
    rcases List.mem_append.1 ht with ht | ht
    · exact ⟨n, List.mem_cons_self, ht,
        contains_of_mem_subtrees (nested_of_mem h List.mem_cons_self).2 t ht⟩
    · have hrest : nestedIn outer rest := (Bool.and_eq_true_iff.1 h).2
      obtain ⟨m, hm, ht⟩ := exists_contains_of_mem_subtreesOf rest hrest ht
      exact ⟨m, List.mem_cons_of_mem n hm, ht⟩

end

mutual

/-- A leaf that is sound shares no byte with what is lost. -/
theorem not_overlaps_of_lost {t e : Node} (hleaf : t.children = []) : ∀ {n : Node}, n.nested →
    (∀ u ∈ n.subtrees, u.SiblingsDisjoint) → ¬n.info.isBroken → t ∈ n.sound → e ∈ n.lost →
      ¬t.info.span.overlaps e.info.span
  | .mk info children, hnested, hdisjoint, hbroken, ht, he => by
    have he : e ∈ lostIn children := (if_neg hbroken : lost (.mk info children) = _) ▸ he
    rcases List.mem_cons.1 ht with rfl | ht
    · obtain rfl : children = [] := hleaf
      cases he
    · exact not_overlaps_of_lostIn hleaf children hnested
        (hdisjoint _ (self_mem_subtrees _)) (fun u hu => hdisjoint u (List.mem_cons_of_mem _ hu))
        ht he

/-- In a list a sound leaf does not overlap what is lost. -/
theorem not_overlaps_of_lostIn {t e : Node} {outer : NodeInfo} (hleaf : t.children = []) :
    ∀ ns : List Node, nestedIn outer ns →
      (ns.Pairwise fun a b => ¬a.info.span.overlaps b.info.span) →
      (∀ u ∈ subtreesOf ns, u.SiblingsDisjoint) → t ∈ soundIn ns → e ∈ lostIn ns →
        ¬t.info.span.overlaps e.info.span
  | [], _, _, _, ht, _ => nomatch ht
  | n :: rest, hnested, hpairwise, hdisjoint, ht, he => by
    obtain ⟨hfirst, hpairwise⟩ := List.pairwise_cons.1 hpairwise
    obtain ⟨hcontains, hn⟩ := nested_of_mem hnested List.mem_cons_self
    have hrest : nestedIn outer rest := (Bool.and_eq_true_iff.1 hnested).2
    -- What stands in the first tree shares no byte with what stands in the others.
    have hapart {u v : Node} (hu : u ∈ n.subtrees) (hv : v ∈ subtreesOf rest) :
        ¬u.info.span.overlaps v.info.span := by
      obtain ⟨m, hm, -, hv⟩ := exists_contains_of_mem_subtreesOf rest hrest hv
      exact fun hoverlaps => hfirst m hm
        (Span.overlaps_of_contains (contains_of_mem_subtrees hn u hu) hv hoverlaps)
    have hside : t ∈ soundIn rest → ¬t.info.span.overlaps e.info.span := by
      intro ht
      rcases List.mem_append.1 he with he | he
      · rw [Span.overlaps_comm]
        exact hapart (lost_subset_subtrees n he) (soundIn_subset_subtreesOf rest ht)
      · exact not_overlaps_of_lostIn hleaf rest hrest hpairwise
          (fun u hu => hdisjoint u (List.mem_append_right _ hu)) ht he
    rw [soundIn] at ht
    split at ht
    · exact hside ht
    · next hbroken =>
      rcases List.mem_append.1 ht with ht | ht
      · rcases List.mem_append.1 he with he | he
        · exact not_overlaps_of_lost hleaf hn (fun u hu => hdisjoint u (List.mem_append_left _ hu))
            hbroken ht he
        · exact hapart (sound_subset_subtrees n ht) (lostIn_subset_subtreesOf rest he)
      · exact hside ht

end

end NameAtlas.Source.Node
