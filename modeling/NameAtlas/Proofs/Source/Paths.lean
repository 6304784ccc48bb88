import NameAtlas.Location
import NameAtlas.Proofs.Reading.Words
import NameAtlas.Proofs.Source.Tree

/-!
# Paths in a parse tree

A place in a tree is the path that leads to it, the positions of children from the root on
(`Node.at?`), and paths diverge if neither is the beginning of the other. If every node lies within
the one above it and the children of a node share no byte, nodes at the ends of paths that diverge
share no byte either (`not_overlaps_of_diverge`).
-/

namespace NameAtlas

namespace Span

/-- True if some byte is in both spans. -/
def overlaps (a b : Span) : Bool := max a.start b.start < min a.stop b.stop

/-- Overlapping goes both ways. -/
theorem overlaps_comm (a b : Span) : a.overlaps b = b.overlaps a := by
  rw [overlaps, overlaps, Nat.max_comm, Nat.min_comm]

/-- A byte in parts of two spans is in the spans. -/
theorem overlaps_of_contains {a b a' b' : Span} (ha : a.contains a') (hb : b.contains b')
    (h : a'.overlaps b') : a.overlaps b := by
  simp only [contains, overlaps, Bool.and_eq_true, decide_eq_true_eq] at *
  omega

/-- Spans with a byte that start at one place share it. -/
theorem overlaps_of_start_eq {a b : Span} (h : a.start = b.start) (ha : a.start < a.stop)
    (hb : b.start < b.stop) : a.overlaps b := by
  simp only [overlaps, decide_eq_true_eq]
  omega

end Span

namespace Source

/-- The bytes that a node covers. -/
def NodeInfo.span (i : NodeInfo) : Span := ⟨i.start, i.stop⟩

/-! ### Paths -/

/-- True if neither of two paths is the beginning of the other. -/
def Diverge (p q : List Nat) : Prop := ¬p <+: q ∧ ¬q <+: p

instance (p q : List Nat) : Decidable (Diverge p q) := inferInstanceAs (Decidable (_ ∧ _))

/-- Diverging goes both ways. -/
theorem Diverge.symm {p q : List Nat} (h : Diverge p q) : Diverge q p := ⟨h.2, h.1⟩

/-- Paths to different children diverge. -/
theorem diverge_of_ne {i j : Nat} (h : i ≠ j) (p q : List Nat) : Diverge (i :: p) (j :: q) :=
  ⟨fun hp => h (List.cons_prefix_cons.1 hp).1, fun hq => h (List.cons_prefix_cons.1 hq).1.symm⟩

/-- Paths to one child diverge if they do behind it. -/
theorem diverge_cons_iff (i : Nat) {p q : List Nat} :
    Diverge (i :: p) (i :: q) ↔ Diverge p q := by
  simp [Diverge, List.cons_prefix_cons]

namespace Node

/-- The tree at the end of a path. -/
def at? : Node → List Nat → Option Node
  | n, [] => some n
  | n, i :: path => (n.children[i]?).bind fun c => c.at? path

variable {tree n m : Node} {p q : List Nat}

/-- A path to a node goes over a child. -/
theorem at?_cons {i : Nat} (h : tree.at? (i :: p) = some n) :
    ∃ c, tree.children[i]? = some c ∧ c ∈ tree.children ∧ c.at? p = some n := by
  obtain ⟨c, hc, h⟩ := Option.bind_eq_some_iff.1 h
  exact ⟨c, hc, List.mem_of_getElem? hc, h⟩

/-- A node at a path is a node of the tree. -/
theorem mem_subtrees_of_at? (h : tree.at? p = some n) : n ∈ tree.subtrees := by
  induction p generalizing tree with
  | nil => exact Option.some.inj h ▸ self_mem_subtrees tree
  | cons i p ih =>
    obtain ⟨c, -, hmem, h⟩ := at?_cons h
    exact subtrees_subset_of_mem_children hmem (ih h)

/-! ### Spans -/

/-- The members of nested nodes lie within the outer one and are nested themselves. -/
theorem nested_of_mem {outer : NodeInfo} {ns : List Node} (h : nestedIn outer ns) (hn : n ∈ ns) :
    outer.span.contains n.info.span ∧ n.nested := by
  induction ns with
  | nil => cases hn
  | cons m rest ih =>
    simp only [nestedIn, Bool.and_eq_true, decide_eq_true_eq] at h
    rcases List.mem_cons.1 hn with rfl | hn
    · exact ⟨by simp [Span.contains, NodeInfo.span, h.1.1], h.1.2⟩
    · exact ih h.2 hn

/-- A child of a nested node lies within it and is nested itself. -/
theorem nested_child (h : tree.nested) (hn : n ∈ tree.children) :
    tree.info.span.contains n.info.span ∧ n.nested := by
  cases tree with
  | mk info children => exact nested_of_mem h hn

/-- A node lies within each node above it. -/
theorem contains_at? (htree : tree.nested) (h : tree.at? p = some n) :
    tree.info.span.contains n.info.span := by
  induction p generalizing tree with
  | nil => exact Option.some.inj h ▸ Span.contains_self _
  | cons i p ih =>
    obtain ⟨c, -, hmem, h⟩ := at?_cons h
    obtain ⟨hc, hnested⟩ := nested_child htree hmem
    exact Span.contains_trans hc (ih hnested h)

/-- True if no two children of a node share a byte. -/
def SiblingsDisjoint (n : Node) : Prop :=
  n.children.Pairwise fun a b => ¬a.info.span.overlaps b.info.span

instance (n : Node) : Decidable n.SiblingsDisjoint :=
  inferInstanceAs (Decidable (List.Pairwise _ _))

/-- Two different children do not overlap. -/
theorem SiblingsDisjoint.not_overlaps (h : tree.SiblingsDisjoint) {i j : Nat} (hij : i ≠ j)
    (hn : tree.children[i]? = some n) (hm : tree.children[j]? = some m) :
    ¬n.info.span.overlaps m.info.span := by
  obtain ⟨hi, rfl⟩ := List.getElem?_eq_some_iff.1 hn
  obtain ⟨hj, rfl⟩ := List.getElem?_eq_some_iff.1 hm
  rcases Nat.lt_or_gt_of_ne hij with hlt | hlt
  · exact List.pairwise_iff_getElem.1 h i j hi hj hlt
  · rw [Span.overlaps_comm]
    exact List.pairwise_iff_getElem.1 h j i hj hi hlt

/-- Nodes at the ends of paths that diverge share no byte. -/
theorem not_overlaps_of_diverge (hnested : tree.nested)
    (hdisjoint : ∀ t ∈ tree.subtrees, t.SiblingsDisjoint) (hn : tree.at? p = some n)
    (hm : tree.at? q = some m) (h : Diverge p q) : ¬n.info.span.overlaps m.info.span := by
  -- The induction is on the first path, up to the child at which the paths part.
  induction p generalizing tree q with
  | nil => exact absurd List.nil_prefix h.1
  | cons i p ih =>
    cases q with
    | nil => exact absurd List.nil_prefix h.2
    | cons j q =>
      obtain ⟨c, hc, hcmem, hn⟩ := at?_cons hn
      obtain ⟨d, hd, hdmem, hm⟩ := at?_cons hm
      have hcnested := (nested_child hnested hcmem).2
      by_cases hij : i = j
      · -- The paths go on from the same child.
        subst hij
        obtain rfl := Option.some.inj (hc.symm.trans hd)
        exact ih hcnested (fun t ht => hdisjoint t (subtrees_subset_of_mem_children hcmem ht)) hn hm
          ((diverge_cons_iff i).1 h)
      · have hdnested := (nested_child hnested hdmem).2
        intro hoverlaps
        exact (hdisjoint tree (self_mem_subtrees tree)).not_overlaps hij hc hd
          (Span.overlaps_of_contains (contains_at? hcnested hn) (contains_at? hdnested hm) hoverlaps)

end Node

end Source

end NameAtlas
