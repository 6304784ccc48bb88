import Mathlib.Data.List.NodupEquivFin
import NameAtlas.Proofs.Reading.Coverage
import NameAtlas.Proofs.Source.Paths
import NameAtlas.Proofs.Walk.Marks

/-!
# Marks that are shared out

Some marks are shared out in a part if each node of the part gets at most what may be said of one
node, and a node that gets something leaves nothing to the nodes below it (`Part.Holds`). So a part
holds the marks that its children hold if every child is taken once (`Part.HeldAmong`), and that is
how the roles of a node will be looked at: one after the other, child by child.

Marks that are shared out have places in the part of which no two are on one way down from the root,
except that a symbol may be declared where a reference stands (`Part.Holds.exists_places`).
-/

namespace NameAtlas.Python

open Source

namespace Part

/-- True for the nodes at which references stand. -/
def IsName (p : Part) : Prop := p.kind = "identifier" ∨ p.info.field = "attribute"

/-- True if some marks can be shared out to the nodes of a part. -/
inductive Holds : Part → Multiset Mark → Prop
  /-- A name is referred to and declared. -/
  | name {p : Part} (h : p.IsName) :
    Holds p {⟨.reference, p.location⟩, ⟨.symbol, p.location⟩}
  /-- Any node may give a symbol its place. -/
  | symbol (p : Part) : Holds p {⟨.symbol, p.location⟩}
  /-- Any node may be reported. -/
  | report (p : Part) : Holds p {⟨.report, p.location⟩}
  /-- Children have their shares, each child one at most. -/
  | share {p : Part} {shares : List (Part × Multiset Mark)} (hshares : ∀ s ∈ shares, Holds s.1 s.2)
      (hchildren : (shares.map Prod.fst).Subperm p.children) : Holds p (shares.map Prod.snd).sum
  /-- Marks may be left out. -/
  | mono {p : Part} {ms ms' : Multiset Mark} (hle : ms ≤ ms') (h : Holds p ms') : Holds p ms

/-- True if some parts hold some marks among them. -/
def HeldAmong (ps : List Part) (ms : Multiset Mark) : Prop :=
  ∃ shares : List (Part × Multiset Mark), (∀ s ∈ shares, s.1.Holds s.2) ∧
    shares.map Prod.fst = ps ∧ ms ≤ (shares.map Prod.snd).sum

variable {p : Part} {ps qs : List Part} {ms ns : Multiset Mark}

/-- No marks can be shared out in any part. -/
theorem Holds.zero (p : Part) : p.Holds 0 := .mono (Multiset.zero_le _) (.report p)

/-- A reference alone. -/
theorem Holds.reference (h : p.IsName) : p.Holds {⟨.reference, p.location⟩} :=
  .mono (Multiset.singleton_le.2 (by simp)) (.name h)

/-- What a part holds does not depend on what the part means. -/
theorem Holds.congr {q : Part} (h : p.Holds ms) (hinfo : q.info = p.info) (hword : q.word = p.word)
    (hchildren : q.children = p.children) : q.Holds ms := by
  have hlocation : p.location = q.location := congrArg Word.location hword.symm
  -- What is shared out depends on the infos, the location and the children of a part.
  induction h with
  | @name p h =>
    rw [hlocation]
    refine .name ?_
    rw [IsName, kind, hinfo]
    exact h
  | symbol p => exact hlocation ▸ .symbol q
  | report p => exact hlocation ▸ .report q
  | share hshares hsub => exact .share hshares (hchildren ▸ hsub)
  | mono hle _ ih => exact .mono hle (ih hinfo hword hchildren hlocation)

/-- What some of the children hold among them, the part holds. -/
theorem HeldAmong.holds (h : HeldAmong ps ms) (hps : ps.Subperm p.children) : p.Holds ms := by
  obtain ⟨shares, hshares, rfl, hle⟩ := h
  exact .mono hle (.share hshares hps)

/-- Parts hold no marks among them. -/
theorem HeldAmong.zero (ps : List Part) : HeldAmong ps 0 :=
  ⟨ps.map fun c => (c, 0), by simpa using fun c _ => Holds.zero c,
    by simp [Function.comp_def], Multiset.zero_le _⟩

/-- Lists of parts hold together what each of them holds. -/
theorem HeldAmong.append (h : HeldAmong ps ms) (h' : HeldAmong qs ns) :
    HeldAmong (ps ++ qs) (ms + ns) := by
  obtain ⟨shares, hshares, rfl, hle⟩ := h
  obtain ⟨shares', hshares', rfl, hle'⟩ := h'
  refine ⟨shares ++ shares', List.forall_mem_append.2 ⟨hshares, hshares'⟩, by simp, ?_⟩
  rw [List.map_append, List.sum_append]
  exact add_le_add hle hle'

/-- What a part holds, a list of this part holds. -/
theorem HeldAmong.singleton (h : p.Holds ms) : HeldAmong [p] ms :=
  ⟨[(p, ms)], by simpa using h, rfl, by simp⟩

/-- One more part holds one more share. -/
theorem HeldAmong.cons (h : p.Holds ms) (h' : HeldAmong ps ns) : HeldAmong (p :: ps) (ms + ns) :=
  (singleton h).append h'

/-- Parts hold among them the sum of what each of them holds. -/
theorem HeldAmong.map {f : Part → Multiset Mark} (h : ∀ c ∈ ps, c.Holds (f c)) :
    HeldAmong ps (ps.map f).sum :=
  ⟨ps.map fun c => (c, f c), by simpa using h, by simp [Function.comp_def],
    by simp [Function.comp_def]⟩

/-! ### The children of a part -/

/-- A part holds what a child holds. -/
theorem holds_child {c : Part} (hc : c ∈ p.children) (h : c.Holds ms) : p.Holds ms :=
  (HeldAmong.singleton h).holds (List.singleton_subperm_iff.2 hc)

/-- The named children hold what each of them holds. -/
theorem holds_named {f : Part → Multiset Mark} (h : ∀ c ∈ p.named, c.Holds (f c)) :
    p.Holds (p.named.map f).sum :=
  (HeldAmong.map h).holds List.filter_sublist.subperm

/-- The first of the named children holds what it makes, and without one nothing is made. -/
theorem holds_head? (hnone : p.named.head? = none → ms = 0)
    (hsome : ∀ c ∈ p.named, p.named.head? = some c → c.Holds ms) : p.Holds ms := by
  cases hc : p.named.head? with
  | none =>
    rw [hnone hc]
    exact .zero p
  | some c =>
    have hmem := List.mem_of_head? hc
    exact holds_child (mem_children_of_named hmem) (hsome c hmem hc)

/-- The child in a field is the first of the children in the field. -/
theorem fields_eq_cons {c : Part} {name : String} (h : p.field? name = some c) :
    ∃ rest, p.fields name = c :: rest := by
  rw [field?, ← List.head?_filter] at h
  exact List.head?_eq_some_iff.1 h

/-- The children in a field hold what the first of them holds, and without one nothing. -/
theorem heldAmong_field {name : String} (hnone : p.field? name = none → ms = 0)
    (hsome : ∀ c, p.field? name = some c → c.Holds ms) : HeldAmong (p.fields name) ms := by
  cases hc : p.field? name with
  | none =>
    rw [hnone hc]
    exact .zero _
  | some c =>
    obtain ⟨rest, hrest⟩ := fields_eq_cons hc
    rw [hrest, ← add_zero ms]
    exact .cons (hsome c hc) (.zero rest)

/-- No part fills two fields. -/
theorem subperm_flatMap_filter_field {names : List String} (h : names.Nodup) (l : List Part) :
    (names.flatMap fun name => l.filter fun c => c.info.field = name).Subperm l := by
  induction names generalizing l with
  | nil => exact List.nil_subperm
  | cons name names ih =>
    obtain ⟨hname, hnames⟩ := List.nodup_cons.1 h
    -- The parts that are left fill the fields that are left.
    have hrest : (names.flatMap fun n => l.filter fun c => c.info.field = n) =
        names.flatMap fun n => (l.filter fun c => !decide (c.info.field = name)).filter
          fun c => c.info.field = n := by
      refine List.flatMap_congr fun n hn => ?_
      rw [List.filter_filter]
      refine List.filter_congr fun c _ => ?_
      by_cases hc : c.info.field = n
      · have hne : n ≠ name := fun heq => hname (heq ▸ hn)
        simp [hc, hne]
      · simp [hc]
    rw [List.flatMap_cons, hrest]
    exact ((List.subperm_append_left _).2 (ih hnames _)).trans
      (List.filter_append_perm (fun c : Part => decide (c.info.field = name)) l).subperm

/-- What the children in a field hold, the part holds. -/
theorem HeldAmong.holds_of_field {name : String} (h : HeldAmong (p.fields name) ms) : p.Holds ms :=
  h.holds List.filter_sublist.subperm

/-- The children in some fields, each field taken once. -/
theorem subperm_fields (names : List String) (hps : ps = names.flatMap p.fields)
    (hnames : names.Nodup) : ps.Subperm p.children :=
  hps ▸ subperm_flatMap_filter_field hnames p.children

/-- Two children. -/
theorem subperm_pair {c d : Part} (hc : c ∈ p.children) (hd : d ∈ p.children) (h : c ≠ d) :
    [c, d].Subperm p.children :=
  List.subperm_of_subset (by simpa using h) (by simp [hc, hd])

/-- The children of some sort and a child of another sort. -/
theorem subperm_filter_append {P : Part → Bool} {c : Part} (hc : c ∈ p.children)
    (h : P c = false) : (p.children.filter P ++ [c]).Subperm p.children := by
  have hother : [c].Subperm (p.children.filter fun d => !P d) :=
    List.singleton_subperm_iff.2 (List.mem_filter.2 ⟨hc, by simp [h]⟩)
  exact ((List.subperm_append_left _).2 hother).trans (List.filter_append_perm P p.children).subperm

/-! ### Places -/

/-- The part at the end of a path. -/
def at? : Part → List Nat → Option Part
  | p, [] => some p
  | p, i :: path => (p.children[i]?).bind fun c => c.at? path

/-- Going down in a part leads to what is read from the node there. -/
theorem at?_ofNode (source : SourceText) (n : Node) (path : List Nat) :
    (ofNode source n).at? path = (n.at? path).map (ofNode source) := by
  induction path generalizing n with
  | nil => rfl
  | cons i path ih =>
    rw [at?, children_ofNode, List.getElem?_map, Node.at?]
    cases n.children[i]? with
    | none => rfl
    | some c => exact ih c

/-- True if a mark is about the node at the end of a path. -/
def Stands (p : Part) (x : Mark × List Nat) : Prop :=
  ∃ q, p.at? x.2 = some q ∧ q.location = x.1.location ∧ (x.1.kind = .reference → q.IsName)

/-- A mark that stands in a child stands in the part, one step further down. -/
theorem Stands.cons {c : Part} {i : Nat} (hc : p.children[i]? = some c) {x : Mark × List Nat}
    (h : c.Stands x) : p.Stands (x.1, i :: x.2) := by
  obtain ⟨q, hq, hx⟩ := h
  exact ⟨q, by simp [at?, hc, hq], hx⟩

end Part

/-- True for two marks that are not about one node, nor about nodes one of which is above the other.
A symbol may stand anywhere but at a report. -/
def Apart (x y : Mark × List Nat) : Prop :=
  Diverge x.2 y.2 ∨ (x.1.kind = .symbol ∧ y.1.kind ≠ .report) ∨
    (y.1.kind = .symbol ∧ x.1.kind ≠ .report)

/-- Marks are apart in either order. -/
theorem Apart.symm {x y : Mark × List Nat} (h : Apart x y) : Apart y x :=
  h.imp Diverge.symm Or.symm

instance : Std.Symm Apart := ⟨fun _ _ => Apart.symm⟩

/-- Marks that are apart in a child are apart in the part. -/
theorem Apart.cons (i : Nat) {x y : Mark × List Nat} (h : Apart x y) :
    Apart (x.1, i :: x.2) (y.1, i :: y.2) := h.imp_left (diverge_cons_iff i).2

/-- Fewer images are the images of fewer elements, in any order. -/
theorem exists_map_eq_of_le {α β : Type} {f : α → β} {l : List α} {ys : List β}
    (h : (ys : Multiset β) ≤ (l.map f : List β)) : ∃ xs : List α, xs.Subperm l ∧ xs.map f = ys := by
  obtain ⟨zs, hperm, hsub⟩ : ys.Subperm (l.map f) := h
  obtain ⟨kept, hkept, rfl⟩ := List.sublist_map_iff.1 hsub
  have himages : List.Forall₂ (fun y x => f x = y) (kept.map f) kept := by
    rw [List.forall₂_map_left_iff]
    exact List.forall₂_same.2 fun x _ => rfl
  obtain ⟨xs, hxs, hperm'⟩ := List.perm_comp_forall₂ hperm.symm himages
  refine ⟨xs, hperm'.subperm.trans hkept.subperm, ?_⟩
  rw [← List.forall₂_eq_eq_eq, List.forall₂_map_left_iff]
  exact hxs.flip

/-- What holds of any two elements of a list, in either order, holds of those that are taken out. -/
theorem pairwise_of_subperm {α : Type} {R : α → α → Prop} (hsymm : ∀ {x y}, R x y → R y x)
    {xs l : List α} (h : l.Pairwise R) (hsub : xs.Subperm l) : xs.Pairwise R := by
  obtain ⟨ys, hperm, hys⟩ := hsub
  exact hperm.pairwise (h.sublist hys) hsymm

/-- Where the elements of a list stand that are taken out of it. -/
theorem exists_positions {α : Type} {xs l : List α} (h : xs.Subperm l) :
    ∃ positions : List Nat, positions.Nodup ∧
      List.Forall₂ (fun i x => l[i]? = some x) positions xs := by
  obtain ⟨ys, hperm, hsub⟩ := h
  obtain ⟨f, hf⟩ := List.sublist_iff_exists_orderEmbedding_getElem?_eq.1 hsub
  have hys : List.Forall₂ (fun i y => l[i]? = some y) ((List.range ys.length).map f) ys := by
    refine List.forall₂_iff_get.2 ⟨by simp, fun i hi hi' => ?_⟩
    simp [← hf, hi']
  obtain ⟨positions, hxs, hpositions⟩ := List.perm_comp_forall₂ hperm.symm hys.flip
  exact ⟨positions, hpositions.nodup_iff.2 (List.nodup_range.map f.injective), hxs.flip⟩

namespace Part

variable {p : Part} {ms : Multiset Mark}

/-- The places in the children are places in the part, one child after the other. -/
theorem exists_places_below {positions : List Nat} {shares : List (Part × Multiset Mark)}
    (h : List.Forall₂ (fun i s => p.children[i]? = some s.1) positions shares)
    (hpositions : positions.Nodup)
    (hshares : ∀ s ∈ shares, ∃ places : List (Mark × List Nat),
      (places.map Prod.fst : List Mark) = s.2 ∧ (∀ x ∈ places, s.1.Stands x) ∧
        places.Pairwise Apart) :
    ∃ places : List (Mark × List Nat), (places.map Prod.fst : List Mark) = (shares.map Prod.snd).sum ∧
      (∀ x ∈ places, p.Stands x ∧ ∃ i ∈ positions, ∃ path, x.2 = i :: path) ∧
      places.Pairwise Apart := by
  induction h with
  | nil => exact ⟨[], rfl, nofun, .nil⟩
  | @cons i s positions shares hi _ ih =>
    obtain ⟨hmem, hpositions⟩ := List.nodup_cons.1 hpositions
    obtain ⟨places, hmarks, hplaces, hapart⟩ := hshares s List.mem_cons_self
    obtain ⟨rest, hmarks', hplaces', hapart'⟩ :=
      ih hpositions fun s hs => hshares s (List.mem_cons_of_mem _ hs)
    refine ⟨places.map (fun x => (x.1, i :: x.2)) ++ rest, ?_, ?_, ?_⟩
    · rw [List.map_append, List.map_map, ← Multiset.coe_add, hmarks', List.map_cons, List.sum_cons,
        ← hmarks]
      rfl
    · refine List.forall_mem_append.2 ⟨fun x hx => ?_, fun x hx => ?_⟩
      · obtain ⟨y, hy, rfl⟩ := List.mem_map.1 hx
        exact ⟨(hplaces y hy).cons hi, i, List.mem_cons_self, y.2, rfl⟩
      · obtain ⟨hx, j, hj, path, hpath⟩ := hplaces' x hx
        exact ⟨hx, j, List.mem_cons_of_mem i hj, path, hpath⟩
    · refine List.pairwise_append.2 ⟨List.pairwise_map.2 (hapart.imp (Apart.cons i)), hapart', ?_⟩
      intro x hx y hy
      obtain ⟨x, -, rfl⟩ := List.mem_map.1 hx
      obtain ⟨-, j, hj, path, hpath⟩ := hplaces' y hy
      -- Places in different children diverge at once.
      have hij : i ≠ j := fun hij => hmem (hij ▸ hj)
      refine .inl ?_
      rw [hpath]
      exact diverge_of_ne hij _ _

/-- Marks that are shared out in a part have places there that are apart from one another. -/
theorem Holds.exists_places (h : p.Holds ms) :
    ∃ places : List (Mark × List Nat), (places.map Prod.fst : List Mark) = ms ∧
      (∀ x ∈ places, p.Stands x) ∧ places.Pairwise Apart := by
  -- The induction is on how the marks are shared out; children at different positions diverge.
  induction h with
  | @name p h =>
    refine ⟨[(⟨.reference, p.location⟩, []), (⟨.symbol, p.location⟩, [])], rfl, ?_, ?_⟩
    · simpa [Stands, at?] using h
    · simp [Apart]
  | symbol p => exact ⟨[(⟨.symbol, p.location⟩, [])], rfl, by simp [Stands, at?], by simp⟩
  | report p => exact ⟨[(⟨.report, p.location⟩, [])], rfl, by simp [Stands, at?], by simp⟩
  | @share p shares _ hchildren ih =>
    obtain ⟨positions, hnodup, hpositions⟩ := exists_positions hchildren
    have hshares : List.Forall₂ (fun i s => p.children[i]? = some s.1) positions shares :=
      List.forall₂_map_right_iff (R := fun i c => p.children[i]? = some c).1 hpositions
    obtain ⟨places, hmarks, hplaces, hapart⟩ := exists_places_below hshares hnodup ih
    exact ⟨places, hmarks, fun x hx => (hplaces x hx).1, hapart⟩
  | @mono p ms _ hle _ ih =>
    obtain ⟨places, hmarks, hplaces, hapart⟩ := ih
    induction ms using Quotient.inductionOn with
    | h ys =>
      obtain ⟨kept, hkept, hmarks'⟩ := exists_map_eq_of_le (hmarks ▸ hle)
      exact ⟨kept, congrArg _ hmarks', fun x hx => hplaces x (hkept.subset hx),
        pairwise_of_subperm Apart.symm hapart hkept⟩

end Part

end NameAtlas.Python
