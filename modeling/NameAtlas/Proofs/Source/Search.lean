import Mathlib.Computability.StateTransition
import NameAtlas.Proofs.Source.Broken

/-!
# The search for broken nodes

The outermost broken nodes of a tree can be searched for with a stack of trees (`ErrorSearch`). A
turn takes the tree on top. If its node is broken, it is found; if it is marked, its children are
put on the stack, the last one first; otherwise nothing below it is looked at. A turn leaves what is
found in all as it is (`outcome_of_step`) and fewer nodes on the stack (`remaining_lt_of_step`), so
the search ends, with just what the recursion over the tree finds (`outcome_mem_eval`).

What that is depends on the marks. If they tell of each node that is not broken itself whether
something broken stands below it (`MarksDamageBelow`), then whatever is the first broken node on its
path from the root (`BreaksAt`) is found. The order of the source is that of the paths as lists of
numbers: a node comes before those below it, and these come before all that stands further right.
-/

namespace NameAtlas.Source

namespace Node

/-! ### The recursion -/

/-- A search takes a broken node as it is, goes on below a marked one and passes over any other. -/
theorem syntaxErrors_eq (n : Node) : n.syntaxErrors =
    if n.info.isBroken then [n.info]
    else if n.info.malformed then syntaxErrorsOf n.children else [] := by
  cases n
  rfl

/-- Two lists are searched one behind the other. -/
theorem syntaxErrorsOf_append (ns ms : List Node) :
    syntaxErrorsOf (ns ++ ms) = syntaxErrorsOf ns ++ syntaxErrorsOf ms := by
  induction ns with
  | nil => rfl
  | cons n rest ih =>
    rw [List.cons_append, syntaxErrorsOf, syntaxErrorsOf, ih, List.append_assoc]

/-- The nodes of a tree are the root and those below it. -/
theorem infos_eq (n : Node) : n.infos = n.info :: infosOf n.children := by
  cases n
  rfl

end Node

/-! ### The stack -/

/-- A search for the outermost broken nodes. -/
structure ErrorSearch where
  /-- The trees that are still to be searched, the next one first. -/
  stack : List Node
  /-- The nodes found so far, in the order in which they were found. -/
  found : List NodeInfo

namespace ErrorSearch

/-- The search in a tree before the first turn. -/
def start (tree : Node) : ErrorSearch := ⟨[tree], []⟩

/-- The stack with some trees put on it, one after the other. -/
def push (stack ns : List Node) : List Node := ns.foldl (fun below n => n :: below) stack

/-- A turn of the search, if there is a tree left: what is broken is found, and of all else what is
marked is replaced by its children. -/
def step : ErrorSearch → Option ErrorSearch
  | ⟨[], _⟩ => none
  | ⟨n :: stack, found⟩ =>
    if n.info.isBroken then some ⟨stack, found ++ [n.info]⟩
    else if n.info.malformed then some ⟨push stack n.children.reverse, found⟩
    else some ⟨stack, found⟩

/-- What the search will have found in the end. -/
def outcome (s : ErrorSearch) : List NodeInfo := s.found ++ Node.syntaxErrorsOf s.stack

/-- How many nodes are on the stack or below it. -/
def remaining (s : ErrorSearch) : Nat := (Node.infosOf s.stack).length

/-- Trees that are put on a stack from the last to the first are taken from it in order. -/
theorem push_reverse (stack ns : List Node) : push stack ns.reverse = ns ++ stack := by
  rw [push, List.foldl_flip_cons_eq_append', List.reverse_reverse]

variable {s t : ErrorSearch}

/-- Only an empty stack ends the search. -/
theorem stack_of_step_eq_none (h : s.step = none) : s.stack = [] := by
  obtain ⟨stack, found⟩ := s
  cases stack with
  | nil => rfl
  | cons n stack =>
    rw [step] at h
    split_ifs at h

/-- What a turn does with the tree on top of the stack. -/
theorem step_cases (h : s.step = some t) : ∃ n stack, s.stack = n :: stack ∧
    ((n.info.isBroken ∧ t = ⟨stack, s.found ++ [n.info]⟩) ∨
      (¬n.info.isBroken ∧ n.info.malformed ∧ t = ⟨n.children ++ stack, s.found⟩) ∨
      (¬n.info.isBroken ∧ ¬n.info.malformed ∧ t = ⟨stack, s.found⟩)) := by
  obtain ⟨stack, found⟩ := s
  cases stack with
  | nil => cases h
  | cons n stack =>
    rw [step, push_reverse] at h
    refine ⟨n, stack, rfl, ?_⟩
    split_ifs at h with hbroken hmalformed
    · exact .inl ⟨hbroken, (Option.some.inj h).symm⟩
    · exact .inr (.inl ⟨hbroken, hmalformed, (Option.some.inj h).symm⟩)
    · exact .inr (.inr ⟨hbroken, hmalformed, (Option.some.inj h).symm⟩)

/-- A turn leaves what is found in all as it is. -/
theorem outcome_of_step (h : s.step = some t) : t.outcome = s.outcome := by
  obtain ⟨n, stack, hstack, hturn⟩ := step_cases h
  rw [outcome, outcome, hstack, Node.syntaxErrorsOf, Node.syntaxErrors_eq]
  rcases hturn with ⟨hbroken, rfl⟩ | ⟨hbroken, hmalformed, rfl⟩ | ⟨hbroken, hmalformed, rfl⟩
  · rw [if_pos hbroken, List.append_assoc]
  · rw [if_neg hbroken, if_pos hmalformed, Node.syntaxErrorsOf_append]
  · rw [if_neg hbroken, if_neg hmalformed, List.nil_append]

/-- A turn leaves fewer nodes on the stack. -/
theorem remaining_lt_of_step (h : s.step = some t) : t.remaining < s.remaining := by
  obtain ⟨n, stack, hstack, hturn⟩ := step_cases h
  rw [remaining, remaining, hstack, Node.infosOf, Node.infos_eq]
  rcases hturn with ⟨-, rfl⟩ | ⟨-, -, rfl⟩ | ⟨-, -, rfl⟩
  · simp only [List.length_append, List.length_cons]
    omega
  · simp only [Node.infosOf_append, List.length_append, List.length_cons]
    omega
  · simp only [List.length_append, List.length_cons]
    omega

/-- The search ends with an empty stack and has found what it was to find. -/
theorem outcome_mem_eval (s : ErrorSearch) : ⟨[], s.outcome⟩ ∈ StateTransition.eval step s := by
  -- Each turn leaves fewer nodes on the stack, so the induction is on their number.
  induction hremaining : s.remaining using Nat.strongRecOn generalizing s with
  | ind k ih =>
    cases hstep : s.step with
    | none =>
      have hstack := stack_of_step_eq_none hstep
      have hself : s = ⟨[], s.outcome⟩ := by
        rw [outcome, hstack, Node.syntaxErrorsOf, List.append_nil, ← hstack]
      rw [← hself]
      exact StateTransition.mem_eval.2 ⟨Relation.ReflTransGen.refl, hstep⟩
    | some t =>
      have hlt : t.remaining < k := hremaining ▸ remaining_lt_of_step hstep
      have hreaches : StateTransition.Reaches step s t := Relation.ReflTransGen.single hstep
      rw [StateTransition.reaches_eval hreaches, ← outcome_of_step hstep]
      exact ih _ hlt t rfl

end ErrorSearch

namespace Node

/-! ### Marks that tell what stands below -/

/-- True if of the nodes of a tree that are not broken just those are marked as malformed that have
something broken below them. -/
def MarksDamageBelow (n : Node) : Prop :=
  ∀ t ∈ n.subtrees, ¬t.info.isBroken → (t.info.malformed ↔ ∃ c ∈ t.children, c.Damaged)

instance (n : Node) : Decidable n.MarksDamageBelow :=
  inferInstanceAs (Decidable (∀ t ∈ n.subtrees, ¬t.info.isBroken →
    (t.info.malformed ↔ ∃ c ∈ t.children, c.Damaged)))

variable {n c : Node}

/-- A broken node is damaged. -/
theorem damaged_of_isBroken (h : n.info.isBroken) : n.Damaged := ⟨n, self_mem_subtrees n, h⟩

/-- Damage is passed on to the node above. -/
theorem Damaged.of_mem_children (hc : c ∈ n.children) (h : c.Damaged) : n.Damaged := by
  obtain ⟨u, hu, hbroken⟩ := h
  exact ⟨u, subtrees_subset_of_mem_children hc hu, hbroken⟩

/-- Such marks lead from each node that is not broken to what is broken below it. -/
theorem MarksDamageBelow.passesMarksOn (h : n.MarksDamageBelow) {t : Node} (ht : t ∈ n.subtrees)
    (hkept : ¬t.info.isBroken) : t.PassesMarksOn := by
  intro c hc hmark
  refine (h t ht hkept).2 ⟨c, hc, ?_⟩
  by_cases hbroken : c.info.isBroken
  · exact damaged_of_isBroken hbroken
  · have hmalformed : c.info.malformed := hmark.resolve_left hbroken
    have hsub : c ∈ n.subtrees :=
      subtrees_subset_of_mem_subtrees ht (subtrees_subset_of_mem_children hc (self_mem_subtrees c))
    obtain ⟨d, hd, hdamaged⟩ := (h c hsub hbroken).1 hmalformed
    exact hdamaged.of_mem_children hd

/-- Where damage is marked, the search finds the outermost broken nodes. -/
theorem MarksDamageBelow.syntaxErrors_eq_broken (h : n.MarksDamageBelow) :
    n.syntaxErrors = n.broken := by
  by_cases hroot : n.info.isBroken
  · obtain ⟨info, children⟩ := n
    exact (if_pos hroot).trans (if_pos hroot).symm
  · exact syntaxErrors_of_marked n fun t ht =>
      h.passesMarksOn (sound_subset_subtrees n ht) (not_isBroken_of_mem_sound hroot t ht)

/-! ### Where the outermost broken nodes stand -/

/-- At the end of the path stands an outermost broken node. -/
structure BreaksAt (n : Node) (p : List Nat) : Prop where
  /-- The node at the end of the path is broken. -/
  broken : ∃ m, n.at? p = some m ∧ m.info.isBroken
  /-- No node above it is. -/
  above : ∀ q, q <+: p → q ≠ p → ∀ m, n.at? q = some m → ¬m.info.isBroken

mutual

/-- The paths to the outermost broken nodes of a tree, in source order. -/
def brokenPaths : Node → List (List Nat)
  | .mk info children => if info.isBroken then [[]] else brokenPathsFrom 0 children

/-- The paths to the outermost broken nodes of the children from some position on. -/
def brokenPathsFrom : Nat → List Node → List (List Nat)
  | _, [] => []
  | i, n :: rest => (brokenPaths n).map (i :: ·) ++ brokenPathsFrom (i + 1) rest

end

/-- A broken root is the only outermost broken node; otherwise they lie below the children. -/
theorem brokenPaths_eq (n : Node) :
    n.brokenPaths = if n.info.isBroken then [[]] else brokenPathsFrom 0 n.children := by
  cases n
  rfl

/-- The paths of a list lead to the outermost broken nodes of its members, counted from the given
position. -/
theorem mem_brokenPathsFrom {i : Nat} {ns : List Node} {p : List Nat} :
    p ∈ brokenPathsFrom i ns ↔ ∃ j q c, p = (i + j) :: q ∧ ns[j]? = some c ∧ q ∈ c.brokenPaths := by
  -- The induction is on the list, and the position counts on with it.
  induction ns generalizing i with
  | nil => simp [brokenPathsFrom]
  | cons n rest ih =>
    have hshift : ∀ j, i + 1 + j = i + (j + 1) := fun j => by omega
    rw [brokenPathsFrom, List.mem_append, List.mem_map, ih]
    constructor
    · rintro (⟨q, hq, rfl⟩ | ⟨j, q, c, rfl, hc, hq⟩)
      · exact ⟨0, q, n, rfl, rfl, hq⟩
      · exact ⟨j + 1, q, c, by rw [hshift], hc, hq⟩
    · rintro ⟨j, q, c, rfl, hc, hq⟩
      cases j with
      | zero =>
        obtain rfl : n = c := Option.some.inj hc
        exact .inl ⟨q, hq, rfl⟩
      | succ j => exact .inr ⟨j, q, c, by rw [hshift], hc, hq⟩

/-- Below a node that is not broken, a path breaks where it does below the child that it goes to. -/
theorem breaksAt_cons_iff (hkept : ¬n.info.isBroken) {i : Nat} {p : List Nat} :
    n.BreaksAt (i :: p) ↔ ∃ c, n.children[i]? = some c ∧ c.BreaksAt p := by
  -- Nothing broken stands above the path exactly if the root is not broken and nothing is above it
  -- in the child.
  constructor
  · rintro ⟨⟨m, hm, hbroken⟩, habove⟩
    obtain ⟨c, hc, -, hm⟩ := at?_cons hm
    refine ⟨c, hc, ⟨m, hm, hbroken⟩, fun q hq hne u hu => ?_⟩
    have hprefix : i :: q <+: i :: p := List.cons_prefix_cons.2 ⟨rfl, hq⟩
    refine habove (i :: q) hprefix (fun h => hne (List.cons.inj h).2) u ?_
    rw [at?, hc]
    exact hu
  · rintro ⟨c, hc, ⟨m, hm, hbroken⟩, habove⟩
    refine ⟨⟨m, by rw [at?, hc]; exact hm, hbroken⟩, fun q hq hne u hu => ?_⟩
    cases q with
    | nil => exact Option.some.inj hu ▸ hkept
    | cons j q =>
      obtain ⟨rfl, hrest⟩ := List.cons_prefix_cons.1 hq
      obtain ⟨d, hd, -, hu⟩ := at?_cons hu
      obtain rfl : c = d := Option.some.inj (hc.symm.trans hd)
      exact habove q hrest (fun h => hne (congrArg (j :: ·) h)) u hu

/-- The root is an outermost broken node exactly if it is broken. -/
theorem breaksAt_nil_iff : n.BreaksAt [] ↔ n.info.isBroken := by
  constructor
  · rintro ⟨⟨m, hm, hbroken⟩, -⟩
    exact Option.some.inj hm ▸ hbroken
  · intro hbroken
    exact ⟨⟨n, rfl, hbroken⟩, fun q hq hne => absurd (List.prefix_nil.1 hq) hne⟩

/-- The paths that are listed are those of the outermost broken nodes. -/
theorem mem_brokenPaths_iff {p : List Nat} : p ∈ n.brokenPaths ↔ n.BreaksAt p := by
  induction p generalizing n with
  | nil =>
    rw [brokenPaths_eq, breaksAt_nil_iff]
    split_ifs with hbroken
    · simp [hbroken]
    · simp [hbroken, mem_brokenPathsFrom]
  | cons i p ih =>
    rw [brokenPaths_eq]
    split_ifs with hbroken
    · -- The root is broken, and it stands above all the other nodes.
      refine iff_of_false (by simp) fun h => ?_
      exact h.above [] List.nil_prefix (List.cons_ne_nil i p).symm n rfl hbroken
    · rw [breaksAt_cons_iff hbroken, mem_brokenPathsFrom]
      constructor
      · rintro ⟨j, q, c, hp, hc, hq⟩
        obtain ⟨rfl, rfl⟩ := List.cons.inj hp
        exact ⟨c, by rwa [Nat.zero_add], ih.1 hq⟩
      · rintro ⟨c, hc, hbreaks⟩
        exact ⟨i, p, c, by rw [Nat.zero_add], hc, ih.2 hbreaks⟩

mutual

/-- The paths are in the order of the source. -/
theorem pairwise_brokenPaths : ∀ n : Node, n.brokenPaths.Pairwise (· < ·)
  | .mk info children => by
    rw [brokenPaths]
    split_ifs
    · exact List.pairwise_singleton _ _
    · exact pairwise_brokenPathsFrom 0 children

/-- The paths of a list come in their order. -/
theorem pairwise_brokenPathsFrom :
    ∀ (i : Nat) (ns : List Node), (brokenPathsFrom i ns).Pairwise (· < ·)
  | _, [] => .nil
  | i, n :: rest => by
    rw [brokenPathsFrom, List.pairwise_append]
    refine ⟨?_, pairwise_brokenPathsFrom (i + 1) rest, fun p hp q hq => ?_⟩
    · exact List.pairwise_map.2 ((pairwise_brokenPaths n).imp fun h => List.cons_lt_cons_self.2 h)
    · -- The one goes to this child, the other to one behind it.
      obtain ⟨p, -, rfl⟩ := List.mem_map.1 hp
      obtain ⟨j, q, -, rfl, -⟩ := mem_brokenPathsFrom.1 hq
      exact List.cons_lt_cons_iff.2 (.inl (by omega))

end

mutual

/-- The outermost broken nodes are the nodes at the ends of their paths. -/
theorem map_at?_brokenPaths : ∀ n : Node,
    n.brokenPaths.map (fun p => (n.at? p).map info) = n.broken.map some
  | .mk info children => by
    rw [brokenPaths, broken]
    split_ifs
    · rfl
    · exact map_at?_brokenPathsFrom (.mk info children) 0 children rfl

/-- At the paths of a list stand its outermost broken nodes. -/
theorem map_at?_brokenPathsFrom (n : Node) : ∀ (i : Nat) (ns : List Node), n.children.drop i = ns →
    (brokenPathsFrom i ns).map (fun p => (n.at? p).map info) = (brokenIn ns).map some
  | _, [], _ => rfl
  | i, c :: rest, h => by
    have hc : n.children[i]? = some c := by rw [← List.head?_drop, h, List.head?_cons]
    have hrest : n.children.drop (i + 1) = rest := by rw [← List.tail_drop, h, List.tail_cons]
    have hchild : ∀ p, n.at? (i :: p) = c.at? p := fun p => by rw [at?, hc]; rfl
    rw [brokenPathsFrom, brokenIn, List.map_append, List.map_append,
      map_at?_brokenPathsFrom n (i + 1) rest hrest, List.map_map]
    simp only [Function.comp_def, hchild]
    rw [map_at?_brokenPaths c]

end

/-- Where the marks tell what stands below, the search ends and has found the outermost broken
nodes, which are those at the ends of just these paths, each of them once and in source order. -/
theorem search_lists_outermost (tree : Node) (h : tree.MarksDamageBelow) :
    ⟨[], tree.syntaxErrors⟩ ∈ StateTransition.eval ErrorSearch.step (.start tree) ∧
      ∃ paths : List (List Nat), paths.Pairwise (· < ·) ∧ (∀ p, p ∈ paths ↔ tree.BreaksAt p) ∧
        paths.map (fun p => (tree.at? p).map info) = tree.syntaxErrors.map some := by
  have houtcome : (ErrorSearch.start tree).outcome = tree.syntaxErrors := by
    rw [ErrorSearch.outcome, ErrorSearch.start, syntaxErrorsOf, syntaxErrorsOf, List.nil_append,
      List.append_nil]
  refine ⟨houtcome ▸ ErrorSearch.outcome_mem_eval (.start tree), tree.brokenPaths,
    pairwise_brokenPaths tree, fun p => mem_brokenPaths_iff, ?_⟩
  rw [h.syntaxErrors_eq_broken]
  exact map_at?_brokenPaths tree

/-- The tree of `a ? b`, where the question mark cannot be placed, and then of `f(c`, where the
bracket is missing. -/
def nestedErrors : Node :=
  .mk ⟨0, "module", "", 0, 10, true, false, true⟩
    [.mk ⟨1, "ERROR", "", 0, 3, true, false, true⟩
      [.mk ⟨2, "identifier", "", 0, 1, true, false, false⟩ [],
        .mk ⟨3, "ERROR", "", 2, 3, true, false, true⟩ []],
      .mk ⟨4, "expression_statement", "", 4, 5, true, false, false⟩
        [.mk ⟨5, "identifier", "", 4, 5, true, false, false⟩ []],
      .mk ⟨6, "expression_statement", "", 6, 9, true, false, true⟩
        [.mk ⟨7, "call", "", 6, 9, true, false, true⟩
          [.mk ⟨8, "identifier", "function", 6, 7, true, false, false⟩ [],
            .mk ⟨9, "argument_list", "arguments", 7, 9, true, false, true⟩
              [.mk ⟨10, "identifier", "", 8, 9, true, false, false⟩ [],
                .mk ⟨11, ")", "", 9, 9, false, true, true⟩ []]]]]

/-- The error inside another one is not found, and the missing bracket is. -/
theorem search_lists_outermost_nestedErrors :
    nestedErrors.MarksDamageBelow ∧ nestedErrors.syntaxErrors.map NodeInfo.id = [1, 11] ∧
      ⟨[], nestedErrors.syntaxErrors⟩ ∈
        StateTransition.eval ErrorSearch.step (.start nestedErrors) ∧
      ∃ paths : List (List Nat), paths.Pairwise (· < ·) ∧
        (∀ p, p ∈ paths ↔ nestedErrors.BreaksAt p) ∧
        paths.map (fun p => (nestedErrors.at? p).map info) =
          nestedErrors.syntaxErrors.map some := by
  have hmarks : nestedErrors.MarksDamageBelow := by decide +kernel
  exact ⟨hmarks, by decide +kernel, search_lists_outermost nestedErrors hmarks⟩

end Node

end NameAtlas.Source
