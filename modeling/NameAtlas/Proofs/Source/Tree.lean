import Mathlib.Data.List.Nodup
import NameAtlas.Source.Encoding

/-!
# The nodes of a parse tree

The nodes of a tree in source order (`Node.infos`), and the trees that stand on them
(`Node.subtrees`). A tree that is put together from a list of nodes has the nodes of the list
(`infos_ofEntries?`), so in a tree that a parser hands over, where a node is known by its place in
the list, no two nodes are known as one (`distinctIds_ofJson?`).
-/

namespace NameAtlas.Source.Node

mutual

/-- The nodes of a tree, each in front of its children. -/
def infos : Node → List NodeInfo
  | .mk info children => info :: infosOf children

/-- The nodes of several trees. -/
def infosOf : List Node → List NodeInfo
  | [] => []
  | n :: rest => infos n ++ infosOf rest

end

mutual

/-- The trees in a tree, each in front of those below it. -/
def subtrees : Node → List Node
  | .mk info children => .mk info children :: subtreesOf children

/-- The trees in several trees. -/
def subtreesOf : List Node → List Node
  | [] => []
  | n :: rest => subtrees n ++ subtreesOf rest

end

/-- The nodes of a list are those of its members. -/
theorem infosOf_eq_flatMap (ns : List Node) : infosOf ns = ns.flatMap infos := by
  induction ns with
  | nil => rfl
  | cons n rest ih => rw [infosOf, ih, List.flatMap_cons]

/-- The subtrees of a list are those of its members. -/
theorem subtreesOf_eq_flatMap (ns : List Node) : subtreesOf ns = ns.flatMap subtrees := by
  induction ns with
  | nil => rfl
  | cons n rest ih => rw [subtreesOf, ih, List.flatMap_cons]

/-- The subtrees are the tree itself and those of its children. -/
theorem subtrees_eq (n : Node) : n.subtrees = n :: n.children.flatMap subtrees := by
  cases n
  rw [subtrees, subtreesOf_eq_flatMap]
  rfl

/-- A tree is one of its subtrees. -/
theorem self_mem_subtrees (n : Node) : n ∈ n.subtrees := by
  rw [subtrees_eq]
  exact List.mem_cons_self

/-- The subtrees of a child are subtrees. -/
theorem subtrees_subset_of_mem_children {n c : Node} (h : c ∈ n.children) :
    c.subtrees ⊆ n.subtrees := by
  rw [subtrees_eq n]
  exact fun d hd => List.mem_cons_of_mem _ (List.mem_flatMap.2 ⟨c, h, hd⟩)

mutual

/-- The subtrees of a subtree are subtrees. -/
theorem subtrees_subset_of_mem_subtrees :
    ∀ {n d : Node}, d ∈ n.subtrees → d.subtrees ⊆ n.subtrees
  | .mk info children, d, h => by
    rcases List.mem_cons.1 h with rfl | h
    · exact List.Subset.refl _
    · exact fun e he => List.mem_cons_of_mem _ (subtrees_subset_of_mem_subtreesOf h he)

/-- The subtrees of a subtree in a list are subtrees of the list. -/
theorem subtrees_subset_of_mem_subtreesOf :
    ∀ {ns : List Node} {d : Node}, d ∈ subtreesOf ns → d.subtrees ⊆ subtreesOf ns
  | [], _, h => nomatch h
  | n :: rest, d, h => by
    rcases List.mem_append.1 h with h | h
    · exact fun e he => List.mem_append_left _ (subtrees_subset_of_mem_subtrees h he)
    · exact fun e he => List.mem_append_right _ (subtrees_subset_of_mem_subtreesOf h he)

end

mutual

/-- The nodes of a tree are the roots of its subtrees. -/
theorem map_info_subtrees : ∀ n : Node, n.subtrees.map info = n.infos
  | .mk i children => congrArg (i :: ·) (map_info_subtreesOf children)

/-- The trees in some trees stand on the nodes of these. -/
theorem map_info_subtreesOf : ∀ ns : List Node, (subtreesOf ns).map info = infosOf ns
  | [] => rfl
  | n :: rest => by
    rw [subtreesOf, infosOf, List.map_append, map_info_subtrees n, map_info_subtreesOf rest]

end

/-- The root of a subtree is a node of the tree. -/
theorem info_mem_infos_of_mem_subtrees {n d : Node} (h : d ∈ n.subtrees) : d.info ∈ n.infos := by
  rw [← map_info_subtrees]
  exact List.mem_map_of_mem h

/-- True if no two nodes of a tree have one identity. -/
def DistinctIds (n : Node) : Prop := (n.infos.map NodeInfo.id).Nodup

instance (n : Node) : Decidable n.DistinctIds := inferInstanceAs (Decidable (List.Nodup _))

/-- Where no two nodes have one identity, a tree is known by that of its node. -/
theorem DistinctIds.eq_of_id_eq {n : Node} (h : n.DistinctIds) {c d : Node} (hc : c ∈ n.subtrees)
    (hd : d ∈ n.subtrees) (hid : c.info.id = d.info.id) : c = d := by
  rw [DistinctIds, ← map_info_subtrees, List.map_map] at h
  exact List.inj_on_of_nodup_map h hc hd hid

mutual

/-- True if every node of a tree lies within the node above it. -/
def nested : Node → Bool
  | .mk info children => nestedIn info children

/-- True if some trees lie within a node, and every node of them within the one above it. -/
def nestedIn (outer : NodeInfo) : List Node → Bool
  | [] => true
  | n :: rest =>
    outer.start ≤ n.info.start && n.info.stop ≤ outer.stop && nested n && nestedIn outer rest

end

/-- The nodes of two lists are listed one behind the other. -/
theorem infosOf_append (ns ms : List Node) : infosOf (ns ++ ms) = infosOf ns ++ infosOf ms := by
  simp only [infosOf_eq_flatMap, List.flatMap_append]

/-- Adopting the trees behind a node adds the node to theirs. -/
theorem infosOf_adopt (e : Entry) (following : List (Nat × Node)) :
    infosOf ((adopt e following).map Prod.snd) =
      e.info :: infosOf (following.map Prod.snd) := by
  have hsplit := List.takeWhile_append_dropWhile (p := fun t => decide (e.depth < t.1))
    (l := following)
  rw [adopt, List.map_cons, infosOf, infos, List.cons_append, ← infosOf_append, ← List.map_append,
    hsplit]

/-- Building the trees of some entries keeps the nodes and their order. -/
theorem infosOf_foldr_adopt (es : List Entry) :
    infosOf ((es.foldr adopt []).map Prod.snd) = es.map Entry.info := by
  induction es with
  | nil => rfl
  | cons e rest ih => rw [List.foldr_cons, infosOf_adopt, ih, List.map_cons]

/-- A tree that is built of entries has their nodes, in order. -/
theorem infos_ofEntries? {es : List Entry} {n : Node} (h : ofEntries? es = some n) :
    n.infos = es.map Entry.info := by
  rw [ofEntries?] at h
  split at h
  · rename_i depth n' hfold
    obtain rfl := Option.some.inj h
    rw [← infosOf_foldr_adopt, hfold]
    simp [infosOf]
  · cases h

/-- An entry has the number that it is read with. -/
theorem Entry.id_ofJson? {id : Nat} {j : Json} {e : Entry} (h : Entry.ofJson? id j = some e) :
    e.info.id = id := by
  rw [Entry.ofJson?.eq_def] at h
  split at h
  · obtain rfl := Option.some.inj h; rfl
  · obtain rfl := Option.some.inj h; rfl
  · cases h

/-- If a list of options can be collected, all of them are there. -/
theorem eq_map_some_of_mapM {α : Type} {l : List (Option α)} {es : List α}
    (h : l.mapM id = some es) : l = es.map some := by
  -- The induction is on the list: the first option is there and the rest can be collected.
  induction l generalizing es with
  | nil =>
    obtain rfl := Option.some.inj h
    rfl
  | cons x rest ih =>
    rw [List.mapM_cons] at h
    obtain ⟨e, hx, h⟩ := Option.bind_eq_some_iff.1 h
    obtain ⟨es', hrest, h⟩ := Option.bind_eq_some_iff.1 h
    obtain rfl := Option.some.inj h
    rw [ih hrest, List.map_cons, ← hx]
    rfl

/-- Every tree that a parser hands over has distinct nodes. -/
theorem distinctIds_ofJson? {j : Json} {n : Node} (h : ofJson? j = some n) : n.DistinctIds := by
  rw [ofJson?.eq_def] at h
  split at h
  · rename_i nodes
    obtain ⟨es, hes, h⟩ := Option.bind_eq_some_iff.1 h
    have hnodes := eq_map_some_of_mapM hes
    -- An entry is numbered by its position, so the numbers are those of a range.
    have hids : es.map (fun e => e.info.id) = List.range es.length := by
      apply List.ext_getElem (by simp)
      intro i hi hi'
      have hi : i < es.length := by simpa using hi
      have hget : (nodes.mapIdx Entry.ofJson?)[i]? = some (some es[i]) := by
        rw [hnodes, List.getElem?_map, List.getElem?_eq_getElem hi]
        rfl
      rw [List.getElem?_mapIdx, Option.map_eq_some_iff] at hget
      obtain ⟨node, -, hnode⟩ := hget
      simpa using Entry.id_ofJson? hnode
    rw [DistinctIds, infos_ofEntries? h, List.map_map]
    exact hids ▸ List.nodup_range
  · cases h

end NameAtlas.Source.Node
