import NameAtlas.Proofs.Source.Tree
import NameAtlas.Python.Reading

/-!
# Reading a tree from its leaves

A tree is read from the leaves to the root, and what a node means follows from what its children
mean. So what is shown of a node whose children have been read holds of every part of a tree
(`Part.all_ofNode`). Reading keeps the nodes of the tree and their order (`Part.infos_ofNode`).
-/

namespace NameAtlas

namespace Python

open Source

namespace Part

mutual

/-- The nodes of a part, each in front of its children. -/
def infos : Part → List NodeInfo
  | .mk info _ _ children => info :: infosOf children

/-- The nodes of several parts. -/
def infosOf : List Part → List NodeInfo
  | [] => []
  | p :: rest => infos p ++ infosOf rest

end

/-- The infos of some parts are those of each, one after the other. -/
theorem infosOf_eq_flatMap (ps : List Part) : infosOf ps = ps.flatMap infos := by
  induction ps with
  | nil => rfl
  | cons p rest ih => rw [infosOf, List.flatMap_cons, ih]

/-- The infos of a part are its own and those of its children. -/
theorem infos_eq (p : Part) : p.infos = p.info :: p.children.flatMap infos := by
  cases p
  rw [infos, infosOf_eq_flatMap]
  rfl

mutual

/-- A part has the infos of the node that it is read from. -/
theorem infos_ofNode (source : SourceText) : ∀ n : Node, (ofNode source n).infos = n.infos
  | .mk info children => by
    rw [ofNode, ofChildren, infos, infosOf_ofNodes source children, Node.infos]

/-- Parts have the infos of the nodes that they are read from. -/
theorem infosOf_ofNodes (source : SourceText) :
    ∀ ns : List Node, infosOf (ofNodes source ns) = Node.infosOf ns
  | [] => rfl
  | n :: rest => by
    rw [ofNodes, infosOf, infos_ofNode source n, infosOf_ofNodes source rest, Node.infosOf]

end

/-- A property that a part and everything below it has. -/
inductive All (P : Part → Prop) : Part → Prop where
  /-- The part has it, and so have its children. -/
  | mk {p : Part} (h : P p) (hc : ∀ c ∈ p.children, All P c) : All P p

/-- What holds of everything in a part holds of the part. -/
theorem All.self {P : Part → Prop} {p : Part} (h : p.All P) : P p := by
  cases h with
  | mk h _ => exact h

/-- What holds of everything in a part holds of everything in a child. -/
theorem All.child {P : Part → Prop} {p c : Part} (h : p.All P) (hc : c ∈ p.children) : c.All P := by
  cases h with
  | mk _ h => exact h c hc

mutual

/-- A property of every node whose children have it throughout is a property of all parts of a
tree. -/
theorem all_ofNode {source : SourceText} {P : Part → Prop}
    (hstep : ∀ info children, (∀ c ∈ children, All P c) → P (ofChildren source info children)) :
    ∀ n : Node, (ofNode source n).All P
  | .mk info children => by
    rw [ofNode]
    exact .mk (hstep info _ (all_ofNodes hstep children)) (all_ofNodes hstep children)

/-- What holds of a part if it holds of everything below it holds of everything in a tree. -/
theorem all_ofNodes {source : SourceText} {P : Part → Prop}
    (hstep : ∀ info children, (∀ c ∈ children, All P c) → P (ofChildren source info children)) :
    ∀ ns : List Node, ∀ p ∈ ofNodes source ns, p.All P
  | [], p, h => nomatch h
  | n :: rest, p, h => by
    rcases List.mem_cons.1 h with rfl | h
    · exact all_ofNode hstep n
    · exact all_ofNodes hstep rest p h

end

/-! ### Children -/

/-- The child in a field is a child. -/
theorem mem_children_of_field? {p c : Part} {name : String} (h : p.field? name = some c) :
    c ∈ p.children := List.mem_of_find?_eq_some h

/-- A named child is a child. -/
theorem mem_children_of_named {p c : Part} (h : c ∈ p.named) : c ∈ p.children :=
  (List.mem_filter.1 h).1

/-- A child in a field is a child. -/
theorem mem_children_of_fields {p c : Part} {name : String} (h : c ∈ p.fields name) :
    c ∈ p.children := (List.mem_filter.1 h).1

end Part

end Python

end NameAtlas
