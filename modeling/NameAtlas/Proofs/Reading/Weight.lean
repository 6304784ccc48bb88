import Mathlib.Algebra.Ring.Nat
import NameAtlas.Proofs.Reading.Parts

/-!
# Definitions and scope declarations in a tree

Reading a tree makes no definition and no `global` or `nonlocal` statement that is not in the tree,
and makes none of them twice. Both are one statement about weights: if the definition of a node
weighs what the node weighs, and a scope declaration what a node of its kind weighs, then what is
read from a part weighs no more than the part (`weigh_toStmt_le`). With the weight 1 for one node
this says that the node is defined at most once, so distinct nodes give distinct definitions
(`nodup_definitions`); with the weight 1 for scope declarations it says that there are none if the
tree has none (`not_declaresScope`).
-/

namespace NameAtlas.Python

open Source

/-- What definitions and scope declarations weigh. -/
structure Weights where
  /-- The weight of the definition of a node. -/
  definition : Nat → Nat
  /-- The weight of a `global` or `nonlocal` statement. -/
  declaration : Nat

/-- True for the kinds of `global` and `nonlocal` statements. -/
def isScopeDeclaration (kind : String) : Bool :=
  kind = "global_statement" || kind = "nonlocal_statement"

/-- The weight of a node without its children. -/
def Weights.ofInfo (W : Weights) (info : NodeInfo) : Nat :=
  W.definition info.id + if isScopeDeclaration info.kind then W.declaration else 0

mutual

/-- The weight of a statement. -/
def Stmt.weigh (W : Weights) : Stmt → Nat
  | .function header body => W.definition header.node + weighAll W body
  | .class header body => W.definition header.node + weighAll W body
  | .block body | .caught _ body _ => weighAll W body
  | .globals _ | .nonlocals _ => W.declaration
  | _ => 0

/-- The weight of some statements. -/
def weighAll (W : Weights) : List Stmt → Nat
  | [] => 0
  | s :: rest => s.weigh W + weighAll W rest

end

variable (W : Weights)

/-- A block weighs what its statements weigh. -/
theorem weighAll_eq_sum (body : List Stmt) : weighAll W body = (body.map (Stmt.weigh W)).sum := by
  induction body with
  | nil => rfl
  | cons s rest ih => rw [weighAll, ih, List.map_cons, List.sum_cons]

/-- Blocks weigh together what each of them weighs. -/
theorem weighAll_append (body body' : List Stmt) :
    weighAll W (body ++ body') = weighAll W body + weighAll W body' := by
  rw [weighAll_eq_sum, weighAll_eq_sum, weighAll_eq_sum, List.map_append, List.sum_append]

namespace Part

/-- The weight of a part of a tree. -/
def weigh (p : Part) : Nat := (p.infos.map W.ofInfo).sum

/-- The weight of some parts. -/
def weighParts (ps : List Part) : Nat := (ps.map (weigh W)).sum

/-- A part weighs what it weighs by itself and what its children weigh. -/
theorem weigh_eq (p : Part) : p.weigh W = W.ofInfo p.info + weighParts W p.children := by
  have hsum : ∀ ps : List Part, ((ps.flatMap infos).map W.ofInfo).sum = weighParts W ps := by
    intro ps
    induction ps with
    | nil => rfl
    | cons p rest ih =>
      rw [List.flatMap_cons, List.map_append, List.sum_append, ih, weighParts, weighParts,
        List.map_cons, List.sum_cons]
      rfl
  rw [weigh, infos_eq, List.map_cons, List.sum_cons, hsum]

/-- The children of a part weigh no more than the part. -/
theorem weighParts_children_le (p : Part) : weighParts W p.children ≤ p.weigh W := by
  rw [weigh_eq]
  exact Nat.le_add_left _ _

/-- One more part adds its weight. -/
theorem weighParts_cons (p : Part) (ps : List Part) :
    weighParts W (p :: ps) = p.weigh W + weighParts W ps := rfl

/-- No part weighs more than a list that holds it. -/
theorem weigh_le_weighParts {ps : List Part} {p : Part} (h : p ∈ ps) :
    p.weigh W ≤ weighParts W ps := by
  induction h with
  | head rest => exact Nat.le_add_right _ _
  | tail q _ ih => exact Nat.le_trans ih (Nat.le_add_left _ _)

/-- Filtered parts weigh no more. -/
theorem weighParts_filter_le (ps : List Part) (q : Part → Bool) :
    weighParts W (ps.filter q) ≤ weighParts W ps := by
  induction ps with
  | nil => exact Nat.le_refl _
  | cons p rest ih =>
    rw [List.filter_cons, weighParts_cons]
    split
    · rw [weighParts_cons]; omega
    · omega

/-- The named children weigh no more than the children. -/
theorem weighParts_named_le (p : Part) : weighParts W p.named ≤ weighParts W p.children :=
  weighParts_filter_le W _ _

/-- The children that fill one field and a child that fills another one are different children. -/
theorem weigh_field?_add_fields_le {p c : Part} {name name' : String} (hne : name ≠ name')
    (h : p.field? name = some c) :
    c.weigh W + weighParts W (p.fields name') ≤ weighParts W p.children := by
  rw [field?] at h
  rw [fields]
  generalize p.children = ps at h ⊢
  -- The induction is on the children, of which the first one in the field is found.
  induction ps with
  | nil => cases h
  | cons d rest ih =>
    have hfilter := weighParts_filter_le W rest fun c => decide (c.info.field = name')
    rw [List.find?_cons] at h
    rw [List.filter_cons, weighParts_cons]
    split at h
    · rename_i hd
      obtain rfl := Option.some.inj h
      have hd' : ¬d.info.field = name' := fun e => hne ((of_decide_eq_true hd).symm.trans e)
      simp only [hd', decide_false, Bool.false_eq_true, if_false]
      omega
    · have := ih h
      split
      · rw [weighParts_cons]; omega
      · omega

/-- A part whose statement weighs no more than itself. -/
def Light (p : Part) : Prop := p.meaning.stmt.weigh W ≤ p.weigh W

variable {W} {p : Part}

/-- Statements that are read from parts weigh no more than the parts if none of them weighs more. -/
theorem weighAll_map_le {ps : List Part} {g : Part → Stmt}
    (h : ∀ c ∈ ps, (g c).weigh W ≤ c.weigh W) : weighAll W (ps.map g) ≤ weighParts W ps := by
  induction ps with
  | nil => exact Nat.le_refl _
  | cons c rest ih =>
    have hc := h c List.mem_cons_self
    have hrest := ih fun c' hc' => h c' (List.mem_cons_of_mem c hc')
    rw [List.map_cons, weighAll, weighParts_cons]
    omega

/-! ### The statements of a part

In what follows the children of the part have been read, and what they mean weighs no more than
they do. -/

/-- Everything below the part has been read and weighs no more than it should. -/
def LightBelow (W : Weights) (p : Part) : Prop := ∀ c ∈ p.children, c.All (Light W)

/-- The block of a part weighs no more than its children. -/
theorem weighAll_body_le (hp : p.LightBelow W) : weighAll W p.body ≤ weighParts W p.children :=
  Nat.le_trans (weighAll_map_le fun c hc => (hp c (mem_children_of_named hc)).self)
    (weighParts_named_le W p)

/-- The block of a part weighs no more than the part. -/
theorem weighAll_body_le_weigh {c : Part} (hc : c.All (Light W)) : weighAll W c.body ≤ c.weigh W :=
  Nat.le_trans (weighAll_body_le fun _ => hc.child) (weighParts_children_le W c)

/-- The block in a field weighs no more than the children. -/
theorem weighAll_bodyField_le_children (hp : p.LightBelow W) (name : String) :
    weighAll W (p.bodyField name) ≤ weighParts W p.children := by
  rw [bodyField]
  cases h : p.field? name with
  | none => exact Nat.zero_le _
  | some c =>
    have hmem := mem_children_of_field? h
    exact Nat.le_trans (weighAll_body_le_weigh (hp c hmem)) (weigh_le_weighParts W hmem)

/-- The block in a field weighs no more than the part. -/
theorem weighAll_bodyField_le_weigh {c : Part} (hc : c.All (Light W)) (name : String) :
    weighAll W (c.bodyField name) ≤ c.weigh W :=
  Nat.le_trans (weighAll_bodyField_le_children (fun _ => hc.child) name)
    (weighParts_children_le W c)

/-- The statements in one field and what is read from the children in another one weigh no more
than all children. -/
theorem weighAll_bodyField_add_le (hp : p.LightBelow W) {name name' : String} (hne : name ≠ name')
    {n : Nat} (hn : n ≤ weighParts W (p.fields name')) :
    weighAll W (p.bodyField name) + n ≤ weighParts W p.children := by
  rw [bodyField]
  -- An empty field leaves the children of the other field, which are among the children.
  cases h : p.field? name with
  | none =>
    have hfilter := weighParts_filter_le W p.children fun c => decide (c.info.field = name')
    rw [fields] at hn
    simp only [Option.map_none, Option.getD_none, weighAll]
    omega
  | some c =>
    have hbody := weighAll_body_le_weigh (hp c (mem_children_of_field? h))
    have hle := weigh_field?_add_fields_le W hne h
    simp only [Option.map_some, Option.getD_some]
    omega

/-- A function weighs no more than its definition and the children. -/
theorem weigh_functionStmt_le (hp : p.LightBelow W) :
    p.functionStmt.weigh W ≤ W.definition p.info.id + weighParts W p.children := by
  rw [functionStmt]
  split
  · exact Nat.add_le_add_left (weighAll_bodyField_le_children hp "body") _
  · exact Nat.zero_le _

/-- A class weighs no more than its definition and the children. -/
theorem weigh_classStmt_le (hp : p.LightBelow W) :
    p.classStmt.weigh W ≤ W.definition p.info.id + weighParts W p.children := by
  rw [classStmt]
  split
  · exact Nat.add_le_add_left (weighAll_bodyField_le_children hp "body") _
  · exact Nat.zero_le _

/-- Making a function static leaves its weight. -/
theorem weigh_markStatic (s : Stmt) : (markStatic s).weigh W = s.weigh W := by
  cases s <;> rfl

/-- A decorated definition weighs no more than the children. -/
theorem weigh_decoratedStmt_le (hp : p.LightBelow W) :
    p.decoratedStmt.weigh W ≤ weighParts W p.children := by
  rw [decoratedStmt]
  cases h : p.field? "definition" with
  | none => exact Nat.zero_le _
  | some d =>
    have hmem := mem_children_of_field? h
    have hd : d.meaning.stmt.weigh W ≤ d.weigh W := (hp d hmem).self
    have hle := weigh_le_weighParts W hmem
    simp only [Stmt.weigh, weighAll]
    split
    · rw [weigh_markStatic]; omega
    · omega

/-- A branch weighs no more than the part that it is read from. -/
theorem weigh_alternative_le {c : Part} (hc : c.All (Light W)) :
    c.alternative.weigh W ≤ c.weigh W := by
  rw [alternative]
  split
  · have := weighAll_bodyField_le_weigh hc "consequence"
    simp only [Stmt.weigh, weighAll, readField]
    omega
  · exact weighAll_bodyField_le_weigh hc "body"

/-- The code behind a loop weighs no more than the children in its field. -/
theorem weighAll_loopElse_le (hp : p.LightBelow W) :
    weighAll W p.loopElse ≤ weighParts W (p.fields "alternative") := by
  rw [loopElse]
  cases h : p.field? "alternative" with
  | none => exact Nat.zero_le _
  | some a =>
    have hmem : a ∈ p.fields "alternative" :=
      List.mem_filter.2 ⟨mem_children_of_field? h, by simpa using List.find?_some h⟩
    exact Nat.le_trans (weighAll_bodyField_le_weigh (hp a (mem_children_of_field? h)) "body")
      (weigh_le_weighParts W hmem)

/-- The weight of the statements kept for the target of an exception. -/
def weighPending (W : Weights) : Option (Expr × List Stmt) → Nat
  | some (_, between) => weighAll W between
  | none => 0

/-- Catching an exception weighs nothing. -/
theorem weigh_caughtAs (c : Part) : c.caughtAs.weigh W = 0 := by
  rw [caughtAs]
  split <;> rfl

/-- A part of an `except` clause weighs no less than its statement. -/
theorem weigh_exceptStmt?_le {c : Part} (hc : c.All (Light W)) {s : Stmt}
    (h : c.exceptStmt? = some s) : s.weigh W ≤ c.weigh W := by
  rw [exceptStmt?] at h
  split at h
  · obtain rfl := Option.some.inj h
    exact weighAll_body_le_weigh hc
  · obtain rfl := Option.some.inj h
    rw [weigh_caughtAs]
    exact Nat.zero_le _
  · cases h

/-- Whatever is kept for later, the statements of an `except` clause weigh no more than what they
are read from. -/
theorem weighAll_exceptBody_le (ps : List Part) (hps : ∀ c ∈ ps, c.All (Light W))
    (pending : Option (Expr × List Stmt)) :
    weighAll W (exceptBody pending ps) ≤ weighPending W pending + weighParts W ps := by
  -- The induction is on the parts that are left, for any exception that is waiting for its name.
  induction ps generalizing pending with
  | nil =>
    rcases pending with _ | ⟨value, between⟩
    · exact Nat.zero_le _
    · simp [exceptBody, weighAll, Stmt.weigh, weighPending]
  | cons c rest ih =>
    have hrest := ih fun c' hc' => hps c' (List.mem_cons_of_mem c hc')
    rw [weighParts_cons]
    cases hs : c.exceptStmt? with
    | none =>
      rcases pending with _ | ⟨value, between⟩
      · have := hrest (some (c.meaning.expr, []))
        simp only [exceptBody, hs, weighPending, weighAll] at this ⊢
        omega
      · have := hrest none
        simp only [exceptBody, hs, weighPending, weighAll, Stmt.weigh] at this ⊢
        omega
    | some s =>
      have hle := weigh_exceptStmt?_le (hps c List.mem_cons_self) hs
      rcases pending with _ | ⟨value, between⟩
      · have := hrest none
        simp only [exceptBody, hs, weighPending, weighAll] at this ⊢
        omega
      · have := hrest (some (value, between ++ [s]))
        simp only [exceptBody, hs, weighPending, weighAll, weighAll_append] at this ⊢
        omega

/-- A clause of a `try` statement weighs no more than the part that it is read from. -/
theorem weigh_tryClause_le {c : Part} (hc : c.All (Light W)) : c.tryClause.weigh W ≤ c.weigh W := by
  have hexcept : weighAll W (exceptBody none c.named) ≤ c.weigh W := by
    have hle := weighAll_exceptBody_le c.named (fun d hd => hc.child (mem_children_of_named hd)) none
    have hnamed := weighParts_named_le W c
    have hchildren := weighParts_children_le W c
    rw [weighPending] at hle
    omega
  -- Each kind of clause reads other children, and each of them once.
  rw [tryClause]
  split
  · exact weighAll_body_le_weigh hc
  · exact hexcept
  · exact hexcept
  · exact weighAll_bodyField_le_weigh hc "body"
  · have hfilter := weighParts_filter_le W c.named fun d => decide (d.kind = "block")
    have hblocks : weighAll W ((c.named.filter fun d => d.kind = "block").map fun b =>
        .block b.body) ≤ weighParts W (c.named.filter fun d => d.kind = "block") :=
      weighAll_map_le fun b hb =>
        weighAll_body_le_weigh (hc.child (mem_children_of_named (List.mem_filter.1 hb).1))
    have hnamed := weighParts_named_le W c
    have hchildren := weighParts_children_le W c
    rw [Stmt.weigh]
    omega
  · exact Nat.zero_le _

/-- What a node means as a statement weighs no more than the node, if that is true of its
children. -/
theorem weigh_toStmt_le (hp : p.LightBelow W) : p.toStmt.weigh W ≤ p.weigh W := by
  have hchildren := weighParts_children_le W p
  have hdefinition : W.definition p.info.id + weighParts W p.children ≤ p.weigh W := by
    rw [weigh_eq, Weights.ofInfo]
    omega
  have hdeclaration (h : p.kind = "global_statement" ∨ p.kind = "nonlocal_statement") :
      W.declaration ≤ p.weigh W := by
    have hkind : isScopeDeclaration p.info.kind := by simpa [isScopeDeclaration, kind] using h
    rw [weigh_eq, Weights.ofInfo, if_pos hkind]
    omega
  have hbody := weighAll_bodyField_le_children hp "body"
  have hloop := weighAll_bodyField_add_le hp (by decide : "body" ≠ "alternative")
    (weighAll_loopElse_le hp)
  rw [toStmt]
  split
  case h_2 => exact Nat.le_trans (weigh_functionStmt_le hp) hdefinition
  case h_3 => exact Nat.le_trans (weigh_classStmt_le hp) hdefinition
  case h_4 => exact Nat.le_trans (weigh_decoratedStmt_le hp) hchildren
  -- `if`, `while`, `for`, `try` and `with`.
  case h_12 =>
    have hbranches : weighAll W ((p.fields "alternative").map alternative) ≤
        weighParts W (p.fields "alternative") :=
      weighAll_map_le fun c hc => weigh_alternative_le (hp c (mem_children_of_fields hc))
    have hif := weighAll_bodyField_add_le hp (by decide : "consequence" ≠ "alternative") hbranches
    simp only [Stmt.weigh, weighAll, readField]
    omega
  case h_13 =>
    simp only [Stmt.weigh, weighAll, readField]
    omega
  case h_14 =>
    simp only [Stmt.weigh, weighAll, readField]
    omega
  case h_15 =>
    have hclauses : weighAll W (p.named.map tryClause) ≤ weighParts W p.named :=
      weighAll_map_le fun c hc => weigh_tryClause_le (hp c (mem_children_of_named hc))
    have hnamed := weighParts_named_le W p
    rw [Stmt.weigh]
    omega
  case h_16 =>
    simp only [Stmt.weigh, weighAll]
    omega
  case h_20 hkind => exact hdeclaration (.inl hkind)
  case h_21 hkind => exact hdeclaration (.inr hkind)
  -- The other statements hold no statements.
  all_goals exact Nat.zero_le _

/-- Every part of a tree is light. -/
theorem all_light_ofNode (W : Weights) (source : SourceText) (n : Node) :
    (ofNode source n).All (Light W) := by
  refine all_ofNode (fun info children hchildren => ?_) n
  -- The statement of a node is read off the node before its own meaning is known.
  have hle := weigh_toStmt_le (p := .mk info
    ⟨source.slice info.start info.stop, source.location info.start info.stop⟩ default children)
    hchildren
  rw [weigh_eq] at hle
  rw [Light, weigh_eq]
  exact hle

end Part

/-! ### Modules -/

/-- The statements of a module weigh no more than its tree. -/
theorem weighAll_ofTree_le (W : Weights) (source : SourceText) (tree : Node) :
    weighAll W (Module.ofTree source tree).body ≤ (tree.infos.map W.ofInfo).sum := by
  have hbody := Part.weighAll_body_le_weigh (Part.all_light_ofNode W source tree)
  rw [Part.weigh, Part.infos_ofNode] at hbody
  exact hbody

mutual

/-- The nodes of the definitions in a statement. -/
def Stmt.definitions : Stmt → List Nat
  | .function header body => header.node :: definitionsOf body
  | .class header body => header.node :: definitionsOf body
  | .block body | .caught _ body _ => definitionsOf body
  | _ => []

/-- The nodes of the definitions in some statements. -/
def definitionsOf : List Stmt → List Nat
  | [] => []
  | s :: rest => s.definitions ++ definitionsOf rest

end

/-- The weight 1 for the definition of one node. -/
def Weights.ofDefinition (node : Nat) : Weights := ⟨fun n => if n = node then 1 else 0, 0⟩

mutual

/-- A statement weighs as many definitions as there are of a node in it. -/
theorem Stmt.weigh_ofDefinition (node : Nat) :
    ∀ s : Stmt, s.weigh (.ofDefinition node) = s.definitions.count node
  | .function header body | .class header body => by
    rw [Stmt.weigh, Stmt.definitions, List.count_cons, weighAll_ofDefinition node body,
      Nat.add_comm]
    simp [Weights.ofDefinition]
  | .block body | .caught _ body _ => weighAll_ofDefinition node body
  | .simple _ | .imports _ _ | .returns _ | .unsupported _ _ => rfl
  | .globals _ | .nonlocals _ => rfl

/-- A block weighs as many definitions as there are of a node in it. -/
theorem weighAll_ofDefinition (node : Nat) :
    ∀ body : List Stmt, weighAll (.ofDefinition node) body = (definitionsOf body).count node
  | [] => rfl
  | s :: rest => by
    rw [weighAll, definitionsOf, List.count_append, Stmt.weigh_ofDefinition node s,
      weighAll_ofDefinition node rest]

end

/-- If the nodes of a tree are distinct, no two definitions of its module have one node. -/
theorem nodup_definitions (source : SourceText) {tree : Node}
    (h : tree.DistinctIds) :
    (definitionsOf (Module.ofTree source tree).body).Nodup := by
  -- A node that is defined twice weighs two, but the ids of the tree weigh it once.
  rw [List.nodup_iff_count]
  intro node
  have hle := weighAll_ofTree_le (.ofDefinition node) source tree
  have hcount : (tree.infos.map (Weights.ofDefinition node).ofInfo).sum =
      (tree.infos.map NodeInfo.id).count node := by
    induction tree.infos with
    | nil => rfl
    | cons info rest ih =>
      rw [List.map_cons, List.sum_cons, ih, List.map_cons, List.count_cons, Nat.add_comm]
      simp [Weights.ofInfo, Weights.ofDefinition]
  rw [weighAll_ofDefinition, hcount] at hle
  exact Nat.le_trans hle (List.nodup_iff_count.1 h node)

mutual

/-- True if a statement holds a `global` or `nonlocal` statement. -/
def Stmt.declaresScope : Stmt → Bool
  | .globals _ | .nonlocals _ => true
  | .block body | .caught _ body _ | .function _ body | .class _ body => declaresScopeIn body
  | _ => false

/-- True if one of some statements holds a `global` or `nonlocal` statement. -/
def declaresScopeIn : List Stmt → Bool
  | [] => false
  | s :: rest => s.declaresScope || declaresScopeIn rest

end

mutual

/-- A statement that weighs nothing for its declarations declares no scopes of names. -/
theorem Stmt.not_declaresScope_of_weigh :
    ∀ s : Stmt, s.weigh ⟨fun _ => 0, 1⟩ = 0 → s.declaresScope = false
  | .function _ body, h | .class _ body, h | .block body, h | .caught _ body _, h =>
    not_declaresScopeIn_of_weigh body (by simpa [Stmt.weigh] using h)
  | .globals _, h | .nonlocals _, h => by simp [Stmt.weigh] at h
  | .simple _, _ | .imports _ _, _ | .returns _, _ | .unsupported _ _, _ => rfl

/-- A block that weighs nothing for its declarations declares no scopes of names. -/
theorem not_declaresScopeIn_of_weigh :
    ∀ body : List Stmt, weighAll ⟨fun _ => 0, 1⟩ body = 0 → declaresScopeIn body = false
  | [], _ => rfl
  | s :: rest, h => by
    rw [weighAll, Nat.add_eq_zero_iff] at h
    rw [declaresScopeIn, Stmt.not_declaresScope_of_weigh s h.1,
      not_declaresScopeIn_of_weigh rest h.2]
    rfl

end

/-- A tree without `global` and `nonlocal` statements gives a module without them. -/
theorem not_declaresScope (source : SourceText) {tree : Node}
    (h : ∀ info ∈ tree.infos, ¬isScopeDeclaration info.kind) :
    declaresScopeIn (Module.ofTree source tree).body = false := by
  apply not_declaresScopeIn_of_weigh
  have hle := weighAll_ofTree_le ⟨fun _ => 0, 1⟩ source tree
  have hsum : (tree.infos.map (Weights.ofInfo ⟨fun _ => 0, 1⟩)).sum = 0 := by
    refine List.sum_eq_zero_iff_forall_eq_nat.2 fun n hn => ?_
    obtain ⟨info, hinfo, rfl⟩ := List.mem_map.1 hn
    simp [Weights.ofInfo, h info hinfo]
  omega

end NameAtlas.Python
