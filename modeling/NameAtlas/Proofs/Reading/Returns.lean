import NameAtlas.Proofs.Reading.Functions

/-!
# The return statements of a function

A return statement belongs to the innermost function around it, however deep in `if`, `for`,
`while`, `with`, `try` and class blocks it stands, and so does the definition of another function.
`Node.landmarks` has both of a node in document order. Control flow is read as a sequence of
statements: the clauses of a statement in the order in which the reading looks for them, which is
document order as long as blocks stand where the grammar puts them, a body in front of the
alternatives (`Node.blocksInPlace`). So the statement of a node has the landmarks of the node in
document order (`Part.readsLandmarks_of_mem_subtrees`). The body of a function has those of its
definition (`Part.landmarksOf_of_means`), and a walk comes to every function that is defined in the
module or in a function that it comes to (`exists_reaches_of_holds`).
-/

namespace NameAtlas

namespace Source.Node

/-- The kinds of statements that hold statements of the same function. -/
def compoundKinds : List String :=
  ["if_statement", "while_statement", "for_statement", "with_statement", "try_statement",
    "class_definition", "decorated_definition"]

/-- The kinds of blocks and of clauses, which are parts of statements. -/
def clauseKinds : List String :=
  ["block", "elif_clause", "else_clause", "except_clause", "except_group_clause", "finally_clause"]

/-- The kinds of statements that say something about a function. -/
def landmarkKinds : List String := ["return_statement", "function_definition"]

/-- What gives nothing may be filtered out. -/
theorem flatMap_filter_eq {α β : Type} {l : List α} {keep : α → Bool} {g : α → List β}
    (h : ∀ a ∈ l, ¬keep a → g a = []) : (l.filter keep).flatMap g = l.flatMap g := by
  induction l with
  | nil => rfl
  | cons a rest ih =>
    have hrest := ih fun b hb => h b (List.mem_cons_of_mem a hb)
    rw [List.filter_cons, List.flatMap_cons]
    split
    · rw [List.flatMap_cons, hrest]
    · rw [h a List.mem_cons_self ‹_›, List.nil_append, hrest]

mutual

/-- The return statements and function definitions of a node in document order. Those in the
functions are left out, and so is what stands in statements that are not modeled. -/
def landmarks : Node → List Node
  | .mk info children =>
    if info.kind ∈ landmarkKinds then [.mk info children]
    else if info.kind ∈ compoundKinds ++ clauseKinds then landmarksIn children
    else []

/-- The return statements and function definitions of some nodes. -/
def landmarksIn : List Node → List Node
  | [] => []
  | n :: rest => n.landmarks ++ landmarksIn rest

end

/-- The landmarks of some nodes are those of each, one after the other. -/
theorem landmarksIn_eq_flatMap (ns : List Node) : landmarksIn ns = ns.flatMap landmarks := by
  induction ns with
  | nil => rfl
  | cons n rest ih => rw [landmarksIn, ih, List.flatMap_cons]

/-- A landmark is one itself, and compound statements, blocks and clauses have those of their
children. -/
theorem landmarks_eq (n : Node) :
    n.landmarks =
      if n.kind ∈ landmarkKinds then [n]
      else if n.kind ∈ compoundKinds ++ clauseKinds then n.children.flatMap landmarks
      else [] := by
  cases n with
  | mk info children =>
    rw [landmarks, landmarksIn_eq_flatMap]
    rfl

/-- The landmarks of a compound statement, a block or a clause are those of its children. -/
theorem landmarks_of_mem {n : Node} (h : n.kind ∈ compoundKinds ++ clauseKinds) :
    n.landmarks = n.children.flatMap landmarks := by
  have hne : n.kind ∉ landmarkKinds := by
    intro hkind
    revert h
    exact (by decide : ∀ kind ∈ landmarkKinds, kind ∉ compoundKinds ++ clauseKinds) _ hkind
  rw [landmarks_eq, if_neg hne, if_pos h]

mutual

/-- A landmark of a node is a node in it, of one of the kinds of landmarks. -/
theorem mem_of_mem_landmarks :
    ∀ {n d : Node}, d ∈ n.landmarks → d ∈ n.subtrees ∧ d.kind ∈ landmarkKinds
  | .mk info children, d, h => by
    rw [landmarks] at h
    split at h
    · obtain rfl := List.mem_singleton.1 h
      exact ⟨self_mem_subtrees _, ‹_›⟩
    · split at h
      · exact (mem_of_mem_landmarksIn h).imp_left (List.mem_cons_of_mem _)
      · cases h

/-- A landmark is a return statement or a function definition in the node. -/
theorem mem_of_mem_landmarksIn :
    ∀ {ns : List Node} {d : Node}, d ∈ landmarksIn ns → d ∈ subtreesOf ns ∧ d.kind ∈ landmarkKinds
  | [], _, h => nomatch h
  | n :: rest, d, h => by
    rcases List.mem_append.1 h with h | h
    · exact (mem_of_mem_landmarks h).imp_left (List.mem_append_left _)
    · exact (mem_of_mem_landmarksIn h).imp_left (List.mem_append_right _)

end

/-- The return statements of a node. -/
def returns (n : Node) : List Node := n.landmarks.filter fun d => d.kind = "return_statement"

/-- The functions that are defined in a node, those in other functions left out. -/
def definitions (n : Node) : List Node := n.landmarks.filter fun d => d.kind = "function_definition"

/-- True for the function definitions to which a walk over a tree comes: those of the tree, and
those in the functions it comes to. -/
inductive Holds (tree : Node) : Node → Prop where
  /-- A definition in the code of the tree. -/
  | here {d : Node} (h : d ∈ tree.children.flatMap definitions) : tree.Holds d
  /-- A definition in the body of a function. -/
  | within {d e : Node} (he : tree.Holds e) (h : d ∈ e.children.flatMap definitions) : tree.Holds d

/-! ### Where blocks stand -/

/-- The fields that the blocks and clauses of a node fill, that of the body first. -/
def blockFields : String → List String
  | "if_statement" => ["consequence", "alternative"]
  | "while_statement" | "for_statement" => ["body", "alternative"]
  | "elif_clause" => ["consequence"]
  | "else_clause" | "with_statement" | "class_definition" | "function_definition" => ["body"]
  | "decorated_definition" => ["definition"]
  | _ => []

/-- The kinds of nodes that fill such a field of a node of some kind. -/
def blockKinds (kind : String) : String → List String
  | "alternative" =>
    if kind = "if_statement" then ["elif_clause", "else_clause"] else ["else_clause"]
  | "definition" => ["function_definition", "class_definition"]
  | _ => ["block"]

/-- The kinds of children with landmarks, for nodes whose children fill no fields. -/
def listedKinds : String → List String
  | "module" | "block" => landmarkKinds ++ compoundKinds
  | "try_statement" =>
    ["block", "except_clause", "except_group_clause", "else_clause", "finally_clause"]
  | "except_clause" | "except_group_clause" | "finally_clause" => ["block"]
  | _ => []

/-- True for a node whose landmarks stand in blocks that fill some fields, the body, if
there is one, in front of the alternatives. -/
def blocksFill (n : Node) (fields : List String) : Bool :=
  let blocks := n.children.filter fun c => fields.contains c.field
  (n.children.all fun c => c.landmarks.isEmpty || fields.contains c.field) &&
    (blocks.all fun c => (blockKinds n.kind c.field).contains c.kind) &&
    blocks.tail.all fun c => c.field = "alternative"

/-- True for a node whose landmarks stand in children of some kinds. -/
def blocksAmong (n : Node) (kinds : List String) : Bool :=
  n.children.all fun c => c.landmarks.isEmpty || (c.isListed && kinds.contains c.kind)

/-- True for a node whose blocks stand where the grammar puts them. -/
def blocksInPlace (n : Node) : Bool :=
  match blockFields n.kind, listedKinds n.kind with
  | [], [] => true
  | [], kinds => n.blocksAmong kinds
  | fields, _ => n.blocksFill fields

/-- True if every node of a tree has the shape that its kind demands, and its blocks in place. -/
def Structured (n : Node) : Prop := ∀ d ∈ n.subtrees, d.wellShaped ∧ d.blocksInPlace

instance (n : Node) : Decidable n.Structured := inferInstanceAs (Decidable (∀ d ∈ _, _))

variable {n : Node}

/-- A field that holds only blocks is not that of the alternatives. -/
theorem ne_alternative_of_blockKinds {kind field : String} (h : blockKinds kind field = ["block"]) :
    field ≠ "alternative" := by
  rintro rfl
  rw [blockKinds] at h
  split at h <;> exact absurd h (by decide)

/-- In a node with fields for blocks the blocks fill these fields. -/
theorem blocksFill_of_blocksInPlace (h : n.blocksInPlace) {field : String} {fields : List String}
    (hfields : blockFields n.kind = field :: fields) : n.blocksFill (field :: fields) := by
  rw [blocksInPlace, hfields] at h
  exact h

/-- In a node without fields for blocks the landmarks stand in children of the listed kinds. -/
theorem blocksAmong_of_blocksInPlace (h : n.blocksInPlace) (hfields : blockFields n.kind = [])
    {kind : String} {kinds : List String} (hkinds : listedKinds n.kind = kind :: kinds) :
    n.blocksAmong (kind :: kinds) := by
  rw [blocksInPlace, hfields, hkinds] at h
  exact h

/-- What stands in no list of children has no landmarks. -/
theorem landmarks_eq_nil_of_blocksAmong {kinds : List String} (h : n.blocksAmong kinds) {c : Node}
    (hc : c ∈ n.children) (hlisted : ¬(c.isListed ∧ c.kind ∈ kinds)) : c.landmarks = [] := by
  have hc := List.all_eq_true.1 h c hc
  simp only [Bool.or_eq_true, Bool.and_eq_true, List.isEmpty_iff, List.contains_iff_mem] at hc
  exact hc.resolve_right hlisted

/-- Children that are not listed have no landmarks. -/
theorem flatMap_landmarks_listed {kinds : List String} (h : n.blocksAmong kinds) :
    (n.children.filter isListed).flatMap landmarks = n.children.flatMap landmarks :=
  flatMap_filter_eq fun _ hc hlisted =>
    landmarks_eq_nil_of_blocksAmong h hc fun hlisted' => hlisted hlisted'.1

/-- Where blocks fill fields, the body comes first, and the alternatives behind it. -/
theorem flatMap_landmarks_fields {field : String} {fields : List String}
    (h : n.blocksFill (field :: fields)) (hfields : fields ⊆ ["alternative"])
    (hne : field ≠ "alternative") :
    n.children.flatMap landmarks =
      ((n.children.find? fun c => c.field = field).map landmarks).getD [] ++
        (n.children.filter fun c => c.field = "alternative").flatMap landmarks := by
  simp only [blocksFill, Bool.and_eq_true, List.all_eq_true, Bool.or_eq_true, List.isEmpty_iff,
    decide_eq_true_eq] at h
  obtain ⟨⟨hmarks, -⟩, htail⟩ := h
  let isBlock : Node → Bool := fun c => (field :: fields).contains c.field
  have hblocks : (n.children.filter isBlock).flatMap landmarks = n.children.flatMap landmarks :=
    flatMap_filter_eq fun c hc hnot => (hmarks c hc).resolve_right hnot
  have halternatives : ((n.children.filter isBlock).filter fun c => c.field = "alternative").flatMap
      landmarks = (n.children.filter fun c => c.field = "alternative").flatMap landmarks := by
    rw [List.filter_comm]
    exact flatMap_filter_eq fun c hc hnot => (hmarks c (List.mem_filter.1 hc).1).resolve_right hnot
  have hbody : (n.children.filter isBlock).find? (fun c => c.field = field) =
      n.children.find? fun c => c.field = field := by
    rw [List.find?_filter]
    congr 1
    funext c
    by_cases hc : c.field = field <;> simp [isBlock, hc]
  have hmem : ∀ c ∈ n.children.filter isBlock, c.field = field ∨ c.field = "alternative" := by
    intro c hc
    have hc := List.contains_iff_mem.1 (List.mem_filter.1 hc).2
    exact (List.mem_cons.1 hc).imp id fun hc => List.mem_singleton.1 (hfields hc)
  rw [← hblocks, ← halternatives, ← hbody]
  -- Of the blocks only the first can be a body.
  change ∀ c ∈ (n.children.filter isBlock).tail, _ at htail
  generalize n.children.filter isBlock = blocks at htail hmem
  cases blocks with
  | nil => rfl
  | cons b rest =>
    have hrest : rest.filter (fun c => decide (c.field = "alternative")) = rest :=
      List.filter_eq_self.2 fun c hc => decide_eq_true (htail c hc)
    have hnone : rest.find? (fun c => decide (c.field = field)) = none :=
      List.find?_eq_none.2 fun c hc => by simpa [htail c hc] using hne.symm
    rcases hmem b List.mem_cons_self with hb | hb
    · simp [hb, hrest, hne]
    · simp [hb, hrest, hnone, hne.symm]

/-- Where blocks fill one field, there is nothing else. -/
theorem flatMap_landmarks_field {field : String} (h : n.blocksFill [field])
    (hne : field ≠ "alternative") :
    n.children.flatMap landmarks =
      ((n.children.find? fun c => c.field = field).map landmarks).getD [] := by
  rw [flatMap_landmarks_fields h (List.nil_subset _) hne]
  simp only [blocksFill, Bool.and_eq_true, List.all_eq_true, Bool.or_eq_true, List.isEmpty_iff] at h
  refine (congrArg _ (List.flatMap_eq_nil_iff.2 fun c hc => ?_)).trans (List.append_nil _)
  obtain ⟨hc, hfield⟩ := List.mem_filter.1 hc
  refine (h.1.1 c hc).resolve_right ?_
  simp [of_decide_eq_true hfield, hne.symm]

/-- Every node in a structured tree is structured. -/
theorem Structured.subtree (h : n.Structured) {d : Node} (hd : d ∈ n.subtrees) : d.Structured :=
  fun e he => h e (subtrees_subset_of_mem_subtrees hd he)

/-- A child of a structured node is structured. -/
theorem Structured.child (h : n.Structured) {c : Node} (hc : c ∈ n.children) : c.Structured :=
  fun d hd => h d (subtrees_subset_of_mem_children hc hd)

end Source.Node

namespace Python

open Source (Node SourceText)

/-- What a statement says about a function. -/
inductive Landmark where
  /-- A value is returned, or none. -/
  | returns (value : Option Expr)
  /-- A function is defined by a node. -/
  | defines (node : Nat)

namespace Landmark

/-- The value that is returned, if there is one. -/
def value? : Landmark → Option (Option Expr)
  | .returns value => some value
  | .defines _ => none

/-- The node of the function that is defined. -/
def node? : Landmark → Option Nat
  | .returns _ => none
  | .defines node => some node

end Landmark

mutual

/-- The return statements and function definitions of a statement, in the order in which they are
read. Those in the functions are left out. -/
def Stmt.landmarks : Stmt → List Landmark
  | .returns value => [.returns value]
  | .function header _ => [.defines header.node]
  | .block body | .caught _ body _ | .class _ body => landmarksOf body
  | _ => []

/-- The return statements and function definitions of some statements. -/
def landmarksOf : List Stmt → List Landmark
  | [] => []
  | st :: rest => st.landmarks ++ landmarksOf rest

end

/-- The landmarks of a block are those of its statements, one after the other. -/
theorem landmarksOf_eq_flatMap (body : List Stmt) :
    landmarksOf body = body.flatMap Stmt.landmarks := by
  induction body with
  | nil => rfl
  | cons st rest ih => rw [landmarksOf, ih, List.flatMap_cons]

mutual

/-- The functions among the landmarks of a statement are those that it defines. -/
theorem Stmt.filterMap_node?_landmarks :
    ∀ st : Stmt, st.landmarks.filterMap Landmark.node? = st.functions.map fun f => f.header.node
  | .function _ _ | .returns _ | .simple _ | .imports _ _ | .globals _ | .nonlocals _
  | .unsupported _ _ => rfl
  | .block body | .caught _ body _ | .class _ body => filterMap_node?_landmarksOf body

/-- The nodes in the landmarks of some statements are those of the functions defined there. -/
theorem filterMap_node?_landmarksOf :
    ∀ body : List Stmt,
      (landmarksOf body).filterMap Landmark.node? = (functionsOf body).map fun f => f.header.node
  | [] => rfl
  | st :: rest => by
    rw [landmarksOf, functionsOf, List.filterMap_append, List.map_append,
      Stmt.filterMap_node?_landmarks st, filterMap_node?_landmarksOf rest]

end

/-- The value of a return statement: the first of its children that is no comment. -/
def returnValue (source : SourceText) (n : Node) : Option Expr := (Part.ofNode source n).parts.head?

/-- A return statement or function definition, as it is read. -/
def landmark (source : SourceText) (n : Node) : Landmark :=
  if n.kind = "function_definition" then .defines n.info.id else .returns (returnValue source n)

/-- The functions among the landmarks of nodes are read from the definitions. -/
theorem filterMap_node?_landmark (source : SourceText) (ns : List Node) :
    ((ns.flatMap Node.landmarks).map (landmark source)).filterMap Landmark.node? =
      (ns.flatMap Node.definitions).map fun d => d.info.id := by
  rw [show Node.definitions = fun n => n.landmarks.filter fun d => d.kind = "function_definition"
    from rfl, ← List.filter_flatMap, List.filterMap_map, ← List.filterMap_eq_map,
    List.filterMap_filter]
  refine List.filterMap_congr fun d _ => ?_
  by_cases h : d.kind = "function_definition" <;> simp [landmark, h, Landmark.node?]

/-- The values among the landmarks of nodes are read from the return statements. -/
theorem filterMap_value?_landmark (source : SourceText) (ns : List Node) :
    ((ns.flatMap Node.landmarks).map (landmark source)).filterMap Landmark.value? =
      (ns.flatMap Node.returns).map (returnValue source) := by
  rw [show Node.returns = fun n => n.landmarks.filter fun d => d.kind = "return_statement"
    from rfl, ← List.filter_flatMap, List.filterMap_map, ← List.filterMap_eq_map,
    List.filterMap_filter]
  refine List.filterMap_congr fun d hd => ?_
  obtain ⟨n, -, hd⟩ := List.mem_flatMap.1 hd
  rcases List.mem_pair.1 (Node.mem_of_mem_landmarks hd).2 with h | h <;>
    simp [landmark, h, Landmark.value?]

namespace Part

/-- A node whose statement has the landmarks of the node. Blocks and clauses are
no statements by themselves. -/
def ReadsLandmarks (source : SourceText) (n : Node) : Prop :=
  (ofNode source n).meaning.stmt.landmarks =
    if n.kind ∈ Node.clauseKinds then [] else n.landmarks.map (landmark source)

/-- A node of the grammar below which all statements have the landmarks of their nodes. -/
structure LandmarksBelow (source : SourceText) (n : Node) : Prop where
  /-- The tree follows the grammar. -/
  structured : n.Structured
  /-- The nodes below have been read. -/
  below : ∀ c ∈ n.children, ∀ d ∈ c.subtrees, ReadsLandmarks source d

namespace LandmarksBelow

variable {source : SourceText} {n c : Node}

/-- The blocks of the node stand in place. -/
theorem blocksInPlace (h : LandmarksBelow source n) : n.blocksInPlace :=
  (h.structured n n.self_mem_subtrees).2

/-- What is known below a node is known below a child. -/
theorem child (h : LandmarksBelow source n) (hc : c ∈ n.children) : LandmarksBelow source c :=
  ⟨h.structured.child hc, fun _ hd _ he =>
    h.below c hc _ (Node.subtrees_subset_of_mem_children hd he)⟩

/-- A child has been read with its landmarks. -/
theorem readsLandmarks (h : LandmarksBelow source n) (hc : c ∈ n.children) :
    ReadsLandmarks source c :=
  h.below c hc c c.self_mem_subtrees

/-! ### Blocks and clauses -/

/-- The statements of a block, or of a module, have the landmarks of its children. -/
theorem body (h : LandmarksBelow source n) (hkind : n.kind = "block" ∨ n.kind = "module") :
    landmarksOf (ofNode source n).body =
      (n.children.flatMap Node.landmarks).map (landmark source) := by
  have hamong : n.blocksAmong (Node.landmarkKinds ++ Node.compoundKinds) :=
    Node.blocksAmong_of_blocksInPlace h.blocksInPlace (by rcases hkind with h | h <;> rw [h] <;> rfl)
      (by rcases hkind with h | h <;> rw [h] <;> rfl)
  rw [Part.body, named_ofNode, List.map_map, landmarksOf_eq_flatMap, List.flatMap_map,
    ← Node.flatMap_landmarks_listed hamong, List.map_flatMap]
  -- A child that is a clause has no landmarks here, as it is not of the listed kinds.
  refine List.flatMap_congr fun c hc => ?_
  have hc := (List.mem_filter.1 hc).1
  refine (h.readsLandmarks hc).trans ?_
  split
  · rename_i hclause
    rw [Node.landmarks_eq_nil_of_blocksAmong hamong hc fun hlisted =>
      (by decide : ∀ kind ∈ Node.landmarkKinds ++ Node.compoundKinds, kind ∉ Node.clauseKinds)
        _ hlisted.2 hclause]
    rfl
  · rfl

/-- The statements of a block have the landmarks of the block. -/
theorem block (h : LandmarksBelow source n) (hkind : n.kind = "block") :
    landmarksOf (ofNode source n).body = n.landmarks.map (landmark source) := by
  rw [h.body (.inl hkind), Node.landmarks_of_mem (by rw [hkind]; decide)]

/-- The statements in a field for blocks have the landmarks of the block in it. -/
theorem bodyField (h : LandmarksBelow source n) {field : String} {fields : List String}
    (hfill : n.blocksFill (field :: fields)) (hblock : Node.blockKinds n.kind field = ["block"]) :
    landmarksOf ((ofNode source n).bodyField field) =
      (((n.children.find? fun c => c.field = field).map Node.landmarks).getD []).map
        (landmark source) := by
  cases hfind : n.children.find? fun c => c.field = field with
  | none =>
    rw [Part.bodyField, field?_ofNode, hfind]
    rfl
  | some c =>
    have hc := List.mem_of_find?_eq_some hfind
    have hfield : c.field = field := by simpa using List.find?_some hfind
    rw [bodyField_of_find? hfind]
    -- What fills a field for blocks is a block.
    refine (h.child hc).block ?_
    simp only [Node.blocksFill, Bool.and_eq_true, List.all_eq_true] at hfill
    have hkind := hfill.1.2 c (List.mem_filter.2 ⟨hc, by simp [hfield]⟩)
    simpa [hfield, hblock] using hkind

/-- The statements in the only field for blocks have the landmarks of the children. -/
theorem only (h : LandmarksBelow source n) (field : String)
    (hfields : Node.blockFields n.kind = [field]) (hblock : Node.blockKinds n.kind field = ["block"]) :
    landmarksOf ((ofNode source n).bodyField field) =
      (n.children.flatMap Node.landmarks).map (landmark source) := by
  have hfill := Node.blocksFill_of_blocksInPlace h.blocksInPlace hfields
  have hne := Node.ne_alternative_of_blockKinds hblock
  rw [h.bodyField hfill hblock, Node.flatMap_landmarks_field hfill hne]

/-- A branch behind `elif` or `else`. -/
theorem alternative (h : LandmarksBelow source n)
    (hkind : n.kind = "elif_clause" ∨ n.kind = "else_clause") :
    (ofNode source n).alternative.landmarks = n.landmarks.map (landmark source) := by
  rw [Part.alternative, kind_ofNode, Node.landmarks_of_mem (by rcases hkind with h | h <;> simp [h,
    Node.clauseKinds])]
  rcases hkind with hkind | hkind
  · rw [hkind]
    exact h.only _ (by rw [hkind]; rfl) (by rw [hkind]; rfl)
  · rw [hkind]
    exact h.only _ (by rw [hkind]; rfl) (by rw [hkind]; rfl)

/-- What fills the field for alternatives is a clause. -/
theorem kind_of_alternative (h : LandmarksBelow source n) (field : String)
    (hfields : Node.blockFields n.kind = [field, "alternative"]) (hc : c ∈ n.children)
    (hfield : c.field = "alternative") : c.kind ∈ Node.blockKinds n.kind "alternative" := by
  have hfill := Node.blocksFill_of_blocksInPlace h.blocksInPlace hfields
  simp only [Node.blocksFill, Bool.and_eq_true, List.all_eq_true] at hfill
  have hkind := hfill.1.2 c (List.mem_filter.2 ⟨hc, by simp [hfield]⟩)
  rwa [hfield, List.contains_iff_mem] at hkind

/-- The body of a statement and then its alternatives have the landmarks of the children. -/
theorem bodyField_append (h : LandmarksBelow source n) (field : String)
    (hfields : Node.blockFields n.kind = [field, "alternative"])
    (hblock : Node.blockKinds n.kind field = ["block"]) :
    landmarksOf ((ofNode source n).bodyField field) ++
        ((n.children.filter fun c => c.field = "alternative").flatMap Node.landmarks).map
          (landmark source) =
      (n.children.flatMap Node.landmarks).map (landmark source) := by
  have hfill := Node.blocksFill_of_blocksInPlace h.blocksInPlace hfields
  have hne := Node.ne_alternative_of_blockKinds hblock
  rw [h.bodyField hfill hblock, Node.flatMap_landmarks_fields hfill (List.Subset.refl _) hne,
    List.map_append]

/-- The alternatives of an `if` statement. -/
theorem alternatives (h : LandmarksBelow source n) (hkind : n.kind = "if_statement") :
    landmarksOf (((ofNode source n).fields "alternative").map Part.alternative) =
      ((n.children.filter fun c => c.field = "alternative").flatMap Node.landmarks).map
        (landmark source) := by
  rw [fields_ofNode, List.map_map, landmarksOf_eq_flatMap, List.flatMap_map, List.map_flatMap]
  refine List.flatMap_congr fun c hc => ?_
  obtain ⟨hc, hfield⟩ := List.mem_filter.1 hc
  have hclause := h.kind_of_alternative _ (by rw [hkind]; rfl) hc (of_decide_eq_true hfield)
  rw [hkind] at hclause
  exact (h.child hc).alternative (by simpa [Node.blockKinds] using hclause)

/-- The branch behind the `else` of a loop. -/
theorem loopElse (h : LandmarksBelow source n)
    (hkind : n.kind = "while_statement" ∨ n.kind = "for_statement") :
    landmarksOf (ofNode source n).loopElse =
      ((n.children.filter fun c => c.field = "alternative").flatMap Node.landmarks).map
        (landmark source) := by
  have honce : (n.children.filter fun c => c.field = "alternative").length ≤ 1 := by
    have hshaped := (h.structured n n.self_mem_subtrees).1
    rcases hkind with hkind | hkind
    all_goals
      have hfits := Node.wellShaped_fits hshaped (by rw [hkind]; rfl)
      simp only [Shape.fits, Bool.and_eq_true, List.all_eq_true, decide_eq_true_eq] at hfits
      exact hfits.2 ⟨"alternative", ["else_clause"]⟩ (by simp)
  have helse : ∀ c ∈ n.children, c.field = "alternative" → c.kind = "else_clause" := by
    intro c hc hfield
    rcases hkind with hkind | hkind
    all_goals
      have hclause := h.kind_of_alternative "body" (by rw [hkind]; rfl) hc hfield
      rw [hkind] at hclause
      simpa [Node.blockKinds] using hclause
  -- A loop has one alternative at most, and it is an `else` clause.
  rw [Part.loopElse, field?_ofNode, ← List.head?_filter]
  cases hclauses : n.children.filter fun c => c.field = "alternative" with
  | nil => rfl
  | cons c rest =>
    obtain rfl : rest = [] := List.eq_nil_of_length_eq_zero (by simpa [hclauses] using honce)
    obtain ⟨hc, hfield⟩ := List.mem_filter.1 (hclauses ▸ List.mem_cons_self)
    have hkind := helse c hc (of_decide_eq_true hfield)
    rw [List.flatMap_singleton, Node.landmarks_of_mem (by rw [hkind]; decide)]
    exact (h.child hc).only _ (by rw [hkind]; rfl) (by rw [hkind]; rfl)

/-! ### The clauses of a `try` statement -/

/-- An `except` clause. -/
theorem exceptClause (h : LandmarksBelow source n)
    (hkind : n.kind = "except_clause" ∨ n.kind = "except_group_clause") :
    landmarksOf (exceptBody none (ofNode source n).named) =
      n.landmarks.map (landmark source) := by
  have hamong : n.blocksAmong ["block"] :=
    Node.blocksAmong_of_blocksInPlace h.blocksInPlace (by rcases hkind with h | h <;> rw [h] <;> rfl)
      (by rcases hkind with h | h <;> rw [h] <;> rfl)
  have hmarks := Node.landmarks_of_mem (n := n) (by rcases hkind with h | h <;> rw [h] <;> decide)
  rw [landmarksOf_eq_flatMap,
    flatMap_exceptBody _ fun _ between _ => landmarksOf_eq_flatMap between, named_ofNode,
    List.flatMap_map, hmarks, ← Node.flatMap_landmarks_listed hamong, List.map_flatMap]
  -- The landmarks of an `except` clause stand in its blocks; the rest binds and has none.
  refine List.flatMap_congr fun c hc => ?_
  have hc := (List.mem_filter.1 hc).1
  by_cases hblock : c.kind = "block"
  · simp only [exceptStmt?, kind_ofNode, hblock, Option.map_some, Option.getD_some,
      Stmt.landmarks]
    exact (h.child hc).block hblock
  · rw [Node.landmarks_eq_nil_of_blocksAmong hamong hc (by simp [hblock])]
    rw [exceptStmt?]
    split
    · simp_all
    · rw [caughtAs]
      split <;> rfl
    · rfl

/-- A `finally` clause. -/
theorem finallyClause (h : LandmarksBelow source n) (hkind : n.kind = "finally_clause") :
    landmarksOf (((ofNode source n).named.filter fun c => c.kind = "block").map fun b =>
      .block b.body) = n.landmarks.map (landmark source) := by
  have hamong : n.blocksAmong ["block"] := Node.blocksAmong_of_blocksInPlace h.blocksInPlace
    (by rw [hkind]; rfl) (by rw [hkind]; rfl)
  -- Children that are no blocks have no landmarks, so the filter drops none.
  have hblocks : ((n.children.filter Node.isListed).filter fun c => c.kind = "block").flatMap
      Node.landmarks = n.landmarks := by
    rw [Node.landmarks_of_mem (by rw [hkind]; decide), ← Node.flatMap_landmarks_listed hamong]
    exact Node.flatMap_filter_eq fun c hc hblock => Node.landmarks_eq_nil_of_blocksAmong hamong
      (List.mem_filter.1 hc).1 fun hlisted => hblock (by simpa using hlisted.2)
  have hnamed : ((ofNode source n).named.filter fun c => c.kind = "block") =
      ((n.children.filter Node.isListed).filter fun c => c.kind = "block").map (ofNode source) := by
    rw [named_ofNode, List.filter_map]
    congr 2
    funext c
    simp [Function.comp]
  rw [hnamed, ← hblocks, List.map_map, landmarksOf_eq_flatMap, List.flatMap_map,
    List.map_flatMap]
  refine List.flatMap_congr fun c hc => ?_
  obtain ⟨hc, hblock⟩ := List.mem_filter.1 hc
  exact (h.child (List.mem_filter.1 hc).1).block (of_decide_eq_true hblock)

/-- A clause of a `try` statement. -/
theorem tryClause (h : LandmarksBelow source n) (hkind : n.kind ∈ Node.listedKinds "try_statement") :
    (ofNode source n).tryClause.landmarks = n.landmarks.map (landmark source) := by
  rw [Part.tryClause, kind_ofNode]
  split
  case h_1 hkind => exact h.block hkind
  case h_2 hkind => exact h.exceptClause (.inl hkind)
  case h_3 hkind => exact h.exceptClause (.inr hkind)
  case h_4 hkind =>
    rw [Node.landmarks_of_mem (by rw [hkind]; decide)]
    exact h.only _ (by rw [hkind]; rfl) (by rw [hkind]; rfl)
  case h_5 hkind => exact h.finallyClause hkind
  case h_6 => simp_all [Node.listedKinds]

/-- A `try` statement. -/
theorem tryStatement (h : LandmarksBelow source n) (hkind : n.kind = "try_statement") :
    landmarksOf ((ofNode source n).named.map Part.tryClause) =
      n.landmarks.map (landmark source) := by
  have hamong : n.blocksAmong (Node.listedKinds "try_statement") :=
    Node.blocksAmong_of_blocksInPlace h.blocksInPlace (by rw [hkind]; rfl) (by rw [hkind]; rfl)
  rw [named_ofNode, List.map_map, landmarksOf_eq_flatMap, List.flatMap_map,
    Node.landmarks_of_mem (by rw [hkind]; decide), ← Node.flatMap_landmarks_listed hamong,
    List.map_flatMap]
  refine List.flatMap_congr fun c hc => ?_
  have hc := (List.mem_filter.1 hc).1
  -- A child that is no clause is read as an empty block and has no landmarks.
  by_cases hclause : c.kind ∈ Node.listedKinds "try_statement"
  · exact (h.child hc).tryClause hclause
  · rw [Node.landmarks_eq_nil_of_blocksAmong hamong hc fun hlisted => hclause hlisted.2,
      Function.comp_apply, Part.tryClause, kind_ofNode]
    split <;> simp_all [Node.listedKinds, Stmt.landmarks, landmarksOf]

/-! ### Statements -/

/-- What cannot be without a name has one. -/
theorem exists_name (h : LandmarksBelow source n) (hkind : "name" ∈ requiredFields n.kind) :
    ∃ name, (ofNode source n).field? "name" = some name := by
  have hshaped := (h.structured n n.self_mem_subtrees).1
  simp only [Node.wellShaped, Bool.and_eq_true, List.all_eq_true] at hshaped
  obtain ⟨c, hc, hfield⟩ := List.any_eq_true.1 (hshaped.1.2 "name" hkind)
  rw [field?_ofNode]
  cases hfind : n.children.find? fun c => c.field = "name" with
  | none => exact absurd hfield (List.find?_eq_none.1 hfind c hc)
  | some c => exact ⟨_, rfl⟩

/-- A function, which is a landmark by itself. -/
theorem functionStmt (h : LandmarksBelow source n) (hkind : n.kind = "function_definition") :
    (ofNode source n).functionStmt.landmarks = n.landmarks.map (landmark source) := by
  obtain ⟨name, hname⟩ := h.exists_name (by rw [hkind]; exact List.mem_singleton.2 rfl)
  rw [Part.functionStmt, hname, Node.landmarks_eq, if_pos (by rw [hkind]; decide),
    List.map_singleton, landmark, if_pos hkind, ← info_ofNode source n]
  rfl

/-- A class, which has the landmarks of its body. -/
theorem classStmt (h : LandmarksBelow source n) (hkind : n.kind = "class_definition") :
    (ofNode source n).classStmt.landmarks = n.landmarks.map (landmark source) := by
  obtain ⟨name, hname⟩ := h.exists_name (by rw [hkind]; exact List.mem_singleton.2 rfl)
  rw [Part.classStmt, hname, Node.landmarks_of_mem (by rw [hkind]; decide)]
  exact h.only _ (by rw [hkind]; rfl) (by rw [hkind]; rfl)

/-- A definition behind its decorators. -/
theorem decoratedStmt (h : LandmarksBelow source n) (hkind : n.kind = "decorated_definition") :
    (ofNode source n).decoratedStmt.landmarks = n.landmarks.map (landmark source) := by
  have hfill := Node.blocksFill_of_blocksInPlace h.blocksInPlace (by rw [hkind]; rfl)
  rw [Part.decoratedStmt, field?_ofNode, Node.landmarks_of_mem (by rw [hkind]; decide),
    Node.flatMap_landmarks_field hfill (by decide)]
  cases hfind : n.children.find? fun c => c.field = "definition" with
  | none => rfl
  | some d =>
    have hd := List.mem_of_find?_eq_some hfind
    have hfield : d.field = "definition" := by simpa using List.find?_some hfind
    -- Making a function static leaves its landmarks.
    have hmark (st : Stmt) : (markStatic st).landmarks = st.landmarks := by cases st <;> rfl
    have hclause : d.kind ∉ Node.clauseKinds := by
      simp only [Node.blocksFill, Bool.and_eq_true, List.all_eq_true] at hfill
      have hdefinition := hfill.1.2 d (List.mem_filter.2 ⟨hd, by simp [hfield]⟩)
      rw [hfield, List.contains_iff_mem] at hdefinition
      exact (by decide : ∀ kind ∈ ["function_definition", "class_definition"],
        kind ∉ Node.clauseKinds) _ hdefinition
    have hread := h.readsLandmarks hd
    rw [ReadsLandmarks, if_neg hclause] at hread
    simp only [Option.map_some, Option.getD_some, Stmt.landmarks, landmarksOf,
      List.nil_append, List.append_nil]
    split
    · rw [hmark, hread]
    · exact hread

/-- A statement has the landmarks of its node. -/
theorem readsLandmarks_self (h : LandmarksBelow source n) : ReadsLandmarks source n := by
  have hnone : ∀ {kind : String}, n.kind = kind →
      kind ∉ Node.landmarkKinds ++ (Node.compoundKinds ++ Node.clauseKinds) →
      [] = if n.kind ∈ Node.clauseKinds then [] else n.landmarks.map (landmark source) := by
    intro kind hkind hmem
    rw [← hkind, List.mem_append, not_or] at hmem
    rw [Node.landmarks_eq, if_neg hmem.1, if_neg hmem.2]
    split <;> rfl
  rw [ReadsLandmarks, stmt_ofNode, toStmt, kind_ofNode]
  split
  case h_3 hkind => rw [if_neg (by rw [hkind]; decide)]; exact h.classStmt hkind
  case h_4 hkind => rw [if_neg (by rw [hkind]; decide)]; exact h.decoratedStmt hkind
  case h_2 hkind => rw [if_neg (by rw [hkind]; decide)]; exact h.functionStmt hkind
  case h_11 hkind =>
    rw [if_neg (by rw [hkind]; decide), Node.landmarks_eq, if_pos (by rw [hkind]; decide)]
    simp [Stmt.landmarks, landmark, hkind, returnValue]
  -- `if`, `while`, `for`, `try` and `with`.
  case h_12 hkind =>
    rw [if_neg (by rw [hkind]; decide), Node.landmarks_of_mem (by rw [hkind]; decide),
      ← h.bodyField_append "consequence" (by rw [hkind]; rfl) (by rw [hkind]; rfl),
      ← h.alternatives hkind]
    rfl
  case h_13 hkind =>
    rw [if_neg (by rw [hkind]; decide), Node.landmarks_of_mem (by rw [hkind]; decide),
      ← h.bodyField_append "body" (by rw [hkind]; rfl) (by rw [hkind]; rfl),
      ← h.loopElse (.inl hkind)]
    simp [Stmt.landmarks, landmarksOf, readField]
  case h_14 hkind =>
    rw [if_neg (by rw [hkind]; decide), Node.landmarks_of_mem (by rw [hkind]; decide),
      ← h.bodyField_append "body" (by rw [hkind]; rfl) (by rw [hkind]; rfl),
      ← h.loopElse (.inr hkind)]
    simp [Stmt.landmarks, landmarksOf, readField]
  case h_15 hkind => rw [if_neg (by rw [hkind]; decide)]; exact h.tryStatement hkind
  case h_16 hkind =>
    rw [if_neg (by rw [hkind]; decide), Node.landmarks_of_mem (by rw [hkind]; decide),
      ← h.only "body" (by rw [hkind]; rfl) (by rw [hkind]; rfl)]
    simp [Stmt.landmarks, landmarksOf]
  case h_23 =>
    by_cases hclause : n.kind ∈ Node.clauseKinds
    · rw [if_pos hclause]
      rfl
    · refine hnone rfl ?_
      simp_all [Node.landmarkKinds, Node.compoundKinds]
  all_goals exact hnone ‹_› (by decide)

end LandmarksBelow

mutual

/-- Every statement of a tree has the landmarks of its node. -/
theorem readsLandmarks_of_mem_subtrees {source : SourceText} :
    ∀ n : Node, n.Structured → ∀ d ∈ n.subtrees, ReadsLandmarks source d
  | .mk info children, h, d, hd => by
    have hbelow := @readsLandmarks_of_mem_subtreesOf source children fun d hd =>
      h d (List.mem_cons_of_mem _ hd)
    rcases List.mem_cons.1 hd with rfl | hd
    · refine LandmarksBelow.readsLandmarks_self ⟨h, fun c hc d hd => hbelow d ?_⟩
      rw [Node.subtreesOf_eq_flatMap]
      exact List.mem_flatMap.2 ⟨c, hc, hd⟩
    · exact hbelow d hd

/-- Every node among the subtrees of some nodes is read with its landmarks. -/
theorem readsLandmarks_of_mem_subtreesOf {source : SourceText} :
    ∀ ns : List Node, (∀ d ∈ Node.subtreesOf ns, d.wellShaped ∧ d.blocksInPlace) →
      ∀ d ∈ Node.subtreesOf ns, ReadsLandmarks source d
  | [], _, d, hd => nomatch hd
  | n :: rest, h, d, hd => by
    rcases List.mem_append.1 hd with hd | hd
    · exact readsLandmarks_of_mem_subtrees n (fun d hd => h d (List.mem_append_left _ hd)) d hd
    · exact readsLandmarks_of_mem_subtreesOf rest (fun d hd => h d (List.mem_append_right _ hd)) d hd

end

/-- In a structured tree every node below is read with its landmarks. -/
theorem landmarksBelow (source : SourceText) {n : Node} (h : n.Structured) :
    LandmarksBelow source n :=
  ⟨h, fun c hc d hd => readsLandmarks_of_mem_subtrees c (h.child hc) d hd⟩

/-- The body of a function has the landmarks of its definition, in document order. -/
theorem landmarksOf_of_means {source : SourceText} {d : Node} {f : FunctionBody}
    (hd : d.Structured) (hf : (ofNode source d).Means f) :
    landmarksOf f.body = (d.children.flatMap Node.landmarks).map (landmark source) := by
  obtain ⟨hkind, hstmt⟩ := hf
  have hbody : f.body = (ofNode source d).bodyField "body" := by
    rw [functionStmt] at hstmt
    split at hstmt
    · exact (Stmt.function.inj hstmt).2.symm
    · cases hstmt
  rw [kind_ofNode] at hkind
  rw [hbody]
  exact (landmarksBelow source hd).only _ (by rw [hkind]; rfl) (by rw [hkind]; rfl)

end Part

/-! ### The functions that a walk comes to -/

variable {source : SourceText} {tree d : Node}

/-- A definition in the code of a node is a node in it. -/
theorem mem_subtrees_of_mem_definitions {n : Node} (h : d ∈ n.children.flatMap Node.definitions) :
    d ∈ n.subtrees := by
  obtain ⟨c, hc, hd⟩ := List.mem_flatMap.1 h
  exact Node.subtrees_subset_of_mem_children hc
    (Node.mem_of_mem_landmarks (List.mem_filter.1 hd).1).1

/-- A definition that a walk comes to is a node in the tree. -/
theorem mem_subtrees_of_holds (h : tree.Holds d) : d ∈ tree.subtrees := by
  induction h with
  | here h => exact mem_subtrees_of_mem_definitions h
  | within _ h ih => exact Node.subtrees_subset_of_mem_subtrees ih (mem_subtrees_of_mem_definitions h)

/-- Where some statements have the landmarks of a node, each function that is defined there is among
the functions of the statements. -/
theorem exists_mem_functionsOf {n : Node} {body : List Stmt}
    (h : landmarksOf body = (n.children.flatMap Node.landmarks).map (landmark source))
    (hd : d ∈ n.children.flatMap Node.definitions) :
    ∃ f ∈ functionsOf body, f.header.node = d.info.id := by
  rw [← List.mem_map, ← filterMap_node?_landmarksOf, h, filterMap_node?_landmark]
  exact List.mem_map_of_mem hd

/-- To every definition in a tree, and in the functions it holds, a walk comes as to a function. -/
theorem exists_reaches_of_holds (hids : tree.DistinctIds) (hkind : tree.kind = "module")
    (htree : tree.Structured) (h : tree.Holds d) :
    ∃ f, (Module.ofTree source tree).Reaches f ∧ (Part.ofNode source d).Means f := by
  -- A function with the node of the definition is the one that the definition means.
  have hmeans {d : Node} (hd : tree.Holds d) {f : FunctionBody}
      (hf : (Module.ofTree source tree).Reaches f) (hnode : f.header.node = d.info.id) :
      (Part.ofNode source d).Means f := by
    obtain ⟨d', hd', hmeans⟩ := exists_definition_of_reaches hf
    rw [hmeans.node_eq, Part.info_ofNode] at hnode
    obtain rfl := hids.eq_of_id_eq hd' (mem_subtrees_of_holds hd) hnode
    exact hmeans
  induction h with
  | here h =>
    obtain ⟨f, hf, hnode⟩ := exists_mem_functionsOf
      ((Part.landmarksBelow source htree).body (.inr hkind)) h
    exact ⟨f, .here hf, hmeans (.here h) (.here hf) hnode⟩
  | within he h ih =>
    obtain ⟨g, hg, hmeansg⟩ := ih
    obtain ⟨f, hf, hnode⟩ := exists_mem_functionsOf
      (Part.landmarksOf_of_means (htree.subtree (mem_subtrees_of_holds he)) hmeansg) h
    exact ⟨f, .within hg hf, hmeans (.within he h) (.within hg hf) hnode⟩

end Python

end NameAtlas
