import NameAtlas.Proofs.Reading.Trivia
import NameAtlas.Proofs.Source.Broken
import NameAtlas.Proofs.Walk.Alike

/-!
# Reading past broken code

A node around code that cannot be placed means nothing in every role that it can play, and so does a
missing node where it is looked for among parameters. Where all the children of a node are read one
after the other this is as good as absence, but not where the children are counted, or the first of
them is read, and not for a missing node that is taken for a name. `Node.PassesBroken` says that a
node has its broken children elsewhere. If the sound trees of a tree do, the parts of the tree mean
the same with the broken nodes and without them (`Part.Mends`): this module shows it for
expressions, targets, annotations and assignments, and `Mending` for statements and whole trees.
-/

namespace NameAtlas

namespace Python

/-- The kinds of nodes with the kinds of children that are told apart from the other children. -/
def readKinds : List (String × String) :=
  [("string", "string"), ("string", "interpolation"), ("string", "string_content"),
    ("concatenated_string", "string"), ("concatenated_string", "interpolation"),
    ("generic_type", "type_parameter"), ("import_from_statement", "wildcard_import"),
    ("decorated_definition", "decorator"), ("with_statement", "with_clause"),
    ("finally_clause", "block")]

/-- The kinds of nodes whose first child means more than the others. -/
def headReadKinds : List String :=
  firstReadKinds ++ ["type", "generic_type", "conditional_expression"]

/-- The kinds of nodes whose children are counted. -/
def countedKinds : List String :=
  ["union_type", "type_parameter", "global_statement", "nonlocal_statement", "except_clause",
    "except_group_clause"]

/-- The kinds of patterns, whose targets are counted where the values are. -/
def patternKinds : List String := ["pattern_list", "tuple_pattern", "list_pattern"]

/-- The fields that hold lists in which a missing node does not mean nothing. -/
def bodyFields : List String := ["body", "consequence", "superclasses"]

end Python

namespace Source.Node

open Python

/-- True if the named children of a node that are broken are code that cannot be placed. -/
def KeepsMissing (n : Node) : Prop :=
  ∀ c ∈ n.children.filter isListed, c.info.isBroken → c.info.isError

instance (n : Node) : Decidable n.KeepsMissing := inferInstanceAs (Decidable (∀ c ∈ _, _))

mutual

/-- True if the values of a sequence are not broken, whatever parentheses are around it. -/
def keepsSequence : Node → Bool
  | .mk info children =>
    if info.kind = "type" || info.kind = "parenthesized_expression" then keepsSequenceIn children
    else if info.kind = "expression_list" || info.kind = "tuple" || info.kind = "list" then
      (children.filter isListed).all fun c => !c.info.isBroken
    else true

/-- True if this is so for the first of some nodes that is named. -/
def keepsSequenceIn : List Node → Bool
  | [] => true
  | n :: rest => if n.isListed then keepsSequence n else keepsSequenceIn rest

end

/-- A list keeps a sequence if its first listed member does. -/
theorem keepsSequenceIn_eq (ns : List Node) :
    keepsSequenceIn ns = (ns.filter isListed).head?.all keepsSequence := by
  induction ns with
  | nil => rfl
  | cons n rest ih => by_cases h : n.isListed <;> simp [keepsSequenceIn, h, ih]

/-- What stands for another expression keeps a sequence if that one does, and a sequence keeps
itself if none of its members is broken. -/
theorem keepsSequence_eq (n : Node) :
    n.keepsSequence =
      if n.kind = "type" || n.kind = "parenthesized_expression" then
        (n.children.filter isListed).head?.all keepsSequence
      else if n.kind = "expression_list" || n.kind = "tuple" || n.kind = "list" then
        (n.children.filter isListed).all fun c => !c.info.isBroken
      else true := by
  obtain ⟨info, children⟩ := n
  rw [keepsSequence, keepsSequenceIn_eq]
  rfl

/-- True for an assignment in which neither the targets nor the values of a pattern are broken. -/
def KeepsPairs (n : Node) : Prop :=
  ∀ left ∈ n.children, left.field = "left" → left.kind ∈ patternKinds →
    left.KeepsListed NodeInfo.isBroken ∧
      ∀ right ∈ n.children, right.field = "right" → right.keepsSequence

instance (n : Node) : Decidable n.KeepsPairs := inferInstanceAs (Decidable (∀ left ∈ _, _))

/-- True for a node that is read alike with and without its broken children. -/
structure PassesBroken (n : Node) : Prop where
  /-- Broken children are marked. -/
  marked : ∀ c ∈ n.children, c.info.isBroken → c.info.malformed
  /-- They fill no field. -/
  unfielded : ∀ c ∈ n.children, c.info.isBroken → c.field = ""
  /-- What stands below them fills none. -/
  sealed : ∀ c ∈ n.children, c.info.isBroken → ∀ d ∈ c.children, d.field = ""
  /-- They are of no kind that is told apart from the others. -/
  kinds : ∀ c ∈ n.children, c.info.isBroken → (n.kind, c.kind) ∉ readKinds
  /-- Where every named child is read, none is missing. -/
  all : n.kind ∈ allReadKinds → n.KeepsMissing
  /-- Where the first named child means more than the others, it is not broken. -/
  head : n.kind ∈ headReadKinds → ∀ c ∈ (n.children.filter isListed).head?.toList, ¬c.info.isBroken
  /-- Where the named children are counted, none is broken. -/
  counted : n.kind ∈ countedKinds → n.KeepsListed NodeInfo.isBroken
  /-- Where the lists in fields are read, nothing in them is missing. -/
  lists : holdsLists n.info → ∀ c ∈ n.children, c.field ∈ bodyFields → c.KeepsMissing
  /-- Where values are assigned to several targets, neither are broken. -/
  pairs : n.kind = "assignment" → n.KeepsPairs

instance (n : Node) : Decidable n.PassesBroken :=
  decidable_of_iff
    ((∀ c ∈ n.children, c.info.isBroken → c.info.malformed) ∧
      (∀ c ∈ n.children, c.info.isBroken → c.field = "") ∧
      (∀ c ∈ n.children, c.info.isBroken → ∀ d ∈ c.children, d.field = "") ∧
      (∀ c ∈ n.children, c.info.isBroken → (n.kind, c.kind) ∉ readKinds) ∧
      (n.kind ∈ allReadKinds → n.KeepsMissing) ∧
      (n.kind ∈ headReadKinds →
        ∀ c ∈ (n.children.filter isListed).head?.toList, ¬c.info.isBroken) ∧
      (n.kind ∈ countedKinds → n.KeepsListed NodeInfo.isBroken) ∧
      (holdsLists n.info → ∀ c ∈ n.children, c.field ∈ bodyFields → c.KeepsMissing) ∧
      (n.kind = "assignment" → n.KeepsPairs))
    ⟨fun ⟨marked, unfielded, sealed, kinds, all, head, counted, lists, pairs⟩ =>
        ⟨marked, unfielded, sealed, kinds, all, head, counted, lists, pairs⟩,
      fun h => ⟨h.marked, h.unfielded, h.sealed, h.kinds, h.all, h.head, h.counted, h.lists, h.pairs⟩⟩

end Source.Node

namespace Python

open Source

namespace Part

/-! ### Parts without broken nodes -/

/-- A node with its text above its children, and with the meanings that follow from these. -/
def compose (info : NodeInfo) (word : Word) (children : List Part) : Part :=
  let p : Part := .mk info word default children
  .mk info word
    { expr := p.toExpr
      target := p.toTarget
      augmented := p.toAugmented
      interpolations := p.interpolations
      literalType := p.literalType?
      typeForm := p.toTypeForm
      hintReads := p.toHintReads
      isNone := p.toIsNone
      sequence := p.toSequence
      assignment := p.toAssignment
      stmt := p.toStmt }
    children

mutual

/-- The part read anew without the broken ones below it. -/
def mend : Part → Part
  | .mk info word _ children => compose info word (mendIn children)

/-- Several parts without the broken ones, the others read anew. -/
def mendIn : List Part → List Part
  | [] => []
  | p :: rest => if p.info.isBroken then mendIn rest else mend p :: mendIn rest

end

/-- A list is mended by leaving out what is broken and mending the rest. -/
theorem mendIn_eq (ps : List Part) :
    mendIn ps = (ps.filter fun p => !p.info.isBroken).map mend := by
  induction ps with
  | nil => rfl
  | cons p rest ih => by_cases h : p.info.isBroken <;> simp [mendIn, h, ih]

section

variable (source : SourceText)

mutual

/-- A mended tree is read into the mended part. -/
theorem ofNode_mend : ∀ n : Node, ofNode source n.mend = (ofNode source n).mend
  | .mk info children => by
    rw [Node.mend, Node.erase, ofNode, ofNodes_eraseIn_isBroken children, ofNode]
    rfl

/-- The parts of a mended list are the mended parts. -/
theorem ofNodes_eraseIn_isBroken :
    ∀ ns : List Node,
      ofNodes source (Node.eraseIn NodeInfo.isBroken ns) = mendIn (ofNodes source ns)
  | [] => rfl
  | n :: rest => by
    have hn : ofNode source (Node.erase NodeInfo.isBroken n) = _ := ofNode_mend n
    rw [Node.eraseIn, ofNodes, mendIn, info_ofNode]
    split
    · exact ofNodes_eraseIn_isBroken rest
    · rw [ofNodes, hn, ofNodes_eraseIn_isBroken rest]

end

end

section Fields

variable (p : Part)

/-- Mending keeps the node of a part. -/
@[simp] theorem info_mend : p.mend.info = p.info := by
  cases p
  rfl

/-- Mending keeps the word of a part. -/
@[simp] theorem word_mend : p.mend.word = p.word := by
  cases p
  rfl

/-- Mending keeps the kind of a part. -/
@[simp] theorem kind_mend : p.mend.kind = p.kind := by
  rw [kind, info_mend, kind]

/-- Mending keeps the text of a part. -/
@[simp] theorem text_mend : p.mend.text = p.text := by
  rw [text, word_mend, text]

/-- Mending keeps the location of a part. -/
@[simp] theorem location_mend : p.mend.location = p.location := by
  rw [location, word_mend, location]

/-- The children of a mended part are those that are not broken, mended. -/
theorem children_mend :
    p.mend.children = (p.children.filter fun c => !c.info.isBroken).map mend := by
  cases p
  exact mendIn_eq _

/-- The named children of a mended part are those that are not broken, mended. -/
theorem named_mend : p.mend.named = (p.named.filter fun c => !c.info.isBroken).map mend := by
  rw [named, children_mend, List.filter_map, named, List.filter_filter, List.filter_filter]
  congr 1
  refine List.filter_congr fun c _ => ?_
  simp [Bool.and_comm]

end Fields

/-- True for a part that has the meanings that follow from its children. -/
def Composed (p : Part) : Prop := p = compose p.info p.word p.children

/-- A mended part is composed of its children. -/
theorem composed_mend (p : Part) : p.mend.Composed := by
  cases p
  rfl

/-! ### What is the same -/

/-- Values that are the same one by one, and unpacked alike. -/
def SameValues : List (Bool × Expr) → List (Bool × Expr) → Prop :=
  List.Forall₂ fun v v' => v'.1 = v.1 ∧ v.2.Same v'.2

/-- The same values are starred in the same places. -/
theorem SameValues.any_fst {values values' : List (Bool × Expr)} (h : SameValues values values') :
    values'.any Prod.fst = values.any Prod.fst := by
  induction h with
  | nil => rfl
  | cons hv _ ih => rw [List.any_cons, List.any_cons, hv.1, ih]

/-- Targets and values that are the same one by one are so in pairs. -/
theorem SameValues.zip {ts ts' : List Target} (ht : List.Forall₂ Target.Same ts ts')
    {values values' : List (Bool × Expr)} (h : SameValues values values') :
    SamePairs (ts.zip (values.map Prod.snd)) (ts'.zip (values'.map Prod.snd)) := by
  induction ht generalizing values values' with
  | nil => exact .nil
  | cons ht _ ih =>
    cases h with
    | nil => exact .nil
    | cons hv h => exact .cons ⟨ht, hv.2⟩ (ih h)

/-- A part that means the same as the mended part, in every role. -/
structure SameAsMended (p : Part) : Prop where
  /-- Where it is evaluated. -/
  expr : p.meaning.expr.Same p.mend.meaning.expr
  /-- Where it is assigned to. -/
  target : p.meaning.target.Same p.mend.meaning.target
  /-- Where it is combined with a value and assigned to. -/
  augmented : p.meaning.augmented.SameAugmented p.mend.meaning.augmented
  /-- Between the literal parts of a string. -/
  interpolations : p.kind = "string" →
    Sifted (· = .absent) Expr.Same p.meaning.interpolations p.mend.meaning.interpolations
  /-- The type of a literal. -/
  literalType : p.mend.meaning.literalType = p.meaning.literalType
  /-- Where it is an annotation, what it says. -/
  typeForm : p.mend.meaning.typeForm = p.meaning.typeForm
  /-- Where it is an annotation, what it reads. -/
  hintReads : Sifted (· = .absent) Expr.Same p.meaning.hintReads p.mend.meaning.hintReads
  /-- The literal `None`. -/
  isNone : p.mend.meaning.isNone = p.meaning.isNone
  /-- In a sequence of values. -/
  sequence : p.node.keepsSequence →
    Option.Rel SameValues
      p.meaning.sequence p.mend.meaning.sequence
  /-- Where it is an assignment. -/
  assignment : p.kind = "assignment" → p.meaning.assignment.Same p.mend.meaning.assignment
  /-- Where it is a statement. -/
  stmt : Alike [p.meaning.stmt] [p.mend.meaning.stmt]

/-- A part of which all sound trees pass over their broken children. -/
def Sound (p : Part) : Prop := ∀ t ∈ p.node.sound, t.PassesBroken

/-- A part that has the meanings that follow from its children, and means the same as the mended
part if it is sound. -/
structure Mends (p : Part) : Prop where
  /-- The meanings follow from the children. -/
  composed : p.Composed
  /-- They are the same in the mended part. -/
  same : p.Sound → p.SameAsMended

/-- A sound part of which everything below has been read. -/
structure MendsBelow (p : Part) : Prop where
  /-- The sound trees in it. -/
  sound : p.Sound
  /-- What stands below it. -/
  below : ∀ c ∈ p.children, c.All Mends

variable {p c : Part}

/-- What is read from the elements of a list that are broken may be skipped, if what is read from the
others has a relation to what is read from the mended ones. -/
theorem sifted_flatMap {α : Type} {Skip : α → Prop} {R : α → α → Prop} {f : Part → List α}
    {l : List Part} (hskip : ∀ c ∈ l, c.info.isBroken → Sifted Skip R (f c) [])
    (hkeep : ∀ c ∈ l, ¬c.info.isBroken → Sifted Skip R (f c) (f c.mend)) :
    Sifted Skip R (l.flatMap f) (((l.filter fun c => !c.info.isBroken).map mend).flatMap f) := by
  -- The induction is on the parts: a broken one gives only what may be skipped, and any other one
  -- gives what it gives mended.
  induction l with
  | nil => exact .nil
  | cons c rest ih =>
    have ih := ih (fun d hd => hskip d (List.mem_cons_of_mem c hd))
      fun d hd => hkeep d (List.mem_cons_of_mem c hd)
    by_cases hc : c.info.isBroken
    · rw [List.filter_cons_of_neg (by simpa using hc), List.flatMap_cons]
      exact (hskip c List.mem_cons_self hc).append ih
    · rw [List.filter_cons_of_pos (by simpa using hc), List.flatMap_cons, List.map_cons,
        List.flatMap_cons]
      exact (hkeep c List.mem_cons_self hc).append ih

/-- The same where one thing is read from each element. -/
theorem sifted_mend {α : Type} {Skip : α → Prop} {R : α → α → Prop} {f : Part → α} {l : List Part}
    (hskip : ∀ c ∈ l, c.info.isBroken → Skip (f c))
    (hkeep : ∀ c ∈ l, ¬c.info.isBroken → R (f c) (f c.mend)) :
    Sifted Skip R (l.map f) (((l.filter fun c => !c.info.isBroken).map mend).map f) := by
  rw [List.map_eq_flatMap, List.map_eq_flatMap (f := f)]
  exact sifted_flatMap (fun c hc hbroken => .skip (hskip c hc hbroken) .nil)
    fun c hc hwhole => .cons (hkeep c hc hwhole) .nil

/-- If the first named child is not broken, it is still the first. -/
theorem head?_named_mend (h : ∀ c ∈ p.named.head?, ¬c.info.isBroken) :
    p.mend.named.head? = p.named.head?.map mend := by
  rw [named_mend, List.head?_map]
  cases hn : p.named with
  | nil => rfl
  | cons c rest =>
    have hc : ¬c.info.isBroken := h c (by rw [hn]; rfl)
    rw [List.filter_cons_of_pos (by simpa using hc)]
    rfl

/-- If no named child is broken, all are there, mended. -/
theorem KeepsNamed.named_mend (h : p.KeepsNamed NodeInfo.isBroken) :
    p.mend.named = p.named.map mend := by
  rw [Part.named_mend, List.filter_eq_self.2 fun c hc => by simpa using h c hc]

/-- A broken child is an error wherever missing nodes are kept. -/
theorem kind_of_keepsMissing (h : p.node.KeepsMissing) (hc : c ∈ p.named)
    (hbroken : c.info.isBroken) : c.kind = "ERROR" := by
  have hmem : c.node ∈ p.node.children.filter Node.isListed := by
    rw [listed_node]
    exact List.mem_map_of_mem hc
  have herror := h c.node hmem (by rwa [info_node])
  rw [info_node] at herror
  exact of_decide_eq_true herror

namespace Composed

variable (h : p.Composed)

include h

/-- The meaning follows from the children. -/
theorem meaning : p.meaning =
    { expr := p.toExpr
      target := p.toTarget
      augmented := p.toAugmented
      interpolations := p.interpolations
      literalType := p.literalType?
      typeForm := p.toTypeForm
      hintReads := p.toHintReads
      isNone := p.toIsNone
      sequence := p.toSequence
      assignment := p.toAssignment
      stmt := p.toStmt } := by
  -- A composed part means what its children make of it.
  rw [h]
  rfl

/-! Code that cannot be placed means nothing. -/

/-- An error is no expression. -/
theorem expr_of_error (hkind : p.kind = "ERROR") : p.meaning.expr = .absent := by
  simp [h.meaning, toExpr, hkind]

/-- An error that is marked is no target. -/
theorem target_of_error (hkind : p.kind = "ERROR") (hmarked : p.info.malformed) :
    p.meaning.target = .absent := by
  simp [h.meaning, toTarget, hkind, hmarked]

/-- An error is read as an absent hint. -/
theorem hintReads_of_error (hkind : p.kind = "ERROR") : p.meaning.hintReads = [.absent] := by
  simp [h.meaning, toHintReads, toExpr, hkind]

/-- An error is no statement. -/
theorem stmt_of_error (hkind : p.kind = "ERROR") : p.meaning.stmt = .block [] := by
  simp [h.meaning, toStmt, hkind]

end Composed

namespace MendsBelow

variable (hp : p.MendsBelow)

include hp

omit hp in
/-- The node of a child is a child of the node. -/
theorem mem_node (hc : c ∈ p.children) : c.node ∈ p.node.children :=
  children_node p ▸ List.mem_map_of_mem hc

/-- The broken children of the part are passed over. -/
theorem passes : p.node.PassesBroken := hp.sound _ (Node.self_mem_sound _)

/-! ### The children -/

/-- A child that is not broken has been read, and means the same as the mended child. -/
theorem child (hc : c ∈ p.children) (hkept : ¬c.info.isBroken) : c.MendsBelow ∧ c.SameAsMended := by
  have hsound : c.Sound := fun t ht => hp.sound t
    (Node.sound_subset_of_mem_children (mem_node hc) (by rwa [info_node]) ht)
  exact ⟨⟨hsound, fun d hd => (hp.below c hc).child hd⟩, (hp.below c hc).self.same hsound⟩

/-- A named child that is not broken can be mended and means the same then. -/
theorem named (hc : c ∈ p.named) (hkept : ¬c.info.isBroken) : c.MendsBelow ∧ c.SameAsMended :=
  hp.child (mem_children_of_named hc) hkept

/-- The children of the part are composed. -/
theorem composed (hc : c ∈ p.children) : c.Composed := (hp.below c hc).self.composed

/-- What fills a field is not broken. -/
theorem kept_of_field (hc : c ∈ p.children) (hname : c.info.field ≠ "") : ¬c.info.isBroken := by
  intro hbroken
  have hfield := hp.passes.unfielded c.node (mem_node hc) (by rwa [info_node])
  rw [field_node] at hfield
  exact hname hfield

/-- What is of a kind that is told apart is not broken. -/
theorem kept_of_kind (hc : c ∈ p.children) (hkind : (p.kind, c.kind) ∈ readKinds) :
    ¬c.info.isBroken := by
  intro hbroken
  have hkinds := hp.passes.kinds c.node (mem_node hc) (by rwa [info_node])
  rw [kind_node, kind_node] at hkinds
  exact hkinds hkind

/-- The children in a field are there, mended. -/
theorem fields_mend {name : String} (hname : name ≠ "") :
    p.mend.fields name = (p.fields name).map mend := by
  rw [Part.fields, children_mend, List.filter_map, List.filter_filter, Part.fields]
  simp only [Function.comp_apply, info_mend]
  congr 1
  refine List.filter_congr fun c hc => ?_
  by_cases hfield : c.info.field = name
  · have hkept := hp.kept_of_field hc (hfield ▸ hname)
    simp [hfield, hkept]
  · simp [hfield]

/-- The child in a field is there, mended. -/
theorem field?_mend {name : String} (hname : name ≠ "") :
    p.mend.field? name = (p.field? name).map mend := by
  have hfields := congrArg List.head? (hp.fields_mend hname)
  rwa [Part.fields, List.head?_filter, List.head?_map, Part.fields, List.head?_filter] at hfields

/-- The child in a field can be mended and means the same then. -/
theorem field {name : String} (hname : name ≠ "") (hc : p.field? name = some c) :
    c.MendsBelow ∧ c.SameAsMended := by
  have hfield : c.info.field = name := by simpa using List.find?_some hc
  have hmem := mem_children_of_field? hc
  exact hp.child hmem (hp.kept_of_field hmem (hfield ▸ hname))

/-- What is read from a field is related to what is read from it in the mended part. -/
theorem rel_field {name : String} (hname : name ≠ "") {β : Type} {R : β → β → Prop} {f : Part → β}
    {d : β} (hd : R d d) (hf : ∀ c, p.field? name = some c → R (f c) (f c.mend)) :
    R (((p.field? name).map f).getD d) (((p.mend.field? name).map f).getD d) := by
  rw [hp.field?_mend hname]
  cases hc : p.field? name with
  | none => exact hd
  | some c => exact hf c hc

/-- The expression in a field is the same. -/
theorem exprField {name : String} (hname : name ≠ "") :
    (p.exprField name).Same (p.mend.exprField name) :=
  hp.rel_field hname (Expr.Same.refl _) fun _ hc => (hp.field hname hc).2.expr

/-- Where every named child is read, the broken ones are code that cannot be placed. -/
theorem isError (hkind : p.kind ∈ allReadKinds) (hc : c ∈ p.named) (hbroken : c.info.isBroken) :
    c.kind = "ERROR" :=
  kind_of_keepsMissing (hp.passes.all (by rwa [kind_node])) hc hbroken

/-- Where every named child is read, an expression that is broken is as good as absent. -/
theorem sifted_exprs (hkind : p.kind ∈ allReadKinds) {l : List Part} (hl : l ⊆ p.named) :
    Sifted (· = Expr.absent) Expr.Same (l.map fun c => c.meaning.expr)
      (((l.filter fun c => !c.info.isBroken).map mend).map fun c => c.meaning.expr) := by
  refine sifted_mend (fun c hc hbroken => ?_) fun c hc hkept => (hp.named (hl hc) hkept).2.expr
  exact (hp.composed (mem_children_of_named (hl hc))).expr_of_error
    (hp.isError hkind (hl hc) hbroken)

/-- The expressions of the part are read alike. -/
theorem parts (hkind : p.kind ∈ allReadKinds) : SameReads p.parts p.mend.parts :=
  by
    rw [Part.parts, Part.parts, named_mend]
    exact .of_sifted (hp.sifted_exprs hkind (List.Subset.refl _))

/-- Where the first named child means more than the others, it is not broken. -/
theorem head_kept (hkind : p.kind ∈ headReadKinds) : ∀ c ∈ p.named.head?, ¬c.info.isBroken := by
  intro c hc
  have hmem : c.node ∈ (p.named.map node).head?.toList := by
    rw [List.head?_map, Option.mem_def.1 hc]
    exact List.mem_cons_self
  have hkept := hp.passes.head (by rwa [kind_node]) c.node (by rwa [listed_node])
  rwa [info_node] at hkept

/-- The first named child is there, mended. -/
theorem head?_named (hkind : p.kind ∈ headReadKinds) :
    p.mend.named.head? = p.named.head?.map mend := head?_named_mend (hp.head_kept hkind)

/-- The first named child can be mended and means the same then. -/
theorem head (hkind : p.kind ∈ headReadKinds) (hc : p.named.head? = some c) :
    c.MendsBelow ∧ c.SameAsMended :=
  hp.named (List.mem_of_mem_head? hc) (hp.head_kept hkind c hc)

/-- What is read from the first named child is related to what is read from the mended one. -/
theorem rel_head (hkind : p.kind ∈ headReadKinds) {β : Type} {R : β → β → Prop} {f : Part → β}
    {d : β} (hd : R d d) (hf : ∀ c, p.named.head? = some c → R (f c) (f c.mend)) :
    R ((p.named.head?.map f).getD d) ((p.mend.named.head?.map f).getD d) := by
  rw [hp.head?_named hkind]
  cases hc : p.named.head? with
  | none => exact hd
  | some c => exact hf c hc

/-- What is read from the first named child as it is from the mended one. -/
theorem bind_head? (hkind : p.kind ∈ headReadKinds) {β : Type} {f : Part → Option β}
    (hf : ∀ c : Part, c.SameAsMended → f c.mend = f c) :
    p.mend.named.head?.bind f = p.named.head?.bind f := by
  rw [hp.head?_named hkind]
  cases hc : p.named.head? with
  | none => rfl
  | some c => exact hf c (hp.head hkind hc).2

/-! ### Expressions -/

/-- The type of a literal is the same. -/
theorem literalType?_mend : p.mend.literalType? = p.literalType? := by
  simp only [Part.literalType?, kind_mend, text_mend]
  split
  case h_7 => exact hp.bind_head? (by rw [‹p.kind = _›]; decide) fun c hc => hc.literalType
  all_goals rfl

/-- The outcome of a literal is the same. -/
theorem literalOutcome_mend : p.mend.literalOutcome = p.literalOutcome := by
  rw [Part.literalOutcome, hp.literalType?_mend, Part.literalOutcome]

/-- The interpolations of a string are the same, but for those that are absent. -/
theorem sifted_interpolations (hkind : p.kind = "string" ∨ p.kind = "concatenated_string") :
    Sifted (· = .absent) Expr.Same p.interpolations p.mend.interpolations := by
  rw [Part.interpolations, Part.interpolations, named_mend]
  refine sifted_flatMap (fun c hc hbroken => ?_) fun c hc hkept => ?_
  -- A child of one of the kinds that are read is not broken, so a broken one gives nothing.
  · have hne (kind : String) (hread : (p.kind, kind) ∈ readKinds) : c.kind ≠ kind := by
      rintro rfl
      exact hp.kept_of_kind (mem_children_of_named hc) hread hbroken
    have hstring := hne "string" (by rcases hkind with hkind | hkind <;> rw [hkind] <;> decide)
    have hinterpolation := hne "interpolation"
      (by rcases hkind with hkind | hkind <;> rw [hkind] <;> decide)
    split
    · contradiction
    · contradiction
    · exact .nil
  · obtain ⟨hbelow, hsame⟩ := hp.named hc hkept
    rw [kind_mend]
    split
    · next hstring => exact hsame.interpolations hstring
    · exact .cons (hbelow.exprField (by decide)) .nil
    · exact .nil

/-- The arguments of a call are read alike. -/
theorem callArguments_same : SameReads p.callArguments p.mend.callArguments := by
  simp only [Part.callArguments]
  rw [hp.field?_mend (by decide)]
  cases ha : p.field? "arguments" with
  | none => exact .refl []
  | some a =>
    obtain ⟨hbelow, hsame⟩ := hp.field (by decide) ha
    simp only [Option.map_some, kind_mend]
    split
    · next hkind => exact hbelow.parts (by rw [hkind]; decide)
    · exact .singleton hsame.expr

/-- The first part, which is not broken, may decide on the type of the whole. -/
theorem compound_parts_same (hplace : p.kind ∈ allReadKinds) (hhead : p.kind ∈ headReadKinds)
    (outcome : Outcome) :
    (Expr.compound p.parts outcome).Same (.compound p.mend.parts outcome) := by
  rw [Part.parts, Part.parts, named_mend]
  cases hn : p.named with
  | nil => exact .refl _
  | cons c rest =>
    have hmem : c ∈ p.named := by rw [hn]; exact List.mem_cons_self
    have hkept : ¬c.info.isBroken := hp.head_kept hhead c (by rw [hn]; rfl)
    rw [List.filter_cons_of_pos (by simpa using hkept)]
    refine .compound_cons (hp.named hmem hkept).2.expr ?_ outcome
    exact .of_sifted (hp.sifted_exprs hplace (by rw [hn]; exact List.subset_cons_self c rest))

/-- The first expression of the part is the same. -/
theorem head_same (hkind : p.kind ∈ headReadKinds) :
    (p.parts.head?.getD .absent).Same (p.mend.parts.head?.getD .absent) := by
  rw [Part.parts, List.head?_map, Part.parts, List.head?_map]
  exact hp.rel_head hkind (Expr.Same.refl _) fun c hc => (hp.head hkind hc).2.expr

/-- The expression of the part is the same. -/
theorem toExpr_same : p.toExpr.Same p.mend.toExpr := by
  have hfield {name : String} (hname : name ≠ "") :
      SameReads [p.exprField name] [p.mend.exprField name] := .singleton (hp.exprField hname)
  simp only [Part.toExpr, kind_mend, word_mend, location_mend]
  split
  -- Attributes, calls and named expressions are read by their fields.
  case h_2 =>
    rw [hp.field?_mend (by decide)]
    cases p.field? "attribute" with
    | none => exact .compound (hfield (by decide)) Outcome.noConfusion
    | some a =>
      rw [Option.map_some]
      dsimp only
      rw [word_mend]
      exact .member (hp.exprField (by decide)) a.word
  case h_3 =>
    rw [hp.field?_mend (by decide)]
    cases hf : p.field? "function" with
    | none => exact .refl _
    | some f =>
      rw [Option.map_some]
      dsimp only
      rw [text_mend]
      exact .call (hp.field (by decide) hf).2.expr _ hp.callArguments_same
  case h_20 =>
    rw [hp.field?_mend (by decide)]
    cases p.field? "name" with
    | none => exact .compound_cons (hp.exprField (by decide)) (.refl []) _
    | some name =>
      rw [Option.map_some]
      dsimp only
      rw [word_mend]
      exact .walrus (hp.exprField (by decide)) name.word
  case h_4 | h_5 =>
    rw [hp.literalOutcome_mend]
    refine .compound (.of_sifted (hp.sifted_interpolations (by simp [‹p.kind = _›]))) ?_
    rw [Part.literalOutcome]
    split <;> exact Outcome.noConfusion
  case h_6 | h_7 | h_8 | h_9 | h_10 =>
    rw [hp.literalOutcome_mend]
    exact .refl _
  case h_11 | h_12 =>
    exact .compound_cons (hp.exprField (by decide)) (hfield (by decide)) _
  case h_13 => exact .compound_cons (hp.exprField (by decide)) (.refl []) _
  -- Of parentheses and what is awaited the first child is read.
  case h_17 | h_18 => exact hp.head_same (by rw [‹p.kind = _›]; decide)
  case h_19 =>
    have hkind : p.kind ∈ headReadKinds := by rw [‹p.kind = _›]; decide
    rw [List.take_one, List.take_one, Part.parts, List.head?_map, Part.parts, List.head?_map,
      hp.head?_named hkind]
    cases hc : p.named.head? with
    | none => exact .refl _
    | some c => exact .compound_cons (hp.head hkind hc).2.expr (.refl []) _
  case h_16 =>
    have hkind := ‹p.kind = _›
    exact hp.compound_parts_same (by rw [hkind]; decide) (by rw [hkind]; decide) _
  -- Where all the parts are read, those that are not there make no difference.
  case h_15 | h_21 | h_22 | h_23 | h_24 | h_25 | h_26 | h_27 | h_28 | h_29 | h_30 | h_31 =>
    exact .compound (hp.parts (by rw [‹p.kind = _›]; decide)) Outcome.noConfusion
  case h_14 | h_32 => exact .compound (hfield (by decide)) Outcome.noConfusion
  all_goals exact .refl _

/-! ### Targets -/

/-- A member as a target is the same, assigned or augmented. -/
theorem attributeTarget_same :
    p.attributeTarget.Same p.mend.attributeTarget ∧
      p.attributeTarget.SameAugmented p.mend.attributeTarget := by
  -- The field for the member is read by its word, which mending leaves.
  simp only [Part.attributeTarget]
  rw [hp.field?_mend (by decide), hp.field?_mend (by decide)]
  cases ho : p.field? "object" with
  | none => exact ⟨.refl _, .refl _⟩
  | some o =>
    cases p.field? "attribute" with
    | none => exact ⟨.refl _, .refl _⟩
    | some a =>
      have hobject := (hp.field (by decide) ho).2.expr
      simp only [Option.map_some, word_mend]
      exact ⟨.member hobject a.word, .member hobject a.word⟩

/-- The target of the part is the same. -/
theorem toTarget_same : p.toTarget.Same p.mend.toTarget := by
  simp only [Part.toTarget, kind_mend, info_mend, word_mend, location_mend]
  split
  case h_2 => exact hp.attributeTarget_same.1
  case h_3 => exact .element hp.toExpr_same
  case h_4 =>
    have hkind : p.kind ∈ headReadKinds := by rw [‹p.kind = _›]; decide
    exact hp.rel_head hkind (Target.Same.refl _) fun c hc => (hp.head hkind hc).2.target
  -- The members of a pattern that are broken are errors and marked, so they are absent targets.
  case h_5 | h_6 | h_7 | h_8 | h_9 | h_10 =>
    have hkind : p.kind ∈ allReadKinds := by rw [‹p.kind = _›]; decide
    rw [named_mend]
    refine .pattern (sifted_mend (fun c hc hbroken => ?_) fun c hc hkept =>
      (hp.named hc hkept).2.target)
    have hmem := mem_children_of_named hc
    have hmarked := hp.passes.marked c.node (mem_node hmem) (by rwa [info_node])
    rw [info_node] at hmarked
    exact (hp.composed hmem).target_of_error (hp.isError hkind hc hbroken) hmarked
  all_goals exact .refl _

/-- The target of an augmented assignment is the same. -/
theorem toAugmented_same : p.toAugmented.SameAugmented p.mend.toAugmented := by
  simp only [Part.toAugmented, kind_mend, word_mend, location_mend]
  split
  case h_2 => exact hp.attributeTarget_same.2
  case h_3 => exact .element hp.toExpr_same
  all_goals exact .refl _

/-! ### Annotations -/

/-- The children of a kind that is told apart are kept. -/
theorem filter_named_mend {kind : String} (hread : (p.kind, kind) ∈ readKinds) :
    (p.mend.named.filter fun c => c.kind = kind) =
      (p.named.filter fun c => c.kind = kind).map mend := by
  rw [named_mend, List.filter_map, List.filter_filter]
  simp only [Function.comp_apply, kind_mend]
  congr 1
  refine List.filter_congr fun c hc => ?_
  by_cases hkind : c.kind = kind
  · have hkept := hp.kept_of_kind (mem_children_of_named hc) (hkind ▸ hread)
    simp [hkind, hkept]
  · simp [hkind]

/-- A child of a kind that is read can be mended. -/
theorem of_mem_filter {kind : String} (hread : (p.kind, kind) ∈ readKinds)
    (hc : c ∈ p.named.filter fun c => c.kind = kind) : c.MendsBelow ∧ c.kind = kind := by
  obtain ⟨hc, hkind⟩ := List.mem_filter.1 hc
  have hkind : c.kind = kind := of_decide_eq_true hkind
  exact ⟨(hp.named hc (hp.kept_of_kind (mem_children_of_named hc) (hkind ▸ hread))).1, hkind⟩

/-- Where the named children are counted, they are kept. -/
theorem keepsNamed (hkind : p.kind ∈ countedKinds) : p.KeepsNamed NodeInfo.isBroken :=
  keepsNamed_iff.2 (hp.passes.counted (by rwa [kind_node]))

/-- The content of a string is the same. -/
theorem stringContent_mend (hkind : p.kind = "string") :
    p.mend.stringContent = p.stringContent := by
  rw [Part.stringContent, hp.filter_named_mend (by rw [hkind]; decide), List.map_map,
    Part.stringContent]
  simp [Function.comp_def]

omit hp in
/-- The type of a union is the same. -/
theorem unionForm_mend {ps : List Part} (h : ∀ c ∈ ps, c.SameAsMended) :
    unionForm (ps.map mend) = unionForm ps := by
  -- What is `None` still is, so the same members count.
  have hmembers : (ps.map mend).filter (fun m => !m.meaning.isNone) =
      (ps.filter fun m => !m.meaning.isNone).map mend := by
    rw [List.filter_map]
    congr 1
    exact List.filter_congr fun c hc => by simp [(h c hc).isNone]
  rw [unionForm, hmembers, unionForm, List.length_map]
  cases hm : ps.filter fun m => !m.meaning.isNone with
  | nil => rfl
  | cons single rest =>
    cases rest with
    | nil =>
      have hsingle : single ∈ ps.filter fun m => !m.meaning.isNone := by
        rw [hm]
        exact List.mem_cons_self
      have hform := (h single (List.mem_filter.1 hsingle).1).typeForm
      simp only [List.map_cons, List.map_nil, optionalForm, hform]
    | cons => rfl

omit hp in
/-- The type of a generic is the same. -/
theorem genericForm_mend (head : String) {ps : List Part} (h : ∀ c ∈ ps, c.SameAsMended) :
    genericForm head (ps.map mend) = genericForm head ps := by
  simp only [genericForm]
  generalize String.ofList _ = last
  -- Only `Optional` and `Union` look at their arguments.
  by_cases hoptional : last = "Optional"
  · subst hoptional
    rcases ps with _ | ⟨inner, _ | ⟨_, _⟩⟩
    · rfl
    · simp [optionalForm, (h inner List.mem_cons_self).typeForm]
    · rfl
  · by_cases hunion : last = "Union"
    · subst hunion
      simpa using unionForm_mend h
    · simp [hoptional]

/-- The arguments of a generic type. -/
theorem typeArguments_mend (hkind : p.kind = "generic_type") :
    ∃ ps : List Part, (∀ c ∈ ps, c.SameAsMended) ∧
      ((p.named.find? fun c => c.kind = "type_parameter").map Part.named).getD [] = ps ∧
      ((p.mend.named.find? fun c => c.kind = "type_parameter").map Part.named).getD [] =
        ps.map mend := by
  have hread : (p.kind, "type_parameter") ∈ readKinds := by rw [hkind]; decide
  rw [← List.head?_filter, ← List.head?_filter, hp.filter_named_mend hread, List.head?_map]
  cases hc : (p.named.filter fun c => c.kind = "type_parameter").head? with
  | none => exact ⟨[], List.forall_mem_nil _, rfl, rfl⟩
  | some c =>
    obtain ⟨hbelow, hck⟩ := hp.of_mem_filter hread (List.mem_of_mem_head? hc)
    have hkeeps := hbelow.keepsNamed (by rw [hck]; decide)
    exact ⟨c.named, fun d hd => (hbelow.named hd (hkeeps d hd)).2, rfl, hkeeps.named_mend⟩

/-- The type of the part as a hint is the same. -/
theorem toTypeForm_mend : p.mend.toTypeForm = p.toTypeForm := by
  simp only [Part.toTypeForm, kind_mend, text_mend]
  split
  case h_1 | h_2 => exact hp.bind_head? (by rw [‹p.kind = _›]; decide) fun c hc => hc.typeForm
  case h_7 hkind => rw [hp.stringContent_mend hkind]
  -- The arguments of a type are subscripts, or children of a node of their own.
  case h_9 =>
    have hsubscripts : ∀ c ∈ p.fields "subscript", c.SameAsMended := by
      intro c hc
      obtain ⟨hc, hfield⟩ := List.mem_filter.1 hc
      have hfield : c.info.field = "subscript" := of_decide_eq_true hfield
      exact (hp.child hc (hp.kept_of_field hc (by rw [hfield]; decide))).2
    rw [hp.field?_mend (by decide), hp.fields_mend (by decide), Option.map_map]
    simp [Function.comp_def, genericForm_mend _ hsubscripts]
  case h_10 =>
    have hkind := ‹p.kind = _›
    obtain ⟨ps, hps, harguments, hmended⟩ := hp.typeArguments_mend hkind
    rw [hp.head?_named (by rw [hkind]; decide), harguments, hmended, Option.map_map]
    simp [Function.comp_def, genericForm_mend _ hps]
  -- A union of two types is an operator with two sides.
  case h_11 =>
    rw [hp.field?_mend (by decide), hp.field?_mend (by decide), hp.field?_mend (by decide)]
    cases p.field? "operator" with
    | none => rfl
    | some operator =>
      cases hleft : p.field? "left" with
      | none => rfl
      | some left =>
        cases hright : p.field? "right" with
        | none => rfl
        | some right =>
          have hsides : ∀ c ∈ [left, right], c.SameAsMended := by
            simpa using ⟨(hp.field (by decide) hleft).2, (hp.field (by decide) hright).2⟩
          have hunion : unionForm [left.mend, right.mend] = unionForm [left, right] :=
            unionForm_mend hsides
          simp [hunion]
  case h_12 =>
    have hkeeps := hp.keepsNamed (by rw [‹p.kind = _›]; decide)
    rw [hkeeps.named_mend, unionForm_mend fun c hc => (hp.named hc (hkeeps c hc)).2]
  all_goals rfl

/-- What is read of the part as a hint is the same, but for what is absent. -/
theorem toHintReads_same : Sifted (· = .absent) Expr.Same p.toHintReads p.mend.toHintReads := by
  simp only [Part.toHintReads, kind_mend]
  split
  case h_1 => exact .nil
  case h_2 | h_3 | h_4 | h_5 =>
    have hkind : p.kind ∈ allReadKinds := by rw [‹p.kind = _›]; decide
    rw [named_mend]
    refine sifted_flatMap (fun c hc hbroken => ?_) fun c hc hkept => (hp.named hc hkept).2.hintReads
    rw [(hp.composed (mem_children_of_named hc)).hintReads_of_error (hp.isError hkind hc hbroken)]
    exact .skip rfl .nil
  case h_6 => exact .cons hp.toExpr_same .nil

/-- The part is `None` exactly if it is when mended. -/
theorem toIsNone_mend : p.mend.toIsNone = p.toIsNone := by
  simp only [Part.toIsNone, kind_mend]
  split
  case h_1 | h_2 =>
    have hkind : p.kind ∈ headReadKinds := by rw [‹p.kind = _›]; decide
    rw [hp.head?_named hkind]
    cases hc : p.named.head? with
    | none => rfl
    | some c => exact (hp.head hkind hc).2.isNone
  case h_3 => rfl

omit hp in
/-- A part that means the same is the same hint. -/
theorem hint?_same (h : p.SameAsMended) : SameHint p.hint? p.mend.hint? := by
  rw [Part.hint?, Part.hint?, h.typeForm, info_mend, text_mend, location_mend]
  split
  · exact .form _ (.of_sifted h.hintReads)
  · exact .refl _

/-- The hint in a field is the same. -/
theorem hintField?_same {name : String} (hname : name ≠ "") :
    SameHint (p.hintField? name) (p.mend.hintField? name) := by
  rw [Part.hintField?, Part.hintField?, hp.field?_mend hname]
  cases hc : p.field? name with
  | none => exact .refl _
  | some c => exact hint?_same (hp.field hname hc).2

/-! ### Assignments -/

omit hp in
/-- Mending keeps what is starred. -/
@[simp] theorem isStarred_mend (p : Part) : p.mend.isStarred = p.isStarred := by
  rw [isStarred, kind_mend, isStarred]

/-- The values of a sequence are the same, if none of them is broken. -/
theorem toSequence_same (h : p.node.keepsSequence) :
    Option.Rel SameValues
      p.toSequence p.mend.toSequence := by
  rw [Node.keepsSequence_eq, listed_node, kind_node] at h
  simp only [Part.toSequence, kind_mend]
  split
  -- Parentheses hold the sequence as their first child.
  case h_1 hk | h_2 hk =>
    have hkind : p.kind ∈ headReadKinds := by rw [hk]; decide
    rw [hp.head?_named hkind]
    cases hc : p.named.head? with
    | none => exact .none
    | some c =>
      refine (hp.head hkind hc).2.sequence ?_
      simpa [hk, hc] using h
  case h_3 hk | h_4 hk | h_5 hk =>
    have hkeeps : p.KeepsNamed NodeInfo.isBroken := by simpa [hk, KeepsNamed] using h
    rw [hkeeps.named_mend, List.map_map]
    refine .some (List.forall₂_map_left_iff.2 (List.forall₂_map_right_iff.2
      (List.forall₂_same.2 fun c hc => ⟨isStarred_mend c, (hp.named hc (hkeeps c hc)).2.expr⟩)))
  case h_6 => exact .none

omit hp in
/-- Targets and values that belong together. -/
theorem unpackPairs?_same {left right : Part} (hleft : left.MendsBelow)
    (hkeeps : left.kind ∈ patternKinds → left.KeepsNamed NodeInfo.isBroken)
    (hvalues : left.kind ∈ patternKinds →
      Option.Rel SameValues
        right.meaning.sequence right.mend.meaning.sequence) :
    Option.Rel SamePairs
      (Part.unpackPairs? left right) (Part.unpackPairs? left.mend right.mend) := by
  simp only [Part.unpackPairs?, kind_mend]
  -- Only a pattern is unpacked, and then none of its members is broken.
  split
  · next hkind =>
    have hkind : left.kind ∈ patternKinds := by simpa [patternKinds, or_assoc] using hkind
    have hkeeps := hkeeps hkind
    have hvalues := hvalues hkind
    rw [hkeeps.named_mend]
    generalize right.meaning.sequence = values, right.mend.meaning.sequence = values' at hvalues
    cases hvalues with
    | none => exact .none
    | some hvalues =>
      have hstarred : isStarred ∘ mend = isStarred := funext isStarred_mend
      have htargets : List.Forall₂ Target.Same (left.named.map fun c => c.meaning.target)
          ((left.named.map mend).map fun c => c.meaning.target) := by
        rw [List.map_map]
        exact List.forall₂_map_left_iff.2 (List.forall₂_map_right_iff.2
          (List.forall₂_same.2 fun c hc => (hleft.named hc (hkeeps c hc)).2.target))
      simp only [List.length_map, List.any_map, hstarred, hvalues.length_eq, hvalues.any_fst]
      split
      · exact .some (hvalues.zip htargets)
      · exact .none
  · exact .none

/-- The assignment of the part is the same. -/
theorem toAssignment_same (hkind : p.kind = "assignment") :
    p.toAssignment.Same p.mend.toAssignment := by
  have hhint := hp.hintField?_same (show "type" ≠ "" by decide)
  have htarget := hp.rel_field (show "left" ≠ "" by decide) (Target.Same.refl .absent)
    fun c hc => (hp.field (by decide) hc).2.target
  -- Values are counted where several targets are on the left.
  have hpairs : Option.Rel SamePairs
      ((p.field? "left").bind fun left => (p.field? "right").bind (Part.unpackPairs? left))
      ((p.mend.field? "left").bind fun left =>
        (p.mend.field? "right").bind (Part.unpackPairs? left)) := by
    rw [hp.field?_mend (by decide), hp.field?_mend (by decide)]
    cases hl : p.field? "left" with
    | none => exact .none
    | some left =>
      cases hr : p.field? "right" with
      | none => exact .none
      | some right =>
        have hleft := mem_node (mem_children_of_field? hl)
        have hright := mem_node (mem_children_of_field? hr)
        have hlname : left.node.field = "left" := by simpa using List.find?_some hl
        have hrname : right.node.field = "right" := by simpa using List.find?_some hr
        have hpairs := hp.passes.pairs (by rwa [kind_node]) left.node hleft hlname
        rw [kind_node] at hpairs
        exact unpackPairs?_same (hp.field (by decide) hl).1 (fun h => keepsNamed_iff.2 (hpairs h).1)
          fun h => (hp.field (by decide) hr).2.sequence ((hpairs h).2 right.node hright hrname)
  simp only [Part.toAssignment]
  generalize ((p.field? "left").bind fun left => (p.field? "right").bind (Part.unpackPairs? left))
    = pairs, ((p.mend.field? "left").bind fun left =>
        (p.mend.field? "right").bind (Part.unpackPairs? left)) = pairs' at hpairs
  cases hpairs with
  | some hpairs => exact .unpack hhint hpairs
  | none =>
    rw [hp.field?_mend (show "right" ≠ "" by decide)]
    cases hr : p.field? "right" with
    | none => exact .plain hhint htarget (.refl _)
    | some right =>
      have hright := (hp.field (by decide) hr).2
      simp only [Option.map_some, kind_mend]
      split
      · next hchained => exact .chained hhint htarget (hright.assignment hchained)
      · exact .plain hhint htarget hright.expr

end MendsBelow

end Part

end Python

end NameAtlas
