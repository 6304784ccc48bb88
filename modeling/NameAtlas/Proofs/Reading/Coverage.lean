import NameAtlas.Proofs.Reading.Grammar
import NameAtlas.Proofs.Reading.Parts
import NameAtlas.Proofs.Walk.Operations

/-!
# Operations that cover identifiers

Some operations cover some identifiers if they log for each of them the reference that it is due, or
report that something is not modeled (`Covers`). To cover the identifiers of a node it is enough to
cover those of each of its children (`covers_children`); in a tree of the grammar a child without a
slot holds none, and a slot that is filled once is where the reading of the node looks for it
(`Node.Regular.covers_slots`).
-/

namespace NameAtlas

namespace Python

open Source

/-- True for an operation that logs a reference of a kind at a place. -/
def Op.Refers (kind : ReferenceKind) (location : Location) : Op → Prop
  | .readName word => kind = .simpleId ∧ word.location = location
  | .readMember word | .assignMember word | .keepMember word =>
    kind = .attr ∧ word.location = location
  | _ => False

/-- True for an operation that logs a finding. -/
def Op.isReport : Op → Bool
  | .report _ _ _ => true
  | _ => false

/-- True if some operations log a finding, or for each of some identifiers the reference it is
due. -/
def Covers (source : SourceText) (ops : List Op) (ids : List (Role × NodeInfo)) : Prop :=
  (∃ op ∈ ops, op.isReport) ∨ ∀ x ∈ ids, ∀ kind, x.1.reference? = some kind →
    ∃ op ∈ ops, op.Refers kind (source.location x.2.start x.2.stop)

variable {source : SourceText} {ops ops' : List Op} {ids : List (Role × NodeInfo)}

/-- Nothing is covered by anything. -/
theorem covers_nil : Covers source ops [] := .inr nofun

/-- Only operations that log something count. -/
theorem Covers.mono_of_logs (h : Covers source ops ids)
    (hsub : ∀ op ∈ ops, (op.isReport ∨ ∃ kind location, op.Refers kind location) → op ∈ ops') :
    Covers source ops' ids := by
  refine h.imp (fun ⟨op, hop, hreport⟩ => ⟨op, hsub op hop (.inl hreport), hreport⟩)
    fun h x hx kind hkind => ?_
  obtain ⟨op, hop, hrefers⟩ := h x hx kind hkind
  exact ⟨op, hsub op hop (.inr ⟨_, _, hrefers⟩), hrefers⟩

/-- More operations cover what fewer do. -/
theorem Covers.mono (h : Covers source ops ids) (hsub : ops ⊆ ops') : Covers source ops' ids :=
  h.mono_of_logs fun _ hop _ => hsub hop

/-- A report covers everything. -/
theorem covers_of_report {code : DiagnosticCode} {message : String} {location : Location}
    (h : .report code message location ∈ ops) : Covers source ops ids := .inl ⟨_, h, rfl⟩

/-- A list is covered if what each member gives is. -/
theorem covers_flatMap {α : Type} {l : List α} {f : α → List (Role × NodeInfo)}
    (h : ∀ a ∈ l, Covers source ops (f a)) : Covers source ops (l.flatMap f) := by
  by_cases hreport : ∃ op ∈ ops, op.isReport
  · exact .inl hreport
  · refine .inr fun x hx => ?_
    obtain ⟨a, ha, hx⟩ := List.mem_flatMap.1 hx
    exact ((h a ha).resolve_left hreport) x hx

/-- A single identifier that is due no reference. -/
theorem covers_bound {r : Role} {info : NodeInfo} (h : r.reference? = none) :
    Covers source ops [(r, info)] := by
  refine .inr fun x hx kind hkind => ?_
  obtain rfl := List.mem_singleton.1 hx
  rw [h] at hkind
  cases hkind

/-- A single identifier with the operation that logs its reference. -/
theorem covers_singleton {r : Role} {info : NodeInfo} {kind : ReferenceKind} {op : Op}
    (hr : r.reference? = some kind) (hop : op ∈ ops)
    (hrefers : op.Refers kind (source.location info.start info.stop)) :
    Covers source ops [(r, info)] := by
  refine .inr fun x hx kind' hkind => ?_
  obtain rfl := List.mem_singleton.1 hx
  obtain rfl := Option.some.inj (hr.symm.trans hkind)
  exact ⟨op, hop, hrefers⟩

/-! ### Operations of the parts -/

/-- Each of some expressions adds its operations. -/
theorem ops_subset_partsOps {e : Expr} {es : List Expr} (h : e ∈ es) : e.ops ⊆ partsOps es := by
  induction es with
  | nil => cases h
  | cons e' rest ih =>
    rw [partsOps]
    rcases List.mem_cons.1 h with rfl | h
    · exact fun op hop => by simp [hop]
    · exact fun op hop => by simp [ih h hop]

/-- Each part of a compound expression adds its operations. -/
theorem ops_subset_compound {e : Expr} {es : List Expr} {outcome : Outcome} (h : e ∈ es) :
    e.ops ⊆ (Expr.compound es outcome).ops := by
  rw [Expr.ops]
  exact fun op hop => List.mem_append_left _ (ops_subset_partsOps h hop)

/-- Reading an expression for its names adds its operations. -/
theorem ops_subset_readOps (e : Expr) : e.ops ⊆ e.readOps := List.subset_append_left _ _

/-- Each of some targets adds its operations. -/
theorem assignOps_subset_assignEachOps {t : Target} {ts : List Target} (h : t ∈ ts) :
    t.assignOps ⊆ assignEachOps ts := by
  induction ts with
  | nil => cases h
  | cons t' rest ih =>
    rw [assignEachOps]
    rcases List.mem_cons.1 h with rfl | h
    · exact List.subset_append_left _ _
    · exact fun op hop => List.mem_append_right _ (ih h hop)

/-- Each statement of some code adds its operations. -/
theorem operations_subset_operationsOf {st : Stmt} {body : List Stmt} (h : st ∈ body) :
    st.operations ⊆ operationsOf body := by
  rw [operationsOf_eq_flatMap]
  exact fun op hop => List.mem_flatMap.2 ⟨st, h, hop⟩

/-! ### The parts of a node -/

namespace Part

variable (source) (n : Node)

/-- The part of a node has this node. -/
@[simp] theorem info_ofNode : (ofNode source n).info = n.info := by
  cases n
  rfl

/-- The part of a node has its kind. -/
@[simp] theorem kind_ofNode : (ofNode source n).kind = n.kind := by
  rw [Part.kind, info_ofNode]
  rfl

/-- The word of a part stands where the node stands. -/
@[simp] theorem location_ofNode :
    (ofNode source n).word.location = source.location n.info.start n.info.stop := by
  cases n
  rfl

/-- The word of a part is the text of the node. -/
@[simp] theorem text_ofNode :
    (ofNode source n).word.text = source.slice n.info.start n.info.stop := by
  cases n
  rfl

/-- The parts of some nodes are those of each. -/
theorem ofNodes_eq_map (ns : List Node) : ofNodes source ns = ns.map (ofNode source) := by
  induction ns with
  | nil => rfl
  | cons n rest ih => rw [ofNodes, ih, List.map_cons]

/-- The children of the part are the parts of the children. -/
theorem children_ofNode : (ofNode source n).children = n.children.map (ofNode source) := by
  cases n
  exact ofNodes_eq_map source _

/-- The named children of the part are the parts of the listed ones. -/
theorem named_ofNode :
    (ofNode source n).named = (n.children.filter Node.isListed).map (ofNode source) := by
  rw [named, children_ofNode, List.filter_map]
  congr 2
  funext c
  simp [Function.comp, Node.isListed]

/-- The child in a field is the part of the node in this field. -/
theorem field?_ofNode (name : String) :
    (ofNode source n).field? name =
      (n.children.find? fun c => c.field = name).map (ofNode source) := by
  rw [field?, children_ofNode, List.find?_map]
  congr 2
  funext c
  exact congrArg (fun f => decide (f = name)) (congrArg NodeInfo.field (info_ofNode source c))

/-- The first named child is the part of the first listed one. -/
theorem head?_named_ofNode :
    (ofNode source n).named.head? = (n.children.filter Node.isListed).head?.map (ofNode source) := by
  rw [named_ofNode, List.head?_map]

/-- The children in a field are the parts of the nodes in this field. -/
theorem fields_ofNode (name : String) :
    (ofNode source n).fields name =
      (n.children.filter fun c => c.field = name).map (ofNode source) := by
  rw [fields, children_ofNode, List.filter_map]
  congr 2
  funext c
  exact congrArg (fun f => decide (f = name)) (congrArg NodeInfo.field (info_ofNode source c))

/-! The meanings of a node are those that its children give it. -/

/-- The part of a node means the expression that its children make. -/
theorem expr_ofNode : (ofNode source n).meaning.expr = (ofNode source n).toExpr := by
  cases n
  rfl

/-- The part of a node means the target that its children make. -/
theorem target_ofNode : (ofNode source n).meaning.target = (ofNode source n).toTarget := by
  cases n
  rfl

/-- The part of a node means the augmented target that its children make. -/
theorem augmented_ofNode :
    (ofNode source n).meaning.augmented = (ofNode source n).toAugmented := by
  cases n
  rfl

/-- The part of a node means the interpolations that its children make. -/
theorem interpolations_ofNode :
    (ofNode source n).meaning.interpolations = (ofNode source n).interpolations := by
  cases n
  rfl

/-- The part of a node means the literal type that its children make. -/
theorem literalType_ofNode :
    (ofNode source n).meaning.literalType = (ofNode source n).literalType? := by
  cases n
  rfl

/-- The part of a node means the hint that its children make. -/
theorem typeForm_ofNode : (ofNode source n).meaning.typeForm = (ofNode source n).toTypeForm := by
  cases n
  rfl

/-- The part of a node means the reads of a hint that its children make. -/
theorem hintReads_ofNode :
    (ofNode source n).meaning.hintReads = (ofNode source n).toHintReads := by
  cases n
  rfl

/-- The part of a node means the sequence that its children make. -/
theorem sequence_ofNode : (ofNode source n).meaning.sequence = (ofNode source n).toSequence := by
  cases n
  rfl

/-- The part of a node means the assignment that its children make. -/
theorem assignment_ofNode :
    (ofNode source n).meaning.assignment = (ofNode source n).toAssignment := by
  cases n
  rfl

/-- The part of a node means the statement that its children make. -/
theorem stmt_ofNode : (ofNode source n).meaning.stmt = (ofNode source n).toStmt := by
  cases n
  rfl

variable {source n}

/-! ### The children of a node -/

/-- A listed child is a named one. -/
theorem mem_named {c : Node} (hc : c ∈ n.children) (hlisted : c.isListed) :
    ofNode source c ∈ (ofNode source n).named := by
  rw [named_ofNode]
  exact List.mem_map_of_mem (List.mem_filter.2 ⟨hc, hlisted⟩)

/-- The part of the first node in a field is found there. -/
theorem field?_of_find? {c : Node} {name : String}
    (h : n.children.find? (fun c => c.field = name) = some c) :
    (ofNode source n).field? name = some (ofNode source c) := by
  rw [field?_ofNode, h, Option.map_some]

/-- The expression of the first node in a field is found there. -/
theorem exprField_of_find? {c : Node} {name : String}
    (h : n.children.find? (fun c => c.field = name) = some c) :
    (ofNode source n).exprField name = (ofNode source c).meaning.expr := by
  rw [exprField, field?_of_find? h]
  rfl

/-- The code of the first node in a field is found there. -/
theorem bodyField_of_find? {c : Node} {name : String}
    (h : n.children.find? (fun c => c.field = name) = some c) :
    (ofNode source n).bodyField name = (ofNode source c).body := by
  rw [bodyField, field?_of_find? h]
  rfl

/-- A child in a field is among those of the field. -/
theorem mem_fields {c : Node} {name : String} (hc : c ∈ n.children) (hfield : c.field = name) :
    ofNode source c ∈ (ofNode source n).fields name := by
  rw [fields_ofNode]
  exact List.mem_map_of_mem (List.mem_filter.2 ⟨hc, decide_eq_true hfield⟩)

/-- The expression of a listed child is among those of the part. -/
theorem expr_mem_parts {c : Node} (hc : c ∈ n.children) (hlisted : c.isListed) :
    (ofNode source c).meaning.expr ∈ (ofNode source n).parts :=
  List.mem_map_of_mem (mem_named hc hlisted)

end Part

end Python

namespace Source.Node

open Python

variable {source : SourceText} {ops : List Op} {n : Node}

/-- To cover the identifiers of a node it is enough to cover those of its children. -/
theorem covers_children {r : Role} (hkind : n.kind ≠ "identifier")
    (h : ∀ c ∈ n.children, Covers source ops (c.identifiers (r.child n.kind c.field c.kind))) :
    Covers source ops (n.identifiers r) := by
  rw [identifiers_of_ne hkind]
  exact covers_flatMap h

/-- A node without identifiers is covered by anything. -/
theorem covers_of_isNameless {r : Role} (h : n.isNameless) :
    Covers source ops (n.identifiers r) := by
  rw [identifiers_of_isNameless r n h]
  exact covers_nil

/-- A node all of whose identifiers are bound is covered by anything. -/
theorem covers_of_bound {r : Role} (hr : ∀ kind field childKind, r.child kind field childKind = r)
    (hbound : r.reference? = none) : Covers source ops (n.identifiers r) := by
  refine .inr fun x hx kind hkind => ?_
  rw [role_of_mem_identifiers hr n x hx, hbound] at hkind
  cases hkind

/-- A list of one member has no two. -/
theorem eq_of_mem_of_length_le_one {α : Type} {l : List α} {a b : α} (h : l.length ≤ 1)
    (ha : a ∈ l) (hb : b ∈ l) : a = b := by
  match l, h with
  | [x], _ => rw [List.mem_singleton.1 ha, List.mem_singleton.1 hb]

/-- A node of the grammar without marks of broken syntax. -/
structure Regular (n : Node) : Prop where
  /-- It has the shape that its kind demands. -/
  shaped : n.wellShaped
  /-- It is neither an error nor missing. -/
  whole : ¬n.info.isBroken
  /-- It is not marked as one above a broken node. -/
  unmarked : ¬n.info.malformed

namespace Regular

/-- A child of a regular node is listed or holds no names. -/
theorem isListed_or_isNameless (h : n.Regular) {c : Node} (hc : c ∈ n.children) :
    c.isListed ∨ c.isNameless := by
  have hshaped := h.shaped
  simp only [wellShaped, Bool.and_eq_true, List.all_eq_true, Bool.or_eq_true] at hshaped
  exact hshaped.1.1.1 c hc

/-- A regular node has a child in each field that its kind requires. -/
theorem required (h : n.Regular) (field : String) (hfield : field ∈ requiredFields n.kind) :
    ∃ c, n.children.find? (fun c => c.field = field) = some c := by
  have hshaped := h.shaped
  simp only [wellShaped, Bool.and_eq_true, List.all_eq_true] at hshaped
  rw [← Option.isSome_iff_exists, List.find?_isSome, ← List.any_eq_true]
  exact hshaped.1.2 field hfield

/-- The first child that is neither punctuation nor a comment is the first that the grammar speaks
of, or a line continuation. -/
theorem head?_listed {l : List Node} {c : Node} (h : (l.filter isSubstantial).head? = some c) :
    ∃ d ∈ l, (l.filter isListed).head? = some d ∧ (d = c ∨ d.kind = "line_continuation") := by
  -- Line continuations are the only listed nodes that are not substantial.
  have hsplit : l.filter isSubstantial =
      (l.filter isListed).filter fun d => d.kind ≠ "line_continuation" := by
    rw [List.filter_filter]
    exact List.filter_congr fun d _ => Bool.and_comm _ _
  rw [hsplit] at h
  cases hl : l.filter isListed with
  | nil => simp [hl] at h
  | cons d rest =>
    have hd : d ∈ l := (List.mem_filter.1 (hl ▸ List.mem_cons_self)).1
    refine ⟨d, hd, rfl, or_iff_not_imp_right.2 fun hline => ?_⟩
    simpa [hl, hline] using h

/-- What is listed is substantial unless it continues a line. -/
theorem isSubstantial_of_isListed {c : Node} (h : c.isListed) (hline : c.kind ≠ "line_continuation") :
    c.isSubstantial := by simp [isSubstantial, h, hline]

/-- The children of a regular node are well ordered. -/
theorem wellOrdered (h : n.Regular) : n.wellOrdered := by
  have hshaped := h.shaped
  simp only [wellShaped, Bool.and_eq_true] at hshaped
  exact hshaped.1.1.2

/-- Around one node, that one is the first child that is listed, unless a line continuation stands in
front of it. -/
theorem head?_of_wrapper (h : n.Regular) (hwrapper : n.kind ∈ wrapperKinds) {c : Node}
    (hc : c ∈ n.children) (hlisted : c.isListed) (hline : c.kind ≠ "line_continuation") :
    ∃ d ∈ n.children, (n.children.filter isListed).head? = some d ∧
      (d = c ∨ d.kind = "line_continuation") := by
  have hone := wellOrdered_of_wrapper h.wellOrdered hwrapper
  have hmem : c ∈ n.children.filter isSubstantial :=
    List.mem_filter.2 ⟨hc, isSubstantial_of_isListed hlisted hline⟩
  obtain ⟨d, rest, hl⟩ := List.exists_cons_of_ne_nil (List.ne_nil_of_mem hmem)
  have hd : d = c := eq_of_mem_of_length_le_one hone (hl ▸ List.mem_cons_self) hmem
  exact head?_listed (by rw [hl, hd, List.head?_cons])

/-- In an `as` pattern the child without the field of the target is the first one that is listed,
unless a line continuation stands in front of it. -/
theorem head?_of_asPattern (h : n.Regular) (hkind : n.kind = "as_pattern") {c : Node}
    (hc : c ∈ n.children) (hlisted : c.isListed) (hline : c.kind ≠ "line_continuation")
    (hfield : c.field ≠ "alias") :
    ∃ d ∈ n.children, (n.children.filter isListed).head? = some d ∧
      (d = c ∨ d.kind = "line_continuation") := by
  obtain ⟨hlength, halternate⟩ := wellOrdered_of_asPattern h.wellOrdered hkind
  have hmem : c ∈ n.children.filter isSubstantial :=
    List.mem_filter.2 ⟨hc, isSubstantial_of_isListed hlisted hline⟩
  refine head?_listed ?_
  -- There are two nodes at most, and of two the second is the target.
  match hl : n.children.filter isSubstantial with
  | [] =>
    rw [hl] at hmem
    cases hmem
  | [a] =>
    rw [hl] at hmem
    rw [List.mem_singleton.1 hmem, List.head?_cons]
  | [a, b] =>
    simp only [hl, List.mem_cons, List.not_mem_nil, or_false] at hmem
    rcases hmem with rfl | rfl
    · rfl
    · simp [hl, alternate, hfield] at halternate
  | a :: b :: d :: rest => simp [hl] at hlength

/-- The parts of an `except` clause without line continuations come in the order of the grammar. -/
theorem except_ordered (h : n.Regular)
    (hkind : n.kind = "except_clause" ∨ n.kind = "except_group_clause")
    (hline : ∀ c ∈ n.children.filter isListed, c.kind ≠ "line_continuation") :
    alternate false ((n.children.filter isListed).filter fun c => !c.isExceptPart) ∧
      ∀ c ∈ n.children.filter isListed, c.isExceptPart → c.field ≠ "alias" := by
  have hlisted : n.children.filter isSubstantial = n.children.filter isListed := by
    refine List.filter_congr fun c hc => Bool.eq_iff_iff.2 ⟨fun h => (Bool.and_eq_true_iff.1 h).1, ?_⟩
    exact fun h => isSubstantial_of_isListed h (hline c (List.mem_filter.2 ⟨hc, h⟩))
  exact hlisted ▸ wellOrdered_of_except h.wellOrdered hkind

/-- A field that is filled once at most is filled by the first child that fills it. -/
theorem find?_field {l : List Node} {c : Node} (hc : c ∈ l)
    (hone : (l.filter fun d => d.field = c.field).length ≤ 1) :
    l.find? (fun d => d.field = c.field) = some c := by
  have hmem : c ∈ l.filter fun d => d.field = c.field := List.mem_filter.2 ⟨hc, by simp⟩
  cases hfind : l.find? fun d => d.field = c.field with
  | none => exact absurd (List.find?_eq_none.1 hfind c hc) (by simp)
  | some d =>
    have hd : d ∈ l.filter fun d => d.field = c.field :=
      List.mem_filter.2 ⟨List.mem_of_find?_eq_some hfind, by simpa using List.find?_some hfind⟩
    rw [eq_of_mem_of_length_le_one hone hd hmem]

/-- To cover the identifiers of a node with a shape it is enough to cover those of the children in
its slots. A slot that is filled once is filled by the child that is found by its field. -/
theorem covers_slots (h : n.Regular) {r : Role} {s : Shape} (hs : shapeOf n.kind = some s)
    (hkind : n.kind ≠ "identifier")
    (honce : ∀ slot ∈ s.once, ∀ c ∈ n.children, slot.accepts c →
      n.children.find? (fun d => d.field = slot.field) = some c →
      Covers source ops (c.identifiers (r.child n.kind slot.field c.kind)))
    (hmany : ∀ slot ∈ s.many, ∀ c ∈ n.children, slot.accepts c → c.isListed →
      Covers source ops (c.identifiers (r.child n.kind slot.field c.kind)))
    (hkinds : ∀ kind ∈ s.kinds, ∀ c ∈ n.children, c.kind = kind → c.isListed →
      Covers source ops (c.identifiers (r.child n.kind c.field kind))) :
    Covers source ops (n.identifiers r) := by
  have hfits := wellShaped_fits h.shaped hs
  simp only [Shape.fits, Bool.and_eq_true, List.all_eq_true, decide_eq_true_eq] at hfits
  obtain ⟨hadmits, hsingle⟩ := hfits
  refine covers_children hkind fun c hc => ?_
  rcases h.isListed_or_isNameless hc with hlisted | hnameless
  -- The child stands in a slot, or is of a kind that stands in none.
  · have hadmit := hadmits c hc
    simp only [Shape.admits, Bool.or_eq_true, List.any_eq_true, List.contains_iff_mem] at hadmit
    rcases hadmit with ((hnameless | hmem) | ⟨slot, hslot, haccepts⟩) | ⟨slot, hslot, haccepts⟩
    · exact covers_of_isNameless hnameless
    · exact hkinds c.kind hmem c hc rfl hlisted
    · have hfind := find?_field hc (by rw [Slot.field_of_accepts haccepts]; exact hsingle slot hslot)
      rw [Slot.field_of_accepts haccepts] at hfind ⊢
      exact honce slot hslot c hc haccepts hfind
    · rw [Slot.field_of_accepts haccepts]
      exact hmany slot hslot c hc haccepts hlisted
  · exact covers_of_isNameless hnameless

/-- A node whose kind allows no identifiers below it. -/
theorem covers_leaf (h : n.Regular) {r : Role} (hs : shapeOf n.kind = some {})
    (hkind : n.kind ≠ "identifier") : Covers source ops (n.identifiers r) :=
  h.covers_slots hs hkind nofun nofun nofun

end Regular

end Source.Node

end NameAtlas
