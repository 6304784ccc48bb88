import NameAtlas.Proofs.Walk.Operations

/-!
# Classes of operations

Most operations carry nothing that was read from a source: they move values about and end what others
began. A class of operations contains all of these (`OpClass`), so whether the operations of a piece of
syntax are in a class is decided by those that carry a word, a binding or a report
(`OpClass.HasAll`). The lemmas say it of each kind of syntax, in terms of its parts.
-/

namespace NameAtlas.Python

/-- True for an operation that carries nothing from a source. -/
@[reducible] def Op.isBare : Op → Bool
  | .call _ | .instantiate | .discard | .hint _ | .noHint | .discardHint | .annotate | .leaveFunction
  | .base | .setBases | .declareGlobal _ | .declareNonlocal _ | .noteReturn | .beginBody
  | .endBody => true
  | _ => false

/-- True for a type that names no symbol. -/
def Outcome.Faithful : Outcome → Prop
  | .fixed type => type.fqn? = none
  | _ => True

/-- A class of operations with all that carry nothing from a source but types that name no symbol. -/
structure OpClass where
  /-- True for the operations of the class. -/
  Has : Op → Prop
  /-- Operations that carry nothing are of the class. -/
  bare : ∀ op, op.isBare → Has op
  /-- So are types that name no symbol, -/
  constant : ∀ type, type.fqn? = none → Has (.constant type)
  /-- also as the outcomes of compound expressions. -/
  combine : ∀ outcome, outcome.Faithful → Has (.combine outcome)
  /-- Whether a method takes a receiver makes no difference. -/
  markStatic : ∀ header body, Has (.enterFunction ⟨header, body⟩) →
    Has (.enterFunction ⟨{ header with isStatic := true }, body⟩)

namespace OpClass

variable {C : OpClass}

/-- True if some operations are all of a class. -/
def HasAll (C : OpClass) (ops : List Op) : Prop := ∀ op ∈ ops, C.Has op

/-- A class has the operations that carry nothing. -/
@[simp] theorem has_of_isBare {op : Op} (h : op.isBare) : C.Has op := C.bare op h

/-- A class has the constant of the unknown type. -/
@[simp] theorem has_constant_unknown : C.Has (.constant .unknown) := C.constant _ rfl

/-- A class has the constant of the type of `None`. -/
@[simp] theorem has_constant_noneType : C.Has (.constant .noneType) := C.constant _ rfl

/-- A class has the combination to something unknown. -/
@[simp] theorem has_combine_unknown : C.Has (.combine .unknown) := C.combine _ trivial

/-- A class has the combination to the first of some values. -/
@[simp] theorem has_combine_ofFirst : C.Has (.combine .ofFirst) := C.combine _ trivial

/-! ### Operations of syntax -/

/-- A class has all of no operations. -/
@[simp] theorem hasAll_nil : C.HasAll [] := nofun

/-- A class has all of a list if it has the first and the rest. -/
@[simp] theorem hasAll_cons {op : Op} {ops : List Op} :
    C.HasAll (op :: ops) ↔ C.Has op ∧ C.HasAll ops :=
  List.forall_mem_cons

/-- A class has all of two lists if it has all of each. -/
@[simp] theorem hasAll_append {ops ops' : List Op} :
    C.HasAll (ops ++ ops') ↔ C.HasAll ops ∧ C.HasAll ops' :=
  List.forall_mem_append

/-- A class has all that some things are mapped to if it has each. -/
@[simp] theorem hasAll_map {α : Type} {l : List α} {f : α → Op} :
    C.HasAll (l.map f) ↔ ∀ x ∈ l, C.Has (f x) :=
  List.forall_mem_map

/-- A class has all operations of some things if it has those of each. -/
@[simp] theorem hasAll_flatMap {α : Type} {l : List α} {f : α → List Op} :
    C.HasAll (l.flatMap f) ↔ ∀ x ∈ l, C.HasAll (f x) := by
  simp only [HasAll, List.mem_flatMap, forall_exists_index, and_imp]
  exact ⟨fun h x hx op hop => h op x hx hop, fun h op x hx hop => h x hx op hop⟩

/-- A class has all operations of expressions that are evaluated if it has those of each. -/
@[simp] theorem hasAll_partsOps {es : List Expr} :
    C.HasAll (partsOps es) ↔ ∀ e ∈ es, C.HasAll e.ops := by
  induction es with
  | nil => simp [partsOps]
  | cons e rest ih => simp [partsOps, ih]

/-- A class has all operations of a compound expression if it has those of its parts and the
outcome. -/
@[simp] theorem hasAll_compound {es : List Expr} {outcome : Outcome} :
    C.HasAll (Expr.compound es outcome).ops ↔
      (∀ e ∈ es, C.HasAll e.ops) ∧ C.Has (.combine outcome) := by
  simp [Expr.ops]

/-- A class has all operations of an absent expression. -/
@[simp] theorem hasAll_absent : C.HasAll Expr.absent.ops := by
  simp [Expr.absent]

/-- Reading an expression adds an operation that every class has. -/
@[simp] theorem hasAll_readOps {e : Expr} : C.HasAll e.readOps ↔ C.HasAll e.ops := by
  simp [Expr.readOps]

/-- A class has all operations of targets if it has those of each. -/
@[simp] theorem hasAll_assignEachOps {ts : List Target} :
    C.HasAll (assignEachOps ts) ↔ ∀ t ∈ ts, C.HasAll t.assignOps := by
  induction ts with
  | nil => simp [assignEachOps]
  | cons t rest ih => simp [assignEachOps, ih]

/-- A class has all operations of an absent target. -/
@[simp] theorem hasAll_absentTarget : C.HasAll Target.absent.assignOps := by
  simp [Target.absent, Target.assignOps]

/-- A class has all operations of pairs if it has those of the values and the targets. -/
@[simp] theorem hasAll_pairsOps {pairs : List (Target × Expr)} :
    C.HasAll (pairsOps pairs) ↔
      ∀ pair ∈ pairs, C.HasAll pair.2.ops ∧ C.HasAll pair.1.assignOps := by
  induction pairs with
  | nil => simp [pairsOps]
  | cons pair rest ih => simp [pairsOps, ih, and_assoc]

/-- A class has all operations of an absent hint. -/
@[simp] theorem hasAll_noHint : C.HasAll (hintOps none) := by
  simp [hintOps]

/-- A class has all operations of a block if it has those of its statements. -/
@[simp] theorem hasAll_operationsOf {body : List Stmt} :
    C.HasAll (operationsOf body) ↔ ∀ st ∈ body, C.HasAll st.operations := by
  rw [operationsOf_eq_flatMap, hasAll_flatMap]

end OpClass

end NameAtlas.Python
