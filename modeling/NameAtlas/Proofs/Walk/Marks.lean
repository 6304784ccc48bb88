import Mathlib.Algebra.Order.BigOperators.Group.List
import Mathlib.Data.Multiset.OrderedMonoid
import NameAtlas.Proofs.Walk.Operations

/-!
# The marks of a program

What an analysis says of places in the code: a reference stands there, a symbol was declared there,
or something there is not modeled (`Mark`). The marks of a piece of syntax are those of the
operations that it stands for, each as often as the operations make it, and the order is left out:
reading a tree takes the parts of a node in an order of its own.
-/

namespace NameAtlas.Python

/-- What an analysis may say of a place. -/
inductive MarkKind where
  /-- A reference stands there. -/
  | reference
  /-- A symbol is declared there. -/
  | symbol
  /-- What stands there is not modeled. -/
  | report
  deriving DecidableEq, Repr, Inhabited

/-- What an analysis says of a place. -/
structure Mark where
  /-- What is said. -/
  kind : MarkKind
  /-- The place. -/
  location : Location
  deriving DecidableEq, Repr, Inhabited

/-- The marks that an operation may make. -/
def Op.marks : Op → Multiset Mark
  | .report _ _ location => {⟨.report, location⟩}
  | .readName word | .readMember word => {⟨.reference, word.location⟩}
  | .assignMember word | .keepMember word => {⟨.reference, word.location⟩, ⟨.symbol, word.location⟩}
  | .bindName word | .parameter word => {⟨.symbol, word.location⟩}
  | .enterFunction f => {⟨.symbol, f.header.word.location⟩}
  | .enterClass h => {⟨.symbol, h.word.location⟩}
  | _ => 0

/-- The marks of some operations. -/
def marksOf (ops : List Op) : Multiset Mark := (ops.map Op.marks).sum

/-- No operations have no marks. -/
@[simp] theorem marksOf_nil : marksOf [] = 0 := rfl

/-- One more operation adds its marks. -/
@[simp] theorem marksOf_cons (op : Op) (ops : List Op) :
    marksOf (op :: ops) = op.marks + marksOf ops := by
  simp [marksOf]

/-- Two lists of operations have the marks of both. -/
@[simp] theorem marksOf_append (ops ops' : List Op) :
    marksOf (ops ++ ops') = marksOf ops + marksOf ops' := by
  simp [marksOf]

/-- The operations of some things have the marks of each. -/
@[simp] theorem marksOf_flatMap {α : Type} (l : List α) (f : α → List Op) :
    marksOf (l.flatMap f) = (l.map fun a => marksOf (f a)).sum := by
  induction l with
  | nil => rfl
  | cons a rest ih => simp [ih]

/-- An operation has no more marks than a list that holds it. -/
theorem marks_le_marksOf {op : Op} {ops : List Op} (h : op ∈ ops) : op.marks ≤ marksOf ops :=
  List.le_sum_of_mem (List.mem_map_of_mem h)

/-- What makes no marks. -/
theorem marksOf_eq_zero {ops : List Op} (h : ∀ op ∈ ops, op.marks = 0) : marksOf ops = 0 := by
  induction ops with
  | nil => rfl
  | cons op rest ih =>
    rw [marksOf_cons, h op List.mem_cons_self, ih fun op' h' => h op' (List.mem_cons_of_mem _ h'),
      zero_add]

/-! ### Expressions -/

/-- The marks of an expression that is evaluated. -/
def Expr.marks (e : Expr) : Multiset Mark := marksOf e.ops

/-- Expressions that are evaluated have the marks of each. -/
@[simp] theorem marksOf_partsOps (es : List Expr) :
    marksOf (partsOps es) = (es.map Expr.marks).sum := by
  induction es with
  | nil => rfl
  | cons e rest ih => simp [partsOps, ih, Expr.marks, Op.marks]

/-- Reading an expression adds nothing to its marks. -/
@[simp] theorem marksOf_readOps (e : Expr) : marksOf e.readOps = e.marks := by
  simp [Expr.readOps, Expr.marks, Op.marks]

namespace Expr

/-- A name makes a reference. -/
@[simp] theorem marks_name (word : Word) : (name word).marks = {⟨.reference, word.location⟩} := rfl

/-- A member makes a reference behind those of the object. -/
@[simp] theorem marks_attribute (object : Expr) (member : Word) :
    («attribute» object member).marks = object.marks + {⟨.reference, member.location⟩} := by
  simp [marks, ops, Op.marks]

/-- A call has the marks of the callee and of the arguments. -/
@[simp] theorem marks_call (callee : Expr) (written : String) (arguments : List Expr) :
    (call callee written arguments).marks = callee.marks + (arguments.map marks).sum := by
  simp [marks, ops, Op.marks]

/-- A compound expression has the marks of its parts. -/
@[simp] theorem marks_compound (parts : List Expr) (outcome : Outcome) :
    (compound parts outcome).marks = (parts.map marks).sum := by
  rw [marks, ops, marksOf_append, marksOf_partsOps]
  simp [Op.marks]

/-- An assignment expression makes a symbol behind the marks of its value. -/
@[simp] theorem marks_walrus (value : Expr) (word : Word) :
    (walrus value word).marks = value.marks + {⟨.symbol, word.location⟩} := by
  simp [marks, ops, Op.marks]

/-- An expression that is not modeled is reported. -/
@[simp] theorem marks_unsupported (kind : String) (location : Location) :
    (unsupported kind location).marks = {⟨.report, location⟩} := rfl

/-- An absent expression has no marks. -/
@[simp] theorem marks_absent : absent.marks = 0 := rfl

end Expr

/-- The marks of an annotation. -/
def hintMarks (hint : Option TypeHint) : Multiset Mark := marksOf (hintOps hint)

/-- An absent hint has no marks. -/
@[simp] theorem hintMarks_none : hintMarks none = 0 := rfl

/-- A hint has the marks of what it reads. -/
@[simp] theorem hintMarks_form (form : TypeForm) (reads : List Expr) :
    hintMarks (some (.form form reads)) = (reads.map Expr.marks).sum := by
  simp [hintMarks, hintOps, Op.marks]

/-- A hint that is not modeled is reported. -/
@[simp] theorem hintMarks_unsupported (snippet : String) (location : Location) :
    hintMarks (some (.unsupported snippet location)) = {⟨.report, location⟩} := rfl

/-! ### Assignments -/

namespace Target

/-- The marks of a target that is assigned to. -/
def marks (t : Target) : Multiset Mark := marksOf t.assignOps

/-- The marks of a target that is combined with a value. -/
def augmentMarks (t : Target) : Multiset Mark := marksOf t.augmentOps

/-- Targets that are assigned to one by one have the marks of each. -/
theorem marksOf_assignEachOps (ts : List Target) :
    marksOf (assignEachOps ts) = (ts.map marks).sum := by
  induction ts with
  | nil => rfl
  | cons t rest ih => simp [assignEachOps, ih, marks]

/-- A name that is assigned to makes a symbol. -/
@[simp] theorem marks_name (word : Word) : (name word).marks = {⟨.symbol, word.location⟩} := rfl

/-- A member that is assigned to makes a reference and a symbol. -/
@[simp] theorem marks_attribute (object : Expr) (member : Word) :
    («attribute» object member).marks =
      object.marks + {⟨.reference, member.location⟩, ⟨.symbol, member.location⟩} := by
  simp [marks, assignOps, Op.marks, Expr.marks]

/-- An element that is assigned to is only read. -/
@[simp] theorem marks_element (read : Expr) : (element read).marks = read.marks := by
  rw [marks, assignOps, marksOf_readOps]

/-- A pattern has the marks of its targets. -/
@[simp] theorem marks_pattern (ts : List Target) : (pattern ts).marks = (ts.map marks).sum := by
  simp [marks, assignOps, Op.marks, marksOf_assignEachOps]

/-- A target that is not modeled is reported. -/
@[simp] theorem marks_unsupported (kind : String) (location : Location) :
    (unsupported kind location).marks = {⟨.report, location⟩} := rfl

/-- An absent target has no marks. -/
@[simp] theorem marks_absent : absent.marks = 0 := rfl

/-- A name that is combined with a value makes a reference and a symbol. -/
@[simp] theorem augmentMarks_name (word : Word) :
    (name word).augmentMarks = {⟨.reference, word.location⟩, ⟨.symbol, word.location⟩} := rfl

/-- A member that is combined with a value makes a reference and a symbol. -/
@[simp] theorem augmentMarks_attribute (object : Expr) (member : Word) :
    («attribute» object member).augmentMarks =
      object.marks + {⟨.reference, member.location⟩, ⟨.symbol, member.location⟩} := by
  simp [augmentMarks, augmentOps, Op.marks, Expr.marks]

/-- An element that is combined with a value is only read. -/
@[simp] theorem augmentMarks_element (read : Expr) :
    (element read).augmentMarks = read.marks := by
  rw [augmentMarks, augmentOps, marksOf_readOps]

/-- The target of an operator that is not modeled is reported. -/
@[simp] theorem augmentMarks_unsupported (kind : String) (location : Location) :
    (unsupported kind location).augmentMarks = {⟨.report, location⟩} := rfl

/-- An absent target of an operator has no marks. -/
@[simp] theorem augmentMarks_absent : absent.augmentMarks = 0 := rfl

end Target

/-- Pairs have the marks of their values and targets. -/
@[simp] theorem marksOf_pairsOps (pairs : List (Target × Expr)) :
    marksOf (pairsOps pairs) = (pairs.map fun p => p.2.marks + p.1.marks).sum := by
  induction pairs with
  | nil => rfl
  | cons pair rest ih => simp [pairsOps, ih, Expr.marks, Target.marks, Op.marks, add_assoc]

namespace Assignment

/-- The marks of an assignment. -/
def marks (a : Assignment) : Multiset Mark := marksOf a.ops

/-- An assignment has the marks of its hint, its value and its target. -/
@[simp] theorem marks_plain (hint : Option TypeHint) (target : Target) (value : Expr) :
    (plain hint target value).marks = hintMarks hint + value.marks + target.marks := by
  simp [marks, ops, Op.marks, hintMarks, Expr.marks, Target.marks, add_assoc]

/-- An unpacking has the marks of its hint and its pairs. -/
@[simp] theorem marks_unpack (hint : Option TypeHint) (pairs : List (Target × Expr)) :
    (unpack hint pairs).marks =
      hintMarks hint + (pairs.map fun p => p.2.marks + p.1.marks).sum := by
  simp [marks, ops, Op.marks, hintMarks]

/-- A chain of assignments has the marks of the hint, the inner assignment and the target. -/
@[simp] theorem marks_chained (hint : Option TypeHint) (target : Target) (value : Assignment) :
    (chained hint target value).marks = hintMarks hint + value.marks + target.marks := by
  simp [marks, ops, Op.marks, hintMarks, Target.marks, add_assoc]

end Assignment

namespace Item

/-- The marks of a part of a simple statement. -/
def marks (item : Item) : Multiset Mark := marksOf item.ops

/-- An item that is read has the marks of the expression. -/
@[simp] theorem marks_read (value : Expr) : (read value).marks = value.marks :=
  marksOf_readOps value

/-- An item that is assigned has the marks of the assignment. -/
@[simp] theorem marks_assign (a : Assignment) : (assign a).marks = a.marks := by
  simp [marks, ops, Op.marks, Assignment.marks]

/-- An item with an operator has the marks of the value and the target. -/
@[simp] theorem marks_augment (target : Target) (value : Expr) :
    (augment target value).marks = value.marks + target.augmentMarks := by
  simp [marks, ops, Target.augmentMarks]

/-- An item that is bound has the marks of the target. -/
@[simp] theorem marks_bind (target : Target) : (bind target).marks = target.marks := by
  simp [marks, ops, Op.marks, Target.marks]

end Item

/-! ### Definitions -/

/-- The marks of something that may be missing. -/
def optionMarks {α : Type} (marks : α → Multiset Mark) : Option α → Multiset Mark
  | some a => marks a
  | none => 0

/-- Something that is there has its marks. -/
@[simp] theorem optionMarks_some {α : Type} (marks : α → Multiset Mark) (a : α) :
    optionMarks marks (some a) = marks a := rfl

/-- Something that is not there has none. -/
@[simp] theorem optionMarks_none {α : Type} (marks : α → Multiset Mark) :
    optionMarks marks none = 0 := rfl

/-- The mark of a report. -/
def reportMarks (location : Location) : Multiset Mark := {⟨.report, location⟩}

namespace Parameter

/-- The marks of a parameter. -/
def marks (p : Parameter) : Multiset Mark := marksOf p.ops

/-- A parameter makes a symbol behind the marks of its hint and its default. -/
@[simp] theorem marks_named (word : Word) (hint : Option TypeHint) (default : Option Expr) :
    (named word hint default).marks =
      hintMarks hint + optionMarks Expr.marks default + {⟨.symbol, word.location⟩} := by
  cases default <;> simp [marks, ops, Op.marks, hintMarks, defaultOps, add_assoc]

/-- A parameter that is not modeled is reported. -/
@[simp] theorem marks_unsupported (shape snippet : String) (location : Location) :
    (unsupported shape snippet location).marks = {⟨.report, location⟩} := rfl

end Parameter

/-- Type parameters are reported. -/
theorem marksOf_typeParameterOps (location : Option Location) :
    marksOf (typeParameterOps location) = optionMarks reportMarks location := by
  cases location <;> rfl

/-- The marks of a function definition outside its body. -/
def FunctionHeader.marks (h : FunctionHeader) : Multiset Mark :=
  optionMarks reportMarks h.typeParameters + hintMarks h.returns + {⟨.symbol, h.word.location⟩} +
    (h.parameters.map Parameter.marks).sum

/-- Defining a function makes the marks of its header. -/
theorem FunctionBody.marksOf_defineOps (f : FunctionBody) : marksOf f.defineOps = f.header.marks := by
  simp only [defineOps, marksOf_append, marksOf_cons, marksOf_nil, marksOf_flatMap, Op.marks,
    marksOf_typeParameterOps, FunctionHeader.marks, zero_add, add_zero]
  rfl

/-- The marks of an argument of a class definition. -/
def ClassArgument.marks : ClassArgument → Multiset Mark
  | .base value | .keyword value => value.marks

/-- An argument of a class has the marks of what is read. -/
theorem ClassArgument.marksOf_ops (a : ClassArgument) : marksOf a.ops = a.marks := by
  cases a with
  | base value => simp [ops, marks, Op.marks, Expr.marks]
  | keyword value => exact marksOf_readOps value

/-- The marks of a class definition outside its body. -/
def ClassHeader.marks (h : ClassHeader) : Multiset Mark :=
  optionMarks reportMarks h.typeParameters + {⟨.symbol, h.word.location⟩} +
    (h.arguments.map ClassArgument.marks).sum

/-- The head of a class makes the marks of the header. -/
theorem ClassHeader.marksOf_ops (h : ClassHeader) : marksOf h.ops = h.marks := by
  simp only [ops, marksOf_append, marksOf_cons, marksOf_nil, marksOf_flatMap, Op.marks,
    marksOf_typeParameterOps, marks, ClassArgument.marksOf_ops, zero_add, add_zero]

/-! ### Statements -/

/-- Catching an exception makes the marks of the name for it. -/
theorem marksOf_caughtOps (target : Option Target) :
    marksOf (caughtOps target) = optionMarks Target.marks target := by
  cases target <;> rfl

namespace Stmt

/-- The marks of a statement, the bodies of the functions in it included. -/
def marks (st : Stmt) : Multiset Mark := marksOf st.operations

/-- A block has the marks of its statements. -/
theorem marksOf_operationsOf (body : List Stmt) :
    marksOf (operationsOf body) = (body.map marks).sum := by
  rw [operationsOf_eq_flatMap, marksOf_flatMap]
  rfl

/-- A simple statement has the marks of its items. -/
@[simp] theorem marks_simple (items : List Item) :
    (simple items).marks = (items.map Item.marks).sum := by
  rw [marks, operations, marksOf_flatMap]
  rfl

/-- A block that is a statement has the marks of its statements. -/
@[simp] theorem marks_block (body : List Stmt) : (block body).marks = (body.map marks).sum := by
  rw [marks, operations, marksOf_operationsOf]

/-- What is caught has the marks of the exception, of what stands between and of the name. -/
@[simp] theorem marks_caught (value : Expr) (between : List Stmt) (target : Option Target) :
    (caught value between target).marks =
      value.marks + (between.map marks).sum + optionMarks Target.marks target := by
  simp only [marks, operations, marksOf_append, marksOf_cons, marksOf_nil, Op.marks,
    marksOf_caughtOps, marksOf_operationsOf, add_zero, Expr.marks]

/-- A function has the marks of its header and its body. -/
@[simp] theorem marks_function (header : FunctionHeader) (body : List Stmt) :
    (function header body).marks = header.marks + (body.map marks).sum := by
  simp only [marks, operations, marksOf_append, marksOf_cons, marksOf_nil, Op.marks,
    FunctionBody.marksOf_defineOps, marksOf_operationsOf, add_zero, zero_add]

/-- A class has the marks of its header and its body. -/
@[simp] theorem marks_class (header : ClassHeader) (body : List Stmt) :
    («class» header body).marks = header.marks + (body.map marks).sum := by
  simp only [marks, operations, marksOf_append, marksOf_cons, marksOf_nil, Op.marks,
    ClassHeader.marksOf_ops, marksOf_operationsOf, add_zero]

/-- Imports make no marks, and a wildcard is reported. -/
@[simp] theorem marks_imports (wildcard : Option Location) (bindings : List ImportBinding) :
    (imports wildcard bindings).marks = optionMarks reportMarks wildcard := by
  have hbindings : marksOf (bindings.map .bindImport) = 0 := by
    refine marksOf_eq_zero fun op hop => ?_
    obtain ⟨b, -, rfl⟩ := List.mem_map.1 hop
    rfl
  rw [marks, operations, marksOf_append, hbindings]
  cases wildcard <;> rfl

/-- A return statement has the marks of its value. -/
@[simp] theorem marks_returns (value : Option Expr) :
    (returns value).marks = optionMarks Expr.marks value := by
  cases value with
  | none => rfl
  | some e => simp [marks, operations, Op.marks, Expr.marks]

/-- A `global` statement has no marks. -/
@[simp] theorem marks_globals (names : List String) : (globals names).marks = 0 := by
  refine marksOf_eq_zero fun op hop => ?_
  obtain ⟨name, -, rfl⟩ := List.mem_map.1 hop
  rfl

/-- A `nonlocal` statement has no marks. -/
@[simp] theorem marks_nonlocals (names : List String) : (nonlocals names).marks = 0 := by
  refine marksOf_eq_zero fun op hop => ?_
  obtain ⟨name, -, rfl⟩ := List.mem_map.1 hop
  rfl

/-- A statement that is not modeled is reported. -/
@[simp] theorem marks_unsupported (kind : String) (location : Location) :
    (unsupported kind location).marks = {⟨.report, location⟩} := rfl

end Stmt

end NameAtlas.Python
