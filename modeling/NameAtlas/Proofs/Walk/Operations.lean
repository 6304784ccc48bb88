import NameAtlas.Proofs.Walk.Passes

/-!
# The operations of a module

What a walk over a module may do at all: the operations of its code and of the bodies of its
functions, wherever they happen and in whatever order (`operationsOf`). The program of a module
performs no others (`Module.op_mem_operationsOf`), so what holds of every operation of the syntax
holds of every action of a walk. If no two definitions of the module have one node it performs each
of them (`Module.mem_map_program_iff`): no body is left out.

All operations besides those of definitions are basic (`Op.isBasic`). Of these the ones that read and
assign are the inner ones (`Op.isInner`); each piece of syntax within a statement has inner operations
only.
-/

namespace NameAtlas.Python

/-- Reads a class definition up to its body. -/
def ClassHeader.ops (h : ClassHeader) : List Op :=
  .place h.node h.word :: typeParameterOps h.typeParameters ++ [.enterClass h] ++
    (h.arguments.flatMap ClassArgument.ops ++ [.setBases])

mutual

/-- What reading a statement does, the bodies of the functions in it included. -/
def Stmt.operations : Stmt → List Op
  | .simple items => items.flatMap Item.ops
  | .block body => operationsOf body
  | .caught value between target =>
    value.ops ++ [.instantiate] ++ operationsOf between ++ (caughtOps target ++ [.discard])
  | .function header body =>
    FunctionBody.defineOps ⟨header, body⟩ ++ (.beginBody :: operationsOf body ++ [.endBody])
  | .class header body => header.ops ++ operationsOf body ++ [.leaveClass header.word]
  | .imports wildcard bindings => wildcardOps wildcard ++ bindings.map .bindImport
  | .returns (some value) => value.ops ++ [.noteReturn]
  | .returns none => [.constant .noneType, .noteReturn]
  | .globals names => names.map .declareGlobal
  | .nonlocals names => names.map .declareNonlocal
  | .unsupported kind location =>
    [.report .unsupportedStatement ("`" ++ kind ++ "` statements are not modeled") location]

/-- What reading some statements does. -/
def operationsOf : List Stmt → List Op
  | [] => []
  | st :: rest => st.operations ++ operationsOf rest

end

/-- The operations of a block are those of its statements. -/
theorem operationsOf_eq_flatMap (body : List Stmt) :
    operationsOf body = body.flatMap Stmt.operations := by
  induction body with
  | nil => rfl
  | cons st rest ih => rw [operationsOf, ih, List.flatMap_cons]

/-- The actions of a site perform the operations that they are made from. -/
@[simp] theorem Site.map_op_actions (s : Site) (ops : List Op) :
    (s.actions ops).map Action.op = ops := by
  simp [Site.actions, Function.comp_def]

/-- The head of a class performs its operations. -/
@[simp] theorem ClassHeader.map_op_code (s : Site) (h : ClassHeader) :
    (h.code s).map Action.op = h.ops := by
  rw [ClassHeader.code, List.map_append, Site.map_op_actions, Site.map_op_actions, ClassHeader.ops]

/-- The code of a function performs that of its body between beginning and end. -/
@[simp] theorem FunctionBody.map_op_code (f : FunctionBody) :
    f.code.map Action.op = .beginBody :: (codeOf f.site f.body).map Action.op ++ [.endBody] := by
  simp [FunctionBody.code]

mutual

/-- What a statement does is done by its code or by that of a function in it. -/
theorem Stmt.mem_operations_iff (op : Op) :
    ∀ (st : Stmt) (s : Site), op ∈ st.operations ↔
      op ∈ (st.code s).map Action.op ∨ ∃ f ∈ st.allFunctions, op ∈ f.code.map Action.op
  -- The statements that hold no others have their operations in their code.
  | .simple _, s | .imports _ _, s | .returns (some _), s | .returns none, s | .globals _, s
  | .nonlocals _, s | .unsupported _ _, s => by
    simp only [Stmt.operations, Stmt.code, Site.map_op_actions, Stmt.allFunctions,
      List.not_mem_nil, false_and, exists_false, or_false]
  | .block body, s => mem_operationsOf_iff op body s
  | .caught value between target, s => by
    simp only [Stmt.operations, Stmt.code, List.map_append, Site.map_op_actions, List.mem_append,
      Stmt.allFunctions, mem_operationsOf_iff op between s]
    exact iff_of_eq (by ac_rfl)
  | .function header body, s => by
    simp only [Stmt.operations, Stmt.code, Site.map_op_actions, Stmt.allFunctions, List.mem_append,
      List.mem_cons, exists_eq_or_imp, FunctionBody.map_op_code,
      mem_operationsOf_iff op body (FunctionBody.site ⟨header, body⟩)]
    exact iff_of_eq (by ac_rfl)
  | .class header body, s => by
    simp only [Stmt.operations, Stmt.code, List.map_append, Site.map_op_actions,
      ClassHeader.map_op_code, List.mem_append, Stmt.allFunctions,
      mem_operationsOf_iff op body (.body header.node)]
    exact iff_of_eq (by ac_rfl)

/-- What some statements do is done by their code or by that of a function in them. -/
theorem mem_operationsOf_iff (op : Op) :
    ∀ (body : List Stmt) (s : Site), op ∈ operationsOf body ↔
      op ∈ (codeOf s body).map Action.op ∨ ∃ f ∈ allFunctionsOf body, op ∈ f.code.map Action.op
  | [], s => by simp [operationsOf, codeOf, allFunctionsOf]
  | st :: rest, s => by
    simp only [operationsOf, codeOf, List.map_append, List.mem_append, allFunctionsOf,
      Stmt.mem_operations_iff op st s, mem_operationsOf_iff op rest s, or_and_right, exists_or]
    exact iff_of_eq (by ac_rfl)

end

/-! ### Basic operations -/

/-- True for the operations that have nothing to do with definitions: they begin and end none, and
neither begin nor end the body of a function. -/
def Op.isBasic : Op → Bool
  | .place .. | .enterFunction _ | .parameter _ | .leaveFunction | .enterClass _ | .base | .setBases
  | .leaveClass _ | .beginBody | .endBody => false
  | _ => true

/-- True for the operations that expressions, annotations and targets are made of. -/
def Op.isInner : Op → Bool
  | .report .. | .constant _ | .readName _ | .readMember _ | .call _ | .combine _ | .instantiate
  | .discard | .hint _ | .noHint | .discardHint | .annotate | .bindName _ | .assignMember _
  | .keepMember _ => true
  | _ => false

/-- Inner operations are basic. -/
theorem Op.isBasic_of_isInner {op : Op} (h : op.isInner) : op.isBasic := by
  cases op <;> first | rfl | cases h

/-- Inner operations are all basic. -/
@[simp] theorem basic_of_inner {ops : List Op} (h : ops.all Op.isInner) : ops.all Op.isBasic :=
  List.all_eq_true.2 fun op hop => Op.isBasic_of_isInner (List.all_eq_true.1 h op hop)

mutual

/-- The operations of an expression are inner ones. -/
@[simp] theorem Expr.inner_ops : ∀ e : Expr, e.ops.all Op.isInner
  | .name _ | .unsupported _ _ => rfl
  | .attribute object _ => by simp [Expr.ops, Op.isInner, object.inner_ops]
  | .call callee _ arguments => by
    simp [Expr.ops, Op.isInner, callee.inner_ops, inner_partsOps arguments]
  | .compound parts _ => by simp [Expr.ops, Op.isInner, inner_partsOps parts]
  | .walrus value _ => by simp [Expr.ops, Op.isInner, value.inner_ops]

/-- The operations of expressions that are evaluated are inner ones. -/
@[simp] theorem inner_partsOps : ∀ es : List Expr, (partsOps es).all Op.isInner
  | [] => rfl
  | e :: rest => by simp [partsOps, Op.isInner, e.inner_ops, inner_partsOps rest]

end

/-- The operations of an expression that is read are inner ones. -/
@[simp] theorem Expr.inner_readOps (e : Expr) : e.readOps.all Op.isInner := by
  simp [Expr.readOps, Op.isInner]

/-- The operations of a hint are inner ones. -/
@[simp] theorem inner_hintOps (hint : Option TypeHint) : (hintOps hint).all Op.isInner := by
  rcases hint with _ | ⟨form, reads⟩ | _ <;> simp [hintOps, Op.isInner]

mutual

/-- The operations of a target are inner ones. -/
@[simp] theorem Target.inner_assignOps : ∀ t : Target, t.assignOps.all Op.isInner
  | .name _ | .unsupported _ _ => rfl
  | .attribute object _ => by simp [Target.assignOps, Op.isInner]
  | .element read => read.inner_readOps
  | .pattern targets => by simp [Target.assignOps, Op.isInner, inner_assignEachOps targets]

/-- The operations of some targets are inner ones. -/
@[simp] theorem inner_assignEachOps : ∀ ts : List Target, (assignEachOps ts).all Op.isInner
  | [] => rfl
  | t :: rest => by simp [assignEachOps, t.inner_assignOps, inner_assignEachOps rest]

end

/-- The operations of a target with an operator are inner ones. -/
@[simp] theorem Target.inner_augmentOps (t : Target) : t.augmentOps.all Op.isInner := by
  cases t <;> simp [Target.augmentOps, Op.isInner, reportTargetOp]

/-- The operations of pairs are inner ones. -/
@[simp] theorem inner_pairsOps (pairs : List (Target × Expr)) : (pairsOps pairs).all Op.isInner := by
  induction pairs with
  | nil => rfl
  | cons pair rest ih => simp [pairsOps, Op.isInner, ih]

/-- The operations of an assignment are inner ones. -/
@[simp] theorem Assignment.inner_ops (a : Assignment) : a.ops.all Op.isInner := by
  induction a with
  | plain hint target value => simp [Assignment.ops, Op.isInner]
  | unpack hint pairs => simp [Assignment.ops, Op.isInner]
  | chained hint target value ih => simp [Assignment.ops, Op.isInner, ih]

/-- The operations of an item are inner ones. -/
@[simp] theorem Item.inner_ops (item : Item) : item.ops.all Op.isInner := by
  cases item <;> simp [Item.ops, Op.isInner]

/-- The operations of a default are inner ones. -/
@[simp] theorem inner_defaultOps (default : Option Expr) :
    (defaultOps default).all Op.isInner := by
  cases default <;> simp [defaultOps]

/-- The operations of type parameters are inner ones. -/
@[simp] theorem inner_typeParameterOps (location : Option Location) :
    (typeParameterOps location).all Op.isInner := by
  cases location <;> rfl

/-- The operations of a name for an exception are inner ones. -/
@[simp] theorem inner_caughtOps (target : Option Target) : (caughtOps target).all Op.isInner := by
  cases target <;> simp [caughtOps]

/-- The operations of a wildcard are inner ones. -/
@[simp] theorem inner_wildcardOps (location : Option Location) :
    (wildcardOps location).all Op.isInner := by
  cases location <;> rfl

/-! ### Properties that follow the syntax -/

namespace Machine

/-- A property of runs that pieces of syntax have if their parts do. -/
structure Compositional (context : ImportContext) (P : List Action → Machine → Prop) : Prop where
  /-- Doing nothing has it. -/
  nil : ∀ M, P [] M
  /-- Runs one after the other keep it. -/
  append : ∀ {A B M}, P A M → P B (run context A M) → P (A ++ B) M
  /-- Basic operations have it. -/
  basic : ∀ s i ops M, M.walk.scopes.Resolves s i → ops.all Op.isBasic → P (s.actions ops) M
  /-- The definition of a function has it. -/
  function : ∀ s i (f : FunctionBody) M, M.walk.scopes.Resolves s i → P (s.actions f.defineOps) M
  /-- A class has it if its body does. -/
  classBody : ∀ s i header body M, M.walk.scopes.Resolves s i →
    P (codeOf (.body header.node) body) (run context (header.code s) M) →
    P ((Stmt.class header body).code s) M
  /-- The body of a function has it if its statements do. -/
  functionBody : ∀ i (f : FunctionBody) M, M.walk.scopes.Resolves f.site i →
    P (codeOf f.site f.body) (run context (f.site.actions [.beginBody]) M) → P f.code M

namespace Compositional

variable {context : ImportContext} {P : List Action → Machine → Prop}
  (hP : Compositional context P)

include hP

mutual

/-- What follows the syntax holds of the code of a statement. -/
theorem code : ∀ (st : Stmt) {s : Site} {i : Nat} (M : Machine), M.walk.scopes.Resolves s i →
    P (st.code s) M
  -- Statements without others are basic, and what holds others goes on in them.
  | .simple _, s, i, M, h => hP.basic s i _ M h (by simp)
  | .imports _ _, s, i, M, h => hP.basic s i _ M h (by simp [Op.isBasic])
  | .returns (some _), s, i, M, h => hP.basic s i _ M h (by simp [Op.isBasic])
  | .returns none, s, i, M, h | .unsupported _ _, s, i, M, h => hP.basic s i _ M h rfl
  | .globals _, s, i, M, h | .nonlocals _, s, i, M, h => hP.basic s i _ M h (by simp [Op.isBasic])
  | .function _ _, s, i, M, h => hP.function s i _ M h
  | .block body, _, _, M, h => codeOf body M h
  | .caught _ between _, s, i, M, h =>
    hP.append (hP.append (hP.basic s i _ M h (by simp [Op.isBasic]))
      (codeOf between _ (h.mono (grows_run context _ M).scopes)))
      (hP.basic s i _ _ (h.mono (grows_run context _ M).scopes) (by simp [Op.isBasic]))
  | .class header body, s, i, M, h =>
    let ⟨_, hinner⟩ := exists_resolves_classHead context header M h
    hP.classBody s i header body M h (codeOf body _ hinner)

/-- What follows the syntax holds of the code of a block. -/
theorem codeOf : ∀ (body : List Stmt) {s : Site} {i : Nat} (M : Machine),
    M.walk.scopes.Resolves s i → P (codeOf s body) M
  | [], _, _, M, _ => hP.nil M
  | st :: rest, _, _, M, h =>
    hP.append (code st M h) (codeOf rest _ (h.mono (grows_run context _ M).scopes))

end

/-- What follows the syntax holds of the code of a function. -/
theorem functionCode {i : Nat} (f : FunctionBody) (M : Machine)
    (h : M.walk.scopes.Resolves f.site i) : P f.code M :=
  hP.functionBody i f M h (hP.codeOf f.body _ (h.mono (grows_run context _ M).scopes))

/-- The bodies that a walk reads behind the module have such a property. -/
theorem bodies (m : Module) (k : Nat) :
    P (m.bodies.flatMap FunctionBody.code)
      (run context (Python.codeOf .module m.body) (.ofWalk (Walk.walks context m k))) :=
  bodies_induction context m k hP.nil hP.append fun f M _ h => hP.functionCode f M h

/-- Every walk over a module has such a property. -/
theorem program (m : Module) (k : Nat) : P m.program (.ofWalk (Walk.walks context m k)) :=
  hP.append (hP.codeOf m.body _ (s := .module) rfl) (hP.bodies m k)

end Compositional

end Machine

namespace Module

variable {m : Module}

mutual

/-- All functions in a statement are in the module if those that it defines are. -/
theorem reaches_of_mem_allFunctions :
    ∀ st : Stmt, (∀ g ∈ st.functions, m.Reaches g) → ∀ f ∈ st.allFunctions, m.Reaches f
  | .function header body, h, f, hf => by
    have hself : m.Reaches ⟨header, body⟩ := h _ (by simp [Stmt.functions])
    rcases List.mem_cons.1 hf with rfl | hf
    · exact hself
    · exact reaches_of_mem_allFunctionsOf body (fun g hg => .within hself hg) f hf
  | .block body, h, f, hf | .caught _ body _, h, f, hf | .class _ body, h, f, hf =>
    reaches_of_mem_allFunctionsOf body h f hf
  | .simple _, _, f, hf | .imports _ _, _, f, hf | .returns _, _, f, hf | .globals _, _, f, hf
  | .nonlocals _, _, f, hf | .unsupported _ _, _, f, hf => nomatch hf

/-- If the functions that some statements define where they stand are in a module, so are those
inside them. -/
theorem reaches_of_mem_allFunctionsOf :
    ∀ body : List Stmt, (∀ g ∈ functionsOf body, m.Reaches g) →
      ∀ f ∈ allFunctionsOf body, m.Reaches f
  | [], _, f, hf => nomatch hf
  | st :: rest, h, f, hf => by
    rcases List.mem_append.1 hf with hf | hf
    · exact reaches_of_mem_allFunctions st (fun g hg => h g (List.mem_append_left _ hg)) f hf
    · exact reaches_of_mem_allFunctionsOf rest (fun g hg => h g (List.mem_append_right _ hg)) f hf

end

/-- The operations of a program are those of the code of the module and of the bodies. -/
theorem mem_map_program (op : Op) :
    op ∈ m.program.map Action.op ↔
      op ∈ (codeOf .module m.body).map Action.op ∨ ∃ f ∈ m.bodies, op ∈ f.code.map Action.op := by
  simp only [program, code, List.map_append, List.mem_append, List.map_flatMap, List.mem_flatMap]

/-- A walk over a module does nothing besides what is in its statements. -/
theorem op_mem_operationsOf {a : Action} (h : a ∈ m.program) : a.op ∈ operationsOf m.body := by
  rw [mem_operationsOf_iff a.op m.body .module]
  refine ((mem_map_program a.op).1 (List.mem_map_of_mem h)).imp_right fun ⟨f, hf, hop⟩ => ?_
  exact ⟨f, mem_allFunctions_of_reaches (reaches_of_mem_bodies hf), hop⟩

/-- If no two definitions of a module have one node, a walk over it does all that is in its
statements. -/
theorem mem_map_program_iff (hm : (definitionsOf m.body).Nodup) (op : Op) :
    op ∈ m.program.map Action.op ↔ op ∈ operationsOf m.body := by
  refine ⟨fun h => ?_, fun h => ?_⟩
  · obtain ⟨a, ha, rfl⟩ := List.mem_map.1 h
    exact op_mem_operationsOf ha
  -- With distinct nodes no function is taken for another, so every body is read.
  · refine (mem_map_program op).2 (((mem_operationsOf_iff op m.body .module).1 h).imp_right ?_)
    rintro ⟨f, hf, hop⟩
    exact ⟨f, (mem_bodies_iff hm f).2
      (reaches_of_mem_allFunctionsOf m.body (fun g hg => .here hg) f hf), hop⟩

end Module

end NameAtlas.Python
