import NameAtlas.Proofs.Walk.Machine

/-!
# The operations of a piece of syntax

For each piece of syntax that is walked over in one scope, the operations that do it, and the proof
that performing them is walking over it. Each theorem says what a run of the operations leaves
behind: the walk that the function of the model gives, and on the stacks what the function returns.
The proofs follow the recursions of the model.
-/

namespace NameAtlas.Python

/-- Reports a list of type parameters, if there is one. -/
def typeParameterOps : Option Location → List Op
  | some location => [.report .unsupportedExpression "type parameter lists are not modeled" location]
  | none => []

mutual

/-- Evaluates an expression and puts down its value. -/
def Expr.ops : Expr → List Op
  | .name word => [.readName word]
  | .attribute object member => object.ops ++ [.readMember member]
  | .call callee written arguments => callee.ops ++ partsOps arguments ++ [.discard, .call written]
  | .compound parts outcome => partsOps parts ++ [.combine outcome]
  | .walrus value word => value.ops ++ [.bindName word, .combine .ofFirst]
  | .unsupported kind location =>
    [.report .unsupportedExpression ("`" ++ kind ++ "` expressions are not modeled") location,
      .constant .unknown]

/-- Evaluates expressions from left to right and puts down a value of the type of the first. -/
def partsOps : List Expr → List Op
  | [] => [.constant .unknown]
  | e :: rest => e.ops ++ [.combine .ofFirst] ++ partsOps rest ++ [.discard]

end

/-- Evaluates an expression for what it reads and binds. -/
def Expr.readOps (e : Expr) : List Op := e.ops ++ [.discard]

/-- Reads an annotation, if there is one, and puts down its type. -/
def hintOps : Option TypeHint → List Op
  | some (.form form reads) => .hint form :: partsOps reads ++ [.discard]
  | some (.unsupported snippet location) =>
    [.report .unsupportedHint ("annotation `" ++ snippet ++ "` is not modeled") location, .noHint]
  | none => [.noHint]

/-- Reports a target that is not modeled. -/
def reportTargetOp (kind : String) (location : Location) : Op :=
  .report .unsupportedTarget ("cannot assign to `" ++ kind ++ "`") location

mutual

/-- Assigns the value on top, which stays there, to a target. -/
def Target.assignOps : Target → List Op
  | .name word => [.bindName word]
  | .attribute object member => object.ops ++ [.assignMember member]
  | .element read => read.readOps
  | .pattern targets => .constant .unknown :: assignEachOps targets ++ [.discard]
  | .unsupported kind location => [reportTargetOp kind location]

/-- Assigns the value on top to each target. -/
def assignEachOps : List Target → List Op
  | [] => []
  | t :: rest => t.assignOps ++ assignEachOps rest

end

/-- Combines a target with a value. -/
def Target.augmentOps : Target → List Op
  | .name word => [.readName word, .bindName word, .discard]
  | .attribute object member => object.ops ++ [.keepMember member]
  | .element read => read.readOps
  | .pattern _ => []
  | .unsupported kind location => [reportTargetOp kind location]

/-- Evaluates each value and assigns it. -/
def pairsOps : List (Target × Expr) → List Op
  | [] => []
  | (target, value) :: rest => value.ops ++ target.assignOps ++ [.discard] ++ pairsOps rest

/-- Performs an assignment and puts down a value of the type that its target got. -/
def Assignment.ops : Assignment → List Op
  | .plain hint target value => hintOps hint ++ value.ops ++ [.annotate] ++ target.assignOps
  | .unpack hint pairs => hintOps hint ++ [.discardHint] ++ pairsOps pairs ++ [.constant .unknown]
  | .chained hint target value => hintOps hint ++ value.ops ++ [.annotate] ++ target.assignOps

/-- Performs a part of a simple statement. -/
def Item.ops : Item → List Op
  | .read value => value.readOps
  | .assign assignment => assignment.ops ++ [.discard]
  | .augment target value => value.readOps ++ target.augmentOps
  | .bind target => .constant .unknown :: target.assignOps ++ [.discard]

/-- Reads the default of a parameter, if it has one. -/
def defaultOps : Option Expr → List Op
  | some e => e.readOps
  | none => []

/-- Declares a parameter. -/
def Parameter.ops : Parameter → List Op
  | .named word hint default => hintOps hint ++ defaultOps default ++ [.parameter word]
  | .unsupported shape snippet location =>
    [.report .unsupportedParameter
      ("unsupported parameter syntax \"" ++ shape ++ "\" in " ++ snippet) location]

/-- Defines a function. -/
def FunctionBody.defineOps (f : FunctionBody) : List Op :=
  .place f.header.node f.header.word :: typeParameterOps f.header.typeParameters ++
    hintOps f.header.returns ++ [.enterFunction f] ++ f.header.parameters.flatMap Parameter.ops ++ [.leaveFunction]

/-- Reads an argument of a class definition. -/
def ClassArgument.ops : ClassArgument → List Op
  | .keyword value => value.readOps
  | .base value => value.ops ++ [.base]

/-- Reports an import of every name, if it is one. -/
def wildcardOps : Option Location → List Op
  | some location => [.report .unsupportedStatement "wildcard imports bind no names" location]
  | none => []

namespace Machine

variable (context : ImportContext) (scope : Nat)

/-! ### Expressions -/

mutual

/-- Evaluating an expression puts down its value. -/
theorem performAll_ops :
    ∀ (e : Expr) (M : Machine), performAll context scope e.ops M =
      (M.push (eval scope e M.walk).1).setWalk (eval scope e M.walk).2
  -- An expression is evaluated from its parts; what each kind adds is one operation behind them.
  | .name _, M => rfl
  | .attribute object member, M => by
    rw [Expr.ops, performAll_append, performAll_ops object]
    rfl
  | .call callee written arguments, M => by
    rw [Expr.ops, performAll_append, performAll_append, performAll_ops callee,
      performAll_partsOps arguments]
    rfl
  | .compound parts outcome, M => by
    rw [Expr.ops, performAll_append, performAll_partsOps parts]
    rfl
  | .walrus value word, M => by
    rw [Expr.ops, performAll_append, performAll_ops value]
    rfl
  | .unsupported _ _, M => rfl

/-- Evaluating expressions puts down the type of the first. -/
theorem performAll_partsOps :
    ∀ (es : List Expr) (M : Machine), performAll context scope (partsOps es) M =
      (M.push (.ofType (evalParts scope es M.walk).1)).setWalk (evalParts scope es M.walk).2
  | [], M => rfl
  | e :: rest, M => by
    rw [partsOps, performAll_append, performAll_append, performAll_append, performAll_ops e,
      performAll_cons, performAll_nil, performAll_partsOps rest]
    rfl

end

/-- The operations of an expression that is read do what reading does. -/
theorem performAll_readOps (e : Expr) (M : Machine) :
    performAll context scope e.readOps M = M.setWalk (M.walk.read scope e) := by
  rw [Expr.readOps, performAll_append, performAll_ops]
  rfl

/-- The operations of a hint do what reading the hint does. -/
theorem performAll_hintOps (hint : Option TypeHint) (M : Machine) :
    performAll context scope (hintOps hint) M =
      (M.pushHint (M.walk.readHint scope hint).1).setWalk (M.walk.readHint scope hint).2 := by
  rcases hint with _ | ⟨form, reads⟩ | _
  · rfl
  · rw [hintOps, performAll_append, performAll_cons context scope (.hint form), performAll_partsOps]
    rfl
  · rfl

/-! ### Assignments -/

mutual

/-- Assigning takes the type of the value on top and leaves the value where it is. -/
theorem performAll_assignOps :
    ∀ (t : Target) (M : Machine), performAll context scope t.assignOps M =
      M.setWalk (assign scope M.value.type t M.walk)
  | .name _, M => rfl
  | .attribute object member, M => by
    rw [Target.assignOps, performAll_append, performAll_ops]
    rfl
  | .element read, M => performAll_readOps context scope read M
  | .pattern targets, M => by
    rw [Target.assignOps, performAll_append, performAll_cons context scope (.constant .unknown),
      performAll_assignEachOps targets _ rfl]
    rfl
  | .unsupported _ _, M => rfl

/-- The operations of targets without a value do what assigning to each does. -/
theorem performAll_assignEachOps :
    ∀ (ts : List Target) (M : Machine), M.value.type = .unknown →
      performAll context scope (assignEachOps ts) M = M.setWalk (assignEach scope ts M.walk)
  | [], M, _ => rfl
  | t :: rest, M, h => by
    rw [assignEachOps, performAll_append, performAll_assignOps t, performAll_assignEachOps rest, h]
    · rfl
    · exact h

end

/-- The operations of a target with an operator do what combining does. -/
theorem performAll_augmentOps :
    ∀ (t : Target) (M : Machine),
      performAll context scope t.augmentOps M = M.setWalk (augment scope t M.walk)
  | .name _, M => rfl
  | .attribute object _, M => by
    rw [Target.augmentOps, performAll_append, performAll_ops]
    rfl
  | .element read, M => performAll_readOps context scope read M
  | .pattern _, M => rfl
  | .unsupported _ _, M => rfl

/-- The operations of pairs do what assigning them does. -/
theorem performAll_pairsOps (pairs : List (Target × Expr)) (M : Machine) :
    performAll context scope (pairsOps pairs) M = M.setWalk (assignPairs scope pairs M.walk) := by
  induction pairs generalizing M with
  | nil => rfl
  | cons pair rest ih =>
    obtain ⟨target, value⟩ := pair
    rw [pairsOps, performAll_append, performAll_append, performAll_append, performAll_ops,
      performAll_assignOps, ih]
    rfl

/-- The operations of an assignment do what performing it does. -/
theorem performAll_assignmentOps (a : Assignment) (M : Machine) :
    performAll context scope a.ops M =
      (M.push (.ofType (performAssignment scope a M.walk).1)).setWalk
        (performAssignment scope a M.walk).2 := by
  -- The induction is on the chain of assignments.
  induction a generalizing M with
  | plain hint target value =>
    rw [Assignment.ops, performAll_append, performAll_append, performAll_append,
      performAll_hintOps, performAll_ops, performAll_assignOps]
    rfl
  | unpack hint pairs =>
    rw [Assignment.ops, performAll_append, performAll_append, performAll_append,
      performAll_hintOps, performAll_pairsOps]
    rfl
  | chained hint target value ih =>
    rw [Assignment.ops, performAll_append, performAll_append, performAll_append,
      performAll_hintOps, ih, performAll_assignOps]
    rfl

/-- The operations of an item do what performing it does. -/
theorem performAll_itemOps (item : Item) (M : Machine) :
    performAll context scope item.ops M = M.setWalk (performItem scope item M.walk) := by
  cases item with
  | read value => exact performAll_readOps context scope value M
  | assign assignment =>
    rw [Item.ops, performAll_append, performAll_assignmentOps]
    rfl
  | augment target value =>
    rw [Item.ops, performAll_append, performAll_readOps, performAll_augmentOps]
    rfl
  | bind target =>
    rw [Item.ops, performAll_append, performAll_cons context scope (.constant .unknown),
      performAll_assignOps]
    rfl

/-- The operations of some items do what performing them does. -/
theorem performAll_flatMap_itemOps (items : List Item) (M : Machine) :
    performAll context scope (items.flatMap Item.ops) M =
      M.setWalk (M.walk.performItems scope items) := by
  induction items generalizing M with
  | nil => rfl
  | cons item rest ih =>
    rw [List.flatMap_cons, performAll_append, performAll_itemOps, ih]
    rfl

/-! ### Definitions and imports -/

/-- The operations of type parameters do what reporting them does. -/
theorem performAll_typeParameterOps (location : Option Location) (M : Machine) :
    performAll context scope (typeParameterOps location) M =
      M.setWalk (M.walk.reportTypeParameters location) := by
  cases location <;> rfl

/-- The operations of a default do what reading it does. -/
theorem performAll_defaultOps (default : Option Expr) (M : Machine) :
    performAll context scope (defaultOps default) M =
      M.setWalk (M.walk.readDefault scope default) := by
  cases default with
  | none => rfl
  | some e => exact performAll_readOps context scope e M

/-- Parameters are declared in the scope of the function under way, and the first of them takes its
receiver. -/
theorem performAll_parameterOps (parameters : List Parameter) (M : Machine) (d : Definition)
    (rest : List Definition) (h : M.definitions = d :: rest) :
    (performAll context scope (parameters.flatMap Parameter.ops) M).leave =
      { M with
        walk := Walk.declareParameters scope d.inner d.receiver parameters M.walk
        definitions := rest } := by
  -- The induction is on the parameters; the first one that is declared takes the receiver.
  induction parameters generalizing M d with
  | nil => rw [List.flatMap_nil, performAll_nil, leave, h]; rfl
  | cons p ps ih =>
    obtain ⟨walk, values, hints, definitions⟩ := M
    subst h
    rw [List.flatMap_cons, performAll_append]
    cases p with
    | named word hint default =>
      rw [Parameter.ops, performAll_append, performAll_append, performAll_hintOps,
        performAll_defaultOps]
      exact ih _ { d with receiver := none } rfl
    | unsupported shape snippet location => exact ih _ d rfl

/-- Defining a function leaves nothing on the stacks. -/
theorem performAll_defineOps (f : FunctionBody) (M : Machine) :
    performAll context scope f.defineOps M = M.setWalk (M.walk.defineFunction scope f) := by
  let d : Definition :=
    ⟨f.header.node, M.walk.bindingPlace scope f.header.word.text, [], none, 0⟩
  have henter (N : Machine) (h : N.definitions = d :: M.definitions) :
      performAll context scope [.enterFunction f] N = _ :=
    perform_enterFunction context scope f h rfl
  rw [FunctionBody.defineOps, performAll_append, performAll_append, performAll_append,
    performAll_append, performAll_cons context scope (.place f.header.node f.header.word),
    performAll_typeParameterOps, performAll_hintOps, henter _ rfl]
  change (performAll context scope (f.header.parameters.flatMap Parameter.ops) _).leave = _
  rw [performAll_parameterOps context scope _ _ _ M.definitions rfl]
  rfl

/-- The operations of what a class is given add the bases to the definition under way. -/
theorem performAll_classArgumentOps (arguments : List ClassArgument) (M : Machine) (d : Definition)
    (rest : List Definition) (h : M.definitions = d :: rest) :
    performAll context scope (arguments.flatMap ClassArgument.ops) M =
      { M with
        walk := (Walk.readBases scope arguments M.walk).2
        definitions :=
          { d with bases := d.bases ++ (Walk.readBases scope arguments M.walk).1 } :: rest } := by
  -- The induction is on the arguments, for any bases of the definition so far.
  induction arguments generalizing M d with
  | nil => simp [Walk.readBases, ← h]
  | cons a as ih =>
    rw [List.flatMap_cons, performAll_append]
    cases a with
    | keyword value =>
      rw [ClassArgument.ops, performAll_readOps]
      exact ih _ d h
    | base value =>
      rw [ClassArgument.ops, performAll_append, performAll_ops]
      obtain ⟨walk, values, hints, definitions⟩ := M
      subst h
      refine (ih _ { d with bases := d.bases ++ _ } rfl).trans ?_
      simp only [Walk.readBases, List.append_assoc]
      rfl

/-- The operations of imports do what binding them does. -/
theorem performAll_bindImport (bindings : List ImportBinding) (M : Machine) :
    performAll context scope (bindings.map .bindImport) M =
      M.setWalk (M.walk.bindImports context scope bindings) := by
  induction bindings generalizing M with
  | nil => rfl
  | cons b rest ih => exact ih _

/-- The operations of a wildcard do what reporting it does. -/
theorem performAll_wildcardOps (location : Option Location) (M : Machine) :
    performAll context scope (wildcardOps location) M =
      M.setWalk (M.walk.reportWildcard location) := by
  cases location <;> rfl

/-- The operations of a `global` statement do what declaring its names does. -/
theorem performAll_declareGlobal (names : List String) (M : Machine) :
    performAll context scope (names.map .declareGlobal) M =
      M.setWalk (M.walk.declareGlobals scope names) := by
  induction names generalizing M with
  | nil => rfl
  | cons name rest ih => exact ih _

/-- The operations of a `nonlocal` statement do what declaring its names does. -/
theorem performAll_declareNonlocal (names : List String) (M : Machine) :
    performAll context scope (names.map .declareNonlocal) M =
      M.setWalk (M.walk.declareNonlocals scope names) := by
  induction names generalizing M with
  | nil => rfl
  | cons name rest ih => exact ih _

end Machine

end NameAtlas.Python
