import NameAtlas.Proofs.Analysis.WellFormed
import NameAtlas.Proofs.Walk.Passes

/-!
# The receiver of a method

A parameter list is read from left to right, and the class of a method is carried along until a
parameter takes it as its type. What declares no parameter passes it on: separators, splats, code
that is broken or not modeled (`Walk.declareParameters_append`). So of the parameters of a method the
first one that is declared is the receiver, whatever stands in front of it, and every other one has
the type of its annotation (`Walk.defineFunction_receiver`). It is the first of the list only if
nothing that declares no parameter stands in front: in `def f(*, x)` a parameter that takes keywords
only becomes the receiver (`Walk.exists_receiver_behind_separator`).
-/

namespace NameAtlas.Python

open Source

/-- True for a parameter that is declared. -/
def Parameter.isNamed : Parameter → Bool
  | .named .. => true
  | .unsupported .. => false

namespace Part

/-- The nodes in the parameter list of a definition. -/
def parameterNodes (p : Part) : List Part := ((p.field? "parameters").map named).getD []

/-- True for a node of a parameter list that declares a parameter. -/
def declaresParameter (p : Part) : Bool := p.parameter?.any Parameter.isNamed

/-- A definition without a mark takes its parameters from its nodes. -/
theorem header_of_functionStmt {p : Part} {header : FunctionHeader} {body : List Stmt}
    (h : p.functionStmt = .function header body) :
    header.isStatic = false ∧ header.parameters = p.parameterNodes.filterMap parameter? := by
  rw [functionStmt] at h
  split at h
  · obtain ⟨rfl, -⟩ := Stmt.function.inj h
    refine ⟨rfl, ?_⟩
    rw [parameterNodes]
    cases p.field? "parameters" <;> rfl
  · cases h

/-- A named parameter is declared if one of the nodes declares one. -/
theorem any_isNamed_filterMap (nodes : List Part) :
    (nodes.filterMap parameter?).any Parameter.isNamed = nodes.any declaresParameter := by
  induction nodes with
  | nil => rfl
  | cons p rest ih =>
    rw [List.filterMap_cons, List.any_cons, declaresParameter, ← ih]
    cases p.parameter? <;> simp

end Part

namespace Walk

/-- Reads what stands in front of the parameters of a function, and gives the scope of the function
with the walk. -/
def beginFunction (w : Walk) (scope : Nat) (f : FunctionBody) : Nat × Walk :=
  let place := w.bindingPlace scope f.header.word.text
  let (annotated, w) := (w.reportTypeParameters f.header.typeParameters).readHint scope
    f.header.returns
  w.enterFunction scope f place annotated

/-- Reads the annotation and the default of a parameter and declares it with a type. -/
def declareTyped (w : Walk) (outer scope : Nat) (word : Word) (hint : Option TypeHint)
    (default : Option Expr) (type : BindingType) : Walk :=
  ((w.readHint outer hint).2.readDefault outer default).declareParameter scope word type

/-- A parameter takes the receiver, if there is one, and otherwise the type of its annotation. -/
theorem declareParameters_cons_named (outer scope : Nat) (receiver : Option Fqn) (word : Word)
    (hint : Option TypeHint) (default : Option Expr) (rest : List Parameter) (w : Walk) :
    declareParameters outer scope receiver (.named word hint default :: rest) w =
      declareParameters outer scope none rest
        (w.declareTyped outer scope word hint default
          ((receiver.map BindingType.resolved).getD
            ((w.readHint outer hint).1.getD .unknown))) := by
  cases receiver <;> rfl

/-- The first parameter that is declared takes the receiver; what declares none passes it on. -/
theorem declareParameters_append (outer scope : Nat) (receiver : Option Fqn)
    (front rest : List Parameter) (w : Walk) :
    declareParameters outer scope receiver (front ++ rest) w =
      declareParameters outer scope (if front.any Parameter.isNamed then none else receiver) rest
        (declareParameters outer scope receiver front w) := by
  -- The receiver goes to the first parameter that is named, and then there is none left.
  induction front generalizing receiver w with
  | nil => rfl
  | cons p ps ih =>
    rw [List.cons_append]
    cases p with
    | named word hint default =>
      rw [declareParameters_cons_named, declareParameters_cons_named, ih]
      simp [Parameter.isNamed]
    | unsupported shape snippet location =>
      rw [declareParameters, declareParameters, ih]
      simp [Parameter.isNamed]

/-- Up to the parameters of a function a walk keeps the scopes that it has. -/
theorem grows_beginFunction (w : Walk) (scope : Nat) (f : FunctionBody) :
    w.Grows (w.beginFunction scope f).2 := by
  have hreport : w.Grows (w.reportTypeParameters f.header.typeParameters) := by
    cases f.header.typeParameters <;> exact ⟨.refl _, List.prefix_refl _, List.prefix_refl _⟩
  have hhint := Machine.grows_performAll default scope (hintOps f.header.returns)
    ⟨w.reportTypeParameters f.header.typeParameters, [], [], []⟩
  rw [Machine.performAll_hintOps] at hhint
  exact (hreport.trans hhint).trans (.enterFunction _ _ _ _ _)

/-- What is defined in the body of a class is a method of the class. -/
theorem methodOwner?_beginFunction {w : Walk} {scope : Nat}
    (hclass : w.scopes.kindOf scope = .class) (f : FunctionBody) :
    (w.beginFunction scope f).2.methodOwner? scope = some (w.scopes.ownerOf scope) := by
  rw [ScopeTree.kindOf_eq] at hclass
  cases hs : w.scopes.scope? scope with
  | none => simp [hs] at hclass
  | some s =>
    have hkept := (w.grows_beginFunction scope f).scopes.scope? scope s hs
    rw [hs] at hclass
    rw [methodOwner?, ScopeTree.kindOf_eq, hkept, if_pos hclass, ScopeTree.ownerOf_eq,
      ScopeTree.ownerOf_eq, hkept, hs]

/-- In a method that is not marked static, the parameter that a node declares gets the class as its
type if no node in front of it declares one, and otherwise the type of its annotation, if that is
known. So where every node in front declares one, the class goes to the first node of the list and
to no other. -/
theorem defineFunction_receiver {p : Part} {f : FunctionBody}
    (hf : p.functionStmt = .function f.header f.body) (w : Walk) {scope : Nat}
    (hclass : w.scopes.kindOf scope = .class) {front rest : List Part} {q : Part}
    (hsplit : p.parameterNodes = front ++ q :: rest) {word : Word} {hint : Option TypeHint}
    {default : Option Expr} (hq : q.parameter? = some (.named word hint default)) :
    let c := w.scopes.ownerOf scope
    let start := w.beginFunction scope f
    let before :=
      declareParameters scope start.1 (some c) (front.filterMap Part.parameter?) start.2
    let annotated := (before.readHint scope hint).1.getD .unknown
    let type := if front.any Part.declaresParameter then annotated else .resolved c
    w.defineFunction scope f =
        declareParameters scope start.1 none (rest.filterMap Part.parameter?)
          (before.declareTyped scope start.1 word hint default type) ∧
      (front.all Part.declaresParameter →
        type = if front.isEmpty then .resolved c else annotated) := by
  intro c start before annotated type
  obtain ⟨hstatic, hparameters⟩ := Part.header_of_functionStmt hf
  have hreceiver : (if f.header.isStatic then none else start.2.methodOwner? scope) = some c := by
    rw [hstatic, methodOwner?_beginFunction hclass]
    rfl
  -- The parameters are split at this one; whether it gets the class depends on those in front.
  constructor
  · have hdefine : w.defineFunction scope f =
        declareParameters scope start.1 (some c) f.header.parameters start.2 := by
      rw [← hreceiver]
      rfl
    rw [hdefine, hparameters, hsplit, List.filterMap_append, List.filterMap_cons, hq,
      declareParameters_append, Part.any_isNamed_filterMap, declareParameters_cons_named]
    by_cases hfront : front.any Part.declaresParameter <;> simp [type, hfront, before, annotated]
  · intro hall
    cases front with
    | nil => rfl
    | cons q' _ =>
      have hfirst : q'.declaresParameter := List.all_eq_true.1 hall q' List.mem_cons_self
      simp [type, hfirst]

/-- The text of a class with the method `f(self, x: int, y)`. -/
def annotatedText : String := "class C:\n    def f(self, x: int, y):\n        pass\n"

/-- The tree of its method. -/
def annotatedMethod : Node :=
  wholeNode 4 "function_definition" "" 13 49
    [wholeNode 5 "identifier" "name" 17 18 [],
      wholeNode 6 "parameters" "parameters" 18 35
        [wholeNode 7 "identifier" "" 19 23 [],
          wholeNode 8 "typed_parameter" "" 25 31
            [wholeNode 9 "identifier" "" 25 26 [],
              wholeNode 10 "type" "type" 28 31 [wholeNode 11 "identifier" "" 28 31 []]],
          wholeNode 12 "identifier" "" 33 34 []],
      wholeNode 13 "block" "body" 45 49 [wholeNode 14 "pass_statement" "" 45 49 []]]

/-- A walk over the class. -/
def annotatedWalk : Walk :=
  walks ⟨.root "m", false⟩
    (.ofTree (.ofString annotatedText)
      (wholeNode 0 "module" "" 0 50
        [wholeNode 1 "class_definition" "" 0 49
          [wholeNode 2 "identifier" "name" 6 7 [], wholeNode 3 "block" "body" 13 49 [annotatedMethod]]]))
    1

/-- Behind the receiver a parameter has the type of its annotation. -/
theorem defineFunction_receiver_annotated :
    annotatedWalk.scopes.kindOf 1 = .class ∧
      ∃ f, (Part.ofNode (.ofString annotatedText) annotatedMethod).functionStmt =
          .function f.header f.body ∧
        (annotatedWalk.defineFunction 1 f).symbols.typeOf ⟨["m", "C", "f", "x"]⟩ =
          .primitive "int" := by
  -- The parameter stands behind another one, so it has its own annotation.
  let source : SourceText := .ofString annotatedText
  let receiver : Node := wholeNode 7 "identifier" "" 19 23 []
  let typed : Node := wholeNode 8 "typed_parameter" "" 25 31
    [wholeNode 9 "identifier" "" 25 26 [],
      wholeNode 10 "type" "type" 28 31 [wholeNode 11 "identifier" "" 28 31 []]]
  have hclass : annotatedWalk.scopes.kindOf 1 = .class := by decide +kernel
  have hsplit : (Part.ofNode source annotatedMethod).parameterNodes =
      [Part.ofNode source receiver] ++ Part.ofNode source typed ::
        [Part.ofNode source (wholeNode 12 "identifier" "" 33 34 [])] := rfl
  refine ⟨hclass, ⟨_, _⟩, rfl, ?_⟩
  rw [(defineFunction_receiver rfl annotatedWalk hclass hsplit rfl).1]
  decide +kernel

/-- In `def f(*, x)` the parameter is the receiver, though a separator stands in front of it. -/
theorem exists_receiver_behind_separator :
    ∃ (w : Walk) (p separator q : Part) (f : FunctionBody) (word : Word),
      w.scopes.kindOf 1 = .class ∧ p.functionStmt = .function f.header f.body ∧
      p.parameterNodes = [separator, q] ∧ separator.kind = "keyword_separator" ∧
      q.parameter? = some (.named word none none) ∧
      (w.defineFunction 1 f).symbols.typeOf ((w.scopes.ownerOf 1).descendant [f.header.word.text,
        word.text]) = .resolved (w.scopes.ownerOf 1) := by
  -- The separator comes first and is no parameter, so `x` takes the class.
  let source : SourceText := .ofString "class C:\n    def f(*, x):\n        pass\n"
  let method : Node :=
    wholeNode 4 "function_definition" "" 13 38
      [wholeNode 5 "identifier" "name" 17 18 [],
        wholeNode 6 "parameters" "parameters" 18 24
          [wholeNode 7 "keyword_separator" "" 19 20 [], wholeNode 8 "identifier" "" 22 23 []],
        wholeNode 9 "block" "body" 34 38 [wholeNode 10 "pass_statement" "" 34 38 []]]
  let module : Node :=
    wholeNode 0 "module" "" 0 39
      [wholeNode 1 "class_definition" "" 0 38
        [wholeNode 2 "identifier" "name" 6 7 [], wholeNode 3 "block" "body" 13 38 [method]]]
  refine ⟨walks ⟨.root "m", false⟩ (.ofTree source module) 1, .ofNode source method, _, _, ⟨_, _⟩, _,
    by decide +kernel, rfl, rfl, rfl, rfl, ?_⟩
  decide +kernel

end Walk

end NameAtlas.Python
