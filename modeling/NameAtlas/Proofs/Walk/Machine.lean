import NameAtlas.Proofs.Walk.Effects

/-!
# Walks as runs of a machine

The functions that walk over a module call one another along the syntax, and what is true of a walk
is true because each of a few dozen things that it can do keeps it true. This module names these
things (`Op`) and lets a machine do them one after the other (`perform`): what the functions pass to
one another, values, annotations and the definitions under way, lies on stacks of the machine.
`Code` gives the operations of every piece of syntax and shows that performing them is walking over
it, so that a property of walks follows from one lemma about `perform`, by induction on a list.

An operation happens at a `Site`, the code of the module or the body that a node defines. Sites do
not depend on the walk; in which scope a site lies is looked up in the scope tree
(`ScopeTree.resolve`).
-/

namespace NameAtlas.Python

/-- A place in the code in which names have one scope. -/
inductive Site where
  /-- The code of the module. -/
  | module
  /-- The body of the function or class that a node defines. -/
  | body (node : Nat)
  deriving DecidableEq, Repr, Inhabited

/-- The scope of a site; that of the module as long as the site has none. -/
def ScopeTree.resolve (t : ScopeTree) : Site → Nat
  | .module => moduleScope
  | .body node => (t.byNode.get? node).getD moduleScope

/-- A definition under way. -/
structure Definition where
  /-- The node of the definition. -/
  node : Nat
  /-- The frame that receives the name, and the symbol that the name becomes. -/
  place : Nat × Fqn
  /-- The bases read so far. -/
  bases : List Fqn
  /-- The class that is the type of the next parameter. -/
  receiver : Option Fqn
  /-- The scope of the body, once it is open. -/
  inner : Nat
  deriving Inhabited

/-- A walk with what its functions pass to one another. -/
structure Machine where
  /-- The state of the walk. -/
  walk : Walk
  /-- The values that are still to be used, the last one first. -/
  values : List Evaluated
  /-- The types of the annotations that are still to be used. -/
  hints : List (Option BindingType)
  /-- The definitions under way, the innermost first. -/
  definitions : List Definition
  deriving Inhabited

/-- What a walk can do in one step. -/
inductive Op where
  /-- Logs a finding. -/
  | report (code : DiagnosticCode) (message : String) (location : Location)
  /-- Puts down a value of a type. -/
  | constant (type : BindingType)
  /-- Puts down what a name stands for. -/
  | readName (word : Word)
  /-- Replaces a value by a member of it. -/
  | readMember (word : Word)
  /-- Replaces a callee by what it returns. -/
  | call (written : String)
  /-- Replaces the first part of an expression by the whole. -/
  | combine (outcome : Outcome)
  /-- Replaces a class by its instances. -/
  | instantiate
  /-- Takes a value away. -/
  | discard
  /-- Puts down the type of an annotation. -/
  | hint (form : TypeForm)
  /-- Puts down that there is no annotation. -/
  | noHint
  /-- Takes an annotation away. -/
  | discardHint
  /-- Gives a value the type of the annotation. -/
  | annotate
  /-- Binds a name to the value. -/
  | bindName (word : Word)
  /-- Assigns the value below an object to a member of the object, which is taken away. -/
  | assignMember (word : Word)
  /-- Assigns to a member of an object the type that it has. -/
  | keepMember (word : Word)
  /-- Begins the definition of a node. -/
  | place (node : Nat) (word : Word)
  /-- Declares the function under way and opens its scope. -/
  | enterFunction (f : FunctionBody)
  /-- Declares a parameter of the function under way. -/
  | parameter (word : Word)
  /-- Ends the definition of a function. -/
  | leaveFunction
  /-- Declares the class under way and opens its scope. -/
  | enterClass (h : ClassHeader)
  /-- Makes a value a base of the class under way. -/
  | base
  /-- Sets the bases of the class under way. -/
  | setBases
  /-- Ends the definition of a class, which gets its name. -/
  | leaveClass (word : Word)
  /-- Binds a name of an import. -/
  | bindImport (b : ImportBinding)
  /-- Declares a name `global`. -/
  | declareGlobal (name : String)
  /-- Declares a name `nonlocal`. -/
  | declareNonlocal (name : String)
  /-- Returns the value. -/
  | noteReturn
  /-- Begins the body of a function. -/
  | beginBody
  /-- Ends the body of a function. -/
  | endBody
  deriving Repr, Inhabited

namespace Machine

/-- The value on top. -/
def value (M : Machine) : Evaluated := M.values.headD .unknown

/-- The annotation on top. -/
def annotation (M : Machine) : Option BindingType := M.hints.headD none

/-- The innermost definition under way. -/
def definition (M : Machine) : Definition := M.definitions.headD default

/-- The place of a definition: where it began, if it is the innermost one under way. -/
def placeOf (M : Machine) (scope node : Nat) (word : Word) : Nat × Fqn :=
  match M.definitions with
  | d :: _ => if d.node = node then d.place else M.walk.bindingPlace scope word.text
  | [] => M.walk.bindingPlace scope word.text

/-- Puts down a value. -/
def push (M : Machine) (v : Evaluated) : Machine := { M with values := v :: M.values }

/-- Replaces the value on top. -/
def replace (M : Machine) (v : Evaluated) : Machine := { M with values := v :: M.values.tail }

/-- Takes a value away. -/
def pop (M : Machine) : Machine := { M with values := M.values.tail }

/-- Puts down the type of an annotation. -/
def pushHint (M : Machine) (hint : Option BindingType) : Machine :=
  { M with hints := hint :: M.hints }

/-- Takes an annotation away. -/
def popHint (M : Machine) : Machine := { M with hints := M.hints.tail }

/-- Begins a definition. -/
def begin (M : Machine) (d : Definition) : Machine :=
  { M with definitions := d :: M.definitions }

/-- Changes the innermost definition, if there is one. -/
def redefine (M : Machine) (g : Definition → Definition) : Machine :=
  { M with definitions := M.definitions.modifyHead g }

/-- The definitions under way behind a change are the old ones and the changed one. -/
theorem exists_of_mem_redefine {M : Machine} {g : Definition → Definition} {d : Definition}
    (h : d ∈ (M.redefine g).definitions) :
    d ∈ M.definitions ∨ ∃ d' ∈ M.definitions, d = g d' := by
  simp only [redefine] at h
  cases hM : M.definitions with
  | nil =>
    rw [hM] at h
    cases h
  | cons top rest =>
    rw [hM, List.modifyHead_cons] at h
    rcases List.mem_cons.1 h with rfl | h
    · exact .inr ⟨top, List.mem_cons_self, rfl⟩
    · exact .inl (List.mem_cons_of_mem top h)

/-- Ends the innermost definition. -/
def leave (M : Machine) : Machine := { M with definitions := M.definitions.tail }

/-- Replaces the walk. -/
def setWalk (M : Machine) (w : Walk) : Machine := { M with walk := w }

/-- Performs an operation in a scope. -/
def perform (context : ImportContext) (scope : Nat) : Op → Machine → Machine
  | .report code message location, M => M.setWalk (M.walk.report code message location)
  | .constant type, M => M.push (.ofType type)
  | .readName word, M =>
    let (value, w) := M.walk.readName scope word
    (M.push value).setWalk w
  | .readMember word, M =>
    let (value, w) := M.walk.readMember scope M.value word
    (M.replace value).setWalk w
  | .call written, M => M.replace (.ofType (M.walk.typeOfCall scope M.value written))
  | .combine outcome, M => M.replace (.ofType (outcome.type M.value.type))
  | .instantiate, M => M.replace (.ofType (instanceType M.walk.symbols M.value))
  | .discard, M => M.pop
  | .hint form, M => M.pushHint (form.type M.walk.scopes M.walk.symbols scope).known?
  | .noHint, M => M.pushHint none
  | .discardHint, M => M.popHint
  | .annotate, M => (M.replace (.ofType (M.annotation.getD M.value.type))).popHint
  | .bindName word, M => M.setWalk (M.walk.bindName scope word M.value.type)
  | .assignMember word, M =>
    M.pop.setWalk (M.walk.assignMember scope M.value word (some M.pop.value.type))
  | .keepMember word, M => M.pop.setWalk (M.walk.assignMember scope M.value word none)
  | .place node word, M => M.begin ⟨node, M.walk.bindingPlace scope word.text, [], none, 0⟩
  | .enterFunction f, M =>
    let (inner, w) := M.walk.enterFunction scope f
      (M.placeOf scope f.header.node f.header.word) M.annotation
    let receiver := if f.header.isStatic then none else w.methodOwner? scope
    (M.popHint.redefine fun d => { d with inner, receiver }).setWalk w
  | .parameter word, M =>
    let type :=
      match M.definition.receiver with
      | some c => .resolved c
      | none => M.annotation.getD .unknown
    (M.popHint.redefine fun d => { d with receiver := none }).setWalk
      (M.walk.declareParameter M.definition.inner word type)
  | .leaveFunction, M => M.leave
  | .enterClass h, M => M.setWalk (M.walk.enterClass scope h (M.placeOf scope h.node h.word)).2
  | .base, M =>
    M.pop.redefine fun d =>
      { d with bases := d.bases ++ (M.value.target.map NameTarget.fqn).toList }
  | .setBases, M =>
    M.setWalk { M.walk with
      symbols := M.walk.symbols.setBases M.definition.place.2 M.definition.bases }
  | .leaveClass word, M =>
    M.leave.setWalk (M.walk.bind M.definition.place.1 word.text (.declared M.definition.place.2))
  | .bindImport b, M => M.setWalk (M.walk.bindImport context scope b)
  | .declareGlobal name, M =>
    M.setWalk { M.walk with scopes := M.walk.scopes.declareGlobal scope name }
  | .declareNonlocal name, M =>
    M.setWalk { M.walk with scopes := M.walk.scopes.declareNonlocal scope name }
  | .noteReturn, M => M.pop.setWalk (M.walk.noteReturn scope M.value.type)
  | .beginBody, M => M.setWalk (M.walk.beginBody scope)
  | .endBody, M => M.setWalk (M.walk.endBody scope)

/-- The innermost definition is found by its node. -/
theorem placeOf_eq {M : Machine} {d : Definition} {rest : List Definition}
    (h : M.definitions = d :: rest) {node : Nat} (hnode : d.node = node) (scope : Nat)
    (word : Word) : M.placeOf scope node word = d.place := by
  rw [placeOf, h]
  exact if_pos hnode

/-- A function is entered at the place where its definition began. -/
theorem perform_enterFunction (context : ImportContext) (scope : Nat) (f : FunctionBody)
    {M : Machine} {d : Definition} {rest : List Definition} (h : M.definitions = d :: rest)
    (hnode : d.node = f.header.node) :
    perform context scope (.enterFunction f) M =
      { M with
        walk := (M.walk.enterFunction scope f d.place M.annotation).2
        hints := M.hints.tail
        definitions :=
          { d with
            inner := (M.walk.enterFunction scope f d.place M.annotation).1
            receiver := if f.header.isStatic then none
              else (M.walk.enterFunction scope f d.place M.annotation).2.methodOwner? scope } ::
            rest } := by
  simp only [perform, placeOf_eq h hnode, redefine, setWalk, popHint, h]
  rfl

/-- A class is entered at the place where its definition began. -/
theorem perform_enterClass (context : ImportContext) (scope : Nat) (c : ClassHeader)
    {M : Machine} {d : Definition} {rest : List Definition} (h : M.definitions = d :: rest)
    (hnode : d.node = c.node) :
    perform context scope (.enterClass c) M = M.setWalk (M.walk.enterClass scope c d.place).2 := by
  rw [perform, placeOf_eq h hnode]

/-- Performs operations in order in one scope. -/
def performAll (context : ImportContext) (scope : Nat) (ops : List Op) (M : Machine) : Machine :=
  ops.foldl (fun M op => perform context scope op M) M

/-- No operations leave the machine. -/
@[simp] theorem performAll_nil (context : ImportContext) (scope : Nat) (M : Machine) :
    performAll context scope [] M = M := rfl

/-- A list of operations starts with the first. -/
@[simp] theorem performAll_cons (context : ImportContext) (scope : Nat) (op : Op) (ops : List Op)
    (M : Machine) : performAll context scope (op :: ops) M =
      performAll context scope ops (perform context scope op M) := rfl

/-- Two lists of operations are done one after the other. -/
@[simp] theorem performAll_append (context : ImportContext) (scope : Nat) (ops ops' : List Op)
    (M : Machine) : performAll context scope (ops ++ ops') M =
      performAll context scope ops' (performAll context scope ops M) :=
  List.foldl_append

end Machine

/-- An operation at a site. -/
structure Action where
  /-- Where it happens. -/
  site : Site
  /-- What happens. -/
  op : Op
  deriving Repr, Inhabited

/-- Some operations at one site. -/
def Site.actions (s : Site) (ops : List Op) : List Action := ops.map fun op => ⟨s, op⟩

/-- The actions of two lists of operations are those of each. -/
theorem Site.actions_append (s : Site) (ops ops' : List Op) :
    s.actions (ops ++ ops') = s.actions ops ++ s.actions ops' := List.map_append

namespace Machine

/-- Performs an action in the scope that its site has by then. -/
def step (context : ImportContext) (M : Machine) (a : Action) : Machine :=
  perform context (M.walk.scopes.resolve a.site) a.op M

/-- Performs actions in order. -/
def run (context : ImportContext) (P : List Action) (M : Machine) : Machine :=
  P.foldl (step context) M

/-- No actions leave the machine. -/
@[simp] theorem run_nil (context : ImportContext) (M : Machine) : run context [] M = M := rfl

/-- A run starts with its first action. -/
@[simp] theorem run_cons (context : ImportContext) (a : Action) (P : List Action) (M : Machine) :
    run context (a :: P) M = run context P (step context M a) := rfl

/-- Two runs are done one after the other. -/
@[simp] theorem run_append (context : ImportContext) (P P' : List Action) (M : Machine) :
    run context (P ++ P') M = run context P' (run context P M) := List.foldl_append

end Machine

end NameAtlas.Python
