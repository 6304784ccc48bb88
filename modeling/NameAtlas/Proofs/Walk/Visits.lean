import NameAtlas.Proofs.Walk.Agreement
import NameAtlas.Proofs.Walk.Enclosing
import NameAtlas.Proofs.Walk.Entered
import NameAtlas.Proofs.Walk.Parameters

/-!
# Visits of definitions and returns

The body of a function is read long after its definition, and what it returns is known only at its
end. Two kinds of statements leave something behind for that: definitions of functions and return
statements. Reading some statements visits those among them in order (`visitsOf`), and does nothing
between that defines a function or returns from one (`traced_visitAll`). So what is known about
functions behind the statements is what the visits found (`Traced.recorded`), and the type noted for
the function around them is that of the last return (`Traced.returned`).
-/

namespace NameAtlas.Python

/-- A statement with the scope and the state of the walk in which it is read. -/
structure Visit where
  /-- The statement. -/
  stmt : Stmt
  /-- The scope it is read in. -/
  scope : Nat
  /-- The walk in front of it. -/
  walk : Walk

mutual

/-- The visits of the function definitions and return statements in a statement, in the order in
which they are read. Those in the bodies of functions are left out, as these are read later. -/
def Stmt.visits (context : ImportContext) (scope : Nat) : Stmt → Walk → List Visit
  | .function header body, w => [⟨.function header body, scope, w⟩]
  | .returns value, w => [⟨.returns value, scope, w⟩]
  | .block body, w => visitsOf context scope body w
  | .caught value between _, w => visitsOf context scope between (eval scope value w).2
  | .class header body, w =>
    let (inner, w) := w.defineClass scope header (w.bindingPlace scope header.word.text)
    visitsOf context inner body w
  | _, _ => []

/-- The visits of the function definitions and return statements in some statements. -/
def visitsOf (context : ImportContext) (scope : Nat) : List Stmt → Walk → List Visit
  | [], _ => []
  | st :: rest, w =>
    st.visits context scope w ++ visitsOf context scope rest (visit context scope st w)

end

namespace Visit

/-- The function that is defined. -/
def function? (v : Visit) : Option FunctionBody :=
  match v.stmt with
  | .function header body => some ⟨header, body⟩
  | _ => none

/-- The value that is returned, if there is one, with the type it has when it is read. A return
without a value gives `None`. -/
def returned? (v : Visit) : Option (Option Expr × BindingType) :=
  match v.stmt with
  | .returns (some value) => some (some value, (eval v.scope value v.walk).1.type)
  | .returns none => some (none, .noneType)
  | _ => none

end Visit

section

variable (context : ImportContext)

mutual

/-- The functions that a statement visits are those that it defines. -/
theorem Stmt.filterMap_function?_visits (scope : Nat) :
    ∀ (st : Stmt) (w : Walk), (st.visits context scope w).filterMap Visit.function? = st.functions
  | .function _ _, _ | .returns _, _ | .simple _, _ | .imports _ _, _ | .globals _, _
  | .nonlocals _, _ | .unsupported _ _, _ => rfl
  | .block body, _ => filterMap_function?_visitsOf scope body _
  | .caught _ between _, _ => filterMap_function?_visitsOf scope between _
  | .class _ body, _ => filterMap_function?_visitsOf _ body _

/-- The functions that are defined in some statements are visited there. -/
theorem filterMap_function?_visitsOf (scope : Nat) :
    ∀ (body : List Stmt) (w : Walk),
      (visitsOf context scope body w).filterMap Visit.function? = functionsOf body
  | [], _ => rfl
  | st :: rest, _ => by
    rw [visitsOf, List.filterMap_append, Stmt.filterMap_function?_visits scope st,
      filterMap_function?_visitsOf scope rest, functionsOf]

end

end

/-! ### Quiet operations -/

/-- True for the operations that define no function, return from none, and neither begin nor end the
body of one. -/
def Op.isQuiet : Op → Bool
  | .enterFunction _ | .noteReturn | .beginBody | .endBody => false
  | _ => true

/-- Inner operations are quiet. -/
@[simp] theorem quiet_of_inner {ops : List Op} (h : ops.all Op.isInner) : ops.all Op.isQuiet := by
  refine List.all_eq_true.2 fun op hop => ?_
  have hop := List.all_eq_true.1 h op hop
  cases op <;> first | rfl | cases hop

/-- The operations of a parameter are quiet. -/
@[simp] theorem Parameter.quiet_ops (p : Parameter) : p.ops.all Op.isQuiet := by
  cases p <;> simp [Parameter.ops, Op.isQuiet]

/-- The operations of what a class is given are quiet. -/
@[simp] theorem ClassArgument.quiet_ops (a : ClassArgument) : a.ops.all Op.isQuiet := by
  cases a <;> simp [ClassArgument.ops, Op.isQuiet]

/-- True for the actions that some sites take quietly. -/
def Quiet (P : List Action) : Prop := ∀ a ∈ P, a.op.isQuiet

/-- The actions of quiet operations are quiet. -/
theorem quiet_actions {s : Site} {ops : List Op} (h : ops.all Op.isQuiet) : Quiet (s.actions ops) := by
  intro a ha
  obtain ⟨op, hop, rfl⟩ := List.mem_map.1 ha
  exact List.all_eq_true.1 h op hop

/-- The head of a class is quiet. -/
theorem quiet_classHead (s : Site) (h : ClassHeader) : Quiet (h.code s) := by
  rw [ClassHeader.code]
  exact List.forall_mem_append.2
    ⟨quiet_actions (by simp [Op.isQuiet]), quiet_actions (by simp [Op.isQuiet])⟩

namespace Walk

/-- The walk `w'` comes behind `w`, knows about functions what `w` does, and has the same types
noted. -/
structure SameFunctions (w w' : Walk) : Prop extends w.Grows w' where
  /-- The same is known about every function. -/
  function? : ∀ i, w'.scopes.function? i = w.scopes.function? i
  /-- The same types are noted. -/
  returned : w'.returned = w.returned

namespace SameFunctions

/-- A walk knows about functions what it knows. -/
theorem refl (w : Walk) : w.SameFunctions w := ⟨.refl w, fun _ => rfl, rfl⟩

/-- Walks that know the same one after the other know the same. -/
theorem trans {w w' w'' : Walk} (h : w.SameFunctions w') (h' : w'.SameFunctions w'') :
    w.SameFunctions w'' :=
  ⟨h.toGrows.trans h'.toGrows, fun i => (h'.function? i).trans (h.function? i),
    h'.returned.trans h.returned⟩

/-- Binding a name changes nothing of what is known about functions. -/
theorem bind (w : Walk) (i : Nat) (name : String) (target : NameTarget) :
    w.SameFunctions (w.bind i name target) :=
  ⟨.bind w i name target, fun _ => ScopeTree.function?_bind _ _ _ _ _, rfl⟩

end SameFunctions

end Walk

namespace Machine

variable (context : ImportContext)

/-- A quiet operation changes nothing of what is known about functions. -/
theorem sameFunctions_perform (scope : Nat) {op : Op} (h : op.isQuiet) (M : Machine) :
    M.walk.SameFunctions (perform context scope op M).walk := by
  refine ⟨grows_perform context scope op M, function?_perform context scope M ?_,
    returned_perform context scope M ⟨?_, ?_, ?_⟩⟩
  · rintro f rfl
    cases h
  all_goals
    rintro rfl
    cases h

/-- Quiet operations change nothing of what is known about functions. -/
theorem sameFunctions_performAll (scope : Nat) {ops : List Op} (h : ops.all Op.isQuiet)
    (M : Machine) : M.walk.SameFunctions (performAll context scope ops M).walk := by
  induction ops generalizing M with
  | nil => exact .refl _
  | cons op rest ih =>
    rw [List.all_cons, Bool.and_eq_true] at h
    exact (sameFunctions_perform context scope h.1 M).trans (ih h.2 _)

/-- A quiet run changes nothing of what is known about functions. -/
theorem sameFunctions_run {P : List Action} (h : Quiet P) (M : Machine) :
    M.walk.SameFunctions (run context P M).walk := by
  induction P generalizing M with
  | nil => exact .refl _
  | cons a rest ih =>
    exact (sameFunctions_perform context _ (h a List.mem_cons_self) M).trans
      (ih (fun a' ha' => h a' (List.mem_cons_of_mem a ha')) _)

end Machine

/-! ### Where statements are read -/

/-- A walk that reads code at a site with definitions from `S`: the site has the scope `i`, and the
function around it is that of the scope `e`, if there is one. -/
structure Walk.Stands (S : List Opening) (s : Site) (i : Nat) (e : Option Nat) (w : Walk) : Prop where
  /-- The site has a scope. -/
  resolves : w.scopes.Resolves s i
  /-- The scopes lie as the definitions do. -/
  mirrors : w.scopes.Mirrors S
  /-- The function around the site. -/
  enclosing : w.scopes.enclosingFunction? i = e

namespace Walk.Stands

variable (context : ImportContext) {S : List Opening} {s : Site} {i : Nat} {e : Option Nat}

/-- The walk goes on at the site. -/
theorem run {P : List Action} {M : Machine} (h : M.walk.Stands S s i e)
    (hfits : ∀ a ∈ P, a.Fits S true true) (hsited : Machine.Sited context P M) :
    (Machine.run context P M).walk.Stands S s i e := by
  have hgrow := (Machine.grows_run context P M).scopes
  exact ⟨h.resolves.mono hgrow, Machine.mirrors_run context hfits hsited h.mirrors,
    (hgrow.enclosingFunction?_eq (h.mirrors.lt_of_resolves h.resolves)).trans h.enclosing⟩

/-- A walk stands at the same site behind a statement. -/
theorem visit {w : Walk} (h : w.Stands S s i e) {st : Stmt} (hst : st.openings s ⊆ S) :
    (Python.visit context i st w).Stands S s i e := by
  have hrun := Stands.run context (M := ⟨w, [], [], []⟩) h (fits_code st s hst fun _ => rfl)
    ((Machine.compositional_sited context).code st _ h.resolves)
  rwa [Machine.run_code context st _ h.resolves] at hrun

/-- A walk stands at the same site behind an expression. -/
theorem eval {w : Walk} (h : w.Stands S s i e) (value : Expr) :
    (Python.eval i value w).2.Stands S s i e := by
  have hrun := Stands.run default (M := ⟨w, [], [], []⟩) h (fits_of_plain value.plain_ops)
    (Machine.sited_actions default _ _ h.resolves)
  rwa [Machine.run_actions default _ _ h.resolves, Machine.performAll_ops] at hrun

/-- The body of a class lies in the function around the class. -/
theorem defineClass (hS : ∀ d ∈ S, ∀ d' ∈ S, d.node = d'.node → d = d') {w : Walk}
    (h : w.Stands S s i e) {header : ClassHeader} (hheader : header.opening s ∈ S) :
    (w.defineClass i header (w.bindingPlace i header.word.text)).2.Stands S (.body header.node)
      (w.defineClass i header (w.bindingPlace i header.word.text)).1 e := by
  obtain ⟨d, -, hhead⟩ := Machine.run_classHead default header ⟨w, [], [], []⟩ h.resolves
  have hrun := Stands.run default (M := ⟨w, [], [], []⟩) h (fits_classHead hheader)
    (Machine.sited_classHead default header _ h.resolves)
  rw [hhead] at hrun
  have hinner := Machine.resolves_defineClass w i header (w.bindingPlace i header.word.text)
  exact ⟨hinner, hrun.mirrors,
    (hrun.mirrors.enclosingFunction?_class hS hheader rfl hinner hrun.resolves).trans hrun.enclosing⟩

end Walk.Stands

/-! ### Definitions of functions -/

/-- Reads what stands in front of the parameters of a function. -/
def FunctionBody.beginOps (f : FunctionBody) : List Op :=
  .place f.header.node f.header.word :: typeParameterOps f.header.typeParameters ++
    hintOps f.header.returns ++ [.enterFunction f]

/-- The operations in front of the parameters do what beginning the function does. -/
theorem Machine.performAll_beginOps (context : ImportContext) (scope : Nat) (f : FunctionBody)
    (M : Machine) : (performAll context scope f.beginOps M).walk = (M.walk.beginFunction scope f).2 := by
  let d : Definition :=
    ⟨f.header.node, M.walk.bindingPlace scope f.header.word.text, [], none, 0⟩
  have henter (N : Machine) (h : N.definitions = d :: M.definitions) :
      performAll context scope [.enterFunction f] N = _ :=
    perform_enterFunction context scope f h rfl
  rw [FunctionBody.beginOps, performAll_append, performAll_append,
    performAll_cons context scope (.place f.header.node f.header.word),
    performAll_typeParameterOps, performAll_hintOps, henter _ rfl]
  rfl

namespace Walk

/-- Opening the scope of a function that is defined at a site keeps the scopes as they are defined. -/
theorem Stands.beginFunction {S : List Opening} {s : Site} {i : Nat} {e : Option Nat} {w : Walk}
    (h : w.Stands S s i e) {f : FunctionBody} (hf : f.header.opening s ∈ S) :
    (w.beginFunction i f).2.Stands S s i e := by
  have hfits : ∀ a ∈ s.actions f.beginOps, a.Fits S true true := by
    intro a ha
    refine fits_defineOps hf a ?_
    rw [FunctionBody.defineOps, Site.actions_append, Site.actions_append]
    exact List.mem_append_left _ (List.mem_append_left _ ha)
  have hrun := Stands.run default (M := ⟨w, [], [], []⟩) h hfits
    (Machine.sited_actions default _ _ h.resolves)
  rwa [Machine.run_actions default _ _ h.resolves, Machine.performAll_beginOps] at hrun

/-- A definition reads the annotation before the function is entered. -/
theorem sameFunctions_readHint (w : Walk) (scope : Nat) (location : Option Location)
    (hint : Option TypeHint) :
    w.SameFunctions ((w.reportTypeParameters location).readHint scope hint).2 := by
  have hquiet : (typeParameterOps location ++ hintOps hint).all Op.isQuiet := by simp
  have h := Machine.sameFunctions_performAll default scope hquiet ⟨w, [], [], []⟩
  rwa [Machine.performAll_append, Machine.performAll_typeParameterOps,
    Machine.performAll_hintOps] at h

/-- Type parameters are reported and change no annotation. -/
theorem fst_readHint_reportTypeParameters (w : Walk) (scope : Nat) (location : Option Location)
    (hint : Option TypeHint) :
    ((w.reportTypeParameters location).readHint scope hint).1 = (w.readHint scope hint).1 := by
  rcases location with _ | _ <;> rcases hint with _ | ⟨_, _⟩ | _ <;> rfl

/-- The parameters of a function change nothing about functions. -/
theorem sameFunctions_defineFunction (w : Walk) (scope : Nat) (f : FunctionBody) :
    (w.beginFunction scope f).2.SameFunctions (w.defineFunction scope f) := by
  let d : Definition := ⟨0, default, [],
    if f.header.isStatic then none else (w.beginFunction scope f).2.methodOwner? scope,
    (w.beginFunction scope f).1⟩
  have hquiet : (f.header.parameters.flatMap Parameter.ops).all Op.isQuiet := by simp
  -- Behind the head there are only parameters, and their operations are quiet.
  have h := Machine.sameFunctions_performAll default scope hquiet
    ⟨(w.beginFunction scope f).2, [], [], [d]⟩
  have hleave := Machine.performAll_parameterOps default scope f.header.parameters
    ⟨(w.beginFunction scope f).2, [], [], [d]⟩ d [] rfl
  have hwalk : (Machine.performAll default scope (f.header.parameters.flatMap Parameter.ops)
      ⟨(w.beginFunction scope f).2, [], [], [d]⟩).walk = w.defineFunction scope f :=
    congrArg Machine.walk hleave
  rwa [hwalk] at h

/-- Defining a function leaves the noted types as they are. -/
theorem returned_defineFunction (w : Walk) (scope : Nat) (f : FunctionBody) :
    (w.defineFunction scope f).returned = w.returned := by
  have henter : (w.beginFunction scope f).2.returned =
      ((w.reportTypeParameters f.header.typeParameters).readHint scope f.header.returns).2.returned :=
    Walk.returned_enqueue _ _ _
  rw [(w.sameFunctions_defineFunction scope f).returned, henter,
    (w.sameFunctions_readHint scope _ _).returned]

end Walk

namespace Visit

/-- The symbol that a function becomes where it is defined. -/
def symbol (v : Visit) (f : FunctionBody) : Fqn := (v.walk.bindingPlace v.scope f.header.word.text).2

/-- The type that the annotation of a function gives where it is defined, if it is known there. -/
def annotated (v : Visit) (f : FunctionBody) : Option BindingType :=
  (v.walk.readHint v.scope f.header.returns).1

/-- What a walk knows about the function in a scope is what a visit of the definition found. -/
structure Records (v : Visit) (f : FunctionBody) (w : Walk) (i : Nat) : Prop where
  /-- The function is defined there. -/
  function : v.function? = some f
  /-- The scope is that of its body. -/
  resolves : w.scopes.Resolves f.site i
  /-- The walk knows its symbol and whether its annotation is. -/
  info : ∃ owner, w.scopes.function? i = some ⟨v.symbol f, owner, (v.annotated f).isSome⟩
  /-- The symbol is declared. -/
  declares : w.Declares (v.symbol f)

/-- What a walk knows from a visit is known as long as it is not written anew. -/
theorem Records.mono {v : Visit} {f : FunctionBody} {w w' : Walk} {i : Nat} (h : v.Records f w i)
    (hgrow : w.Grows w') (hfunction : w'.scopes.function? i = w.scopes.function? i) :
    v.Records f w' i :=
  ⟨h.function, h.resolves.mono hgrow.scopes, by rw [hfunction]; exact h.info,
    h.declares.mono hgrow⟩

end Visit

/-! ### What is known behind some visits -/

namespace Walk

/-- Defining a function records in the scope of its body what the definition says, and changes
nothing about other functions. -/
theorem Stands.function?_defineFunction {S : List Opening} {s : Site} {i : Nat} {e : Option Nat}
    {w : Walk} (h : w.Stands S s i e) {f : FunctionBody} (hf : f.header.opening s ∈ S) :
    ∃ j owner, (w.defineFunction i f).scopes.Resolves f.site j ∧
      ∀ j', (w.defineFunction i f).scopes.function? j' =
        if j = j' then some ⟨(w.bindingPlace i f.header.word.text).2, owner,
          (w.readHint i f.header.returns).1.isSome⟩
        else w.scopes.function? j' := by
  -- Between the head and the end of the definition only parameters are declared.
  let read := (w.reportTypeParameters f.header.typeParameters).readHint i f.header.returns
  let place := w.bindingPlace i f.header.word.text
  let inner := (read.2.enterFunction i f place read.1).1
  have hsame := w.sameFunctions_defineFunction i f
  have hinner : (w.beginFunction i f).2.scopes.Resolves f.site inner :=
    byNode_enterFunction _ _ _ _ _
  have hlt : inner < (w.beginFunction i f).2.scopes.size :=
    (h.beginFunction hf).mirrors.lt_of_resolves hinner
  refine ⟨inner, (read.2.definedInfo i f.header place read.1).owner, hinner.mono hsame.scopes,
    fun j' => ?_⟩
  have henter : (w.beginFunction i f).2.scopes.function? j' = _ :=
    function?_enterFunction read.2 i f place read.1 j'
  rw [hsame.function? j', henter, (w.sameFunctions_readHint i _ _).function? j',
    ← w.fst_readHint_reportTypeParameters i f.header.typeParameters]
  by_cases hj : inner = j'
  · rw [if_pos ⟨hj, hj ▸ hlt⟩, if_pos hj]
    rfl
  · rw [if_neg fun hj' => hj hj'.1, if_neg hj]

/-- Behind a definition its symbol is declared. -/
theorem declares_defineFunction (w : Walk) (scope : Nat) (f : FunctionBody) :
    (w.defineFunction scope f).Declares (w.bindingPlace scope f.header.word.text).2 := by
  refine Declares.mono ?_ (w.sameFunctions_defineFunction scope f).toGrows
  rw [Declares, beginFunction, symbols_enterFunction]
  exact declares_declare _ _

/-- Between two walks, some definitions of functions are visited, and what is known about functions
changes only by them. -/
structure Recorded (vs : List Visit) (w w' : Walk) : Prop where
  /-- Nothing is taken back. -/
  grows : w.Grows w'
  /-- About any other function the same is known. -/
  kept : ∀ i, w'.scopes.function? i = w.scopes.function? i ∨ ∃ v ∈ vs, ∃ f, v.Records f w' i
  /-- About a function that is visited something else is known. -/
  visited : ∀ v ∈ vs, ∀ f, v.function? = some f →
    ∃ i, w'.scopes.Resolves f.site i ∧ ∃ v' ∈ vs, ∃ g, v'.Records g w' i

namespace Recorded

/-- If nothing is changed about functions, nothing needs to be visited. -/
theorem of_sameFunctions {w w' : Walk} (h : w.SameFunctions w') : Recorded [] w w' :=
  ⟨h.toGrows, fun i => .inl (h.function? i), nofun⟩

/-- What is known behind the first visits stays known unless the others visit the function. -/
theorem append {w w' w'' : Walk} {vs vs' : List Visit} (h : Recorded vs w w')
    (h' : Recorded vs' w' w'') : Recorded (vs ++ vs') w w'' := by
  -- What the first visits recorded is kept by the second ones or written anew by them.
  have hmono {i : Nat} (hi : ∃ v ∈ vs, ∃ f, v.Records f w' i) :
      ∃ v ∈ vs ++ vs', ∃ f, v.Records f w'' i := by
    rcases h'.kept i with hsame | ⟨v, hv, hrecords⟩
    · obtain ⟨v, hv, f, hrecords⟩ := hi
      exact ⟨v, List.mem_append_left _ hv, f, hrecords.mono h'.grows hsame⟩
    · exact ⟨v, List.mem_append_right _ hv, hrecords⟩
  refine ⟨h.grows.trans h'.grows, fun i => ?_, fun v hv f hf => ?_⟩
  · rcases h'.kept i with hsame | ⟨v, hv, hrecords⟩
    · exact (h.kept i).imp hsame.trans hmono
    · exact .inr ⟨v, List.mem_append_right _ hv, hrecords⟩
  · rcases List.mem_append.1 hv with hv | hv
    · obtain ⟨i, hi, hrecords⟩ := h.visited v hv f hf
      exact ⟨i, hi.mono h'.grows.scopes, hmono hrecords⟩
    · obtain ⟨i, hi, v', hv', hrecords⟩ := h'.visited v hv f hf
      exact ⟨i, hi, v', List.mem_append_right _ hv', hrecords⟩

/-- A definition of a function records one visit. -/
theorem defineFunction {S : List Opening} {s : Site} {i : Nat} {e : Option Nat} {w : Walk}
    (h : w.Stands S s i e) {f : FunctionBody} (hf : f.header.opening s ∈ S) :
    Recorded [⟨.function f.header f.body, i, w⟩] w (w.defineFunction i f) := by
  obtain ⟨j, owner, hj, hfunction⟩ := h.function?_defineFunction hf
  have hrecords : (⟨.function f.header f.body, i, w⟩ : Visit).Records f (w.defineFunction i f) j :=
    ⟨rfl, hj, ⟨owner, by rw [hfunction, if_pos rfl]; rfl⟩, w.declares_defineFunction i f⟩
  refine ⟨(w.grows_beginFunction i f).trans (w.sameFunctions_defineFunction i f).toGrows,
    fun j' => ?_, ?_⟩
  -- The definition writes down its own function and no other.
  · rw [hfunction]
    split
    · rename_i hj'
      exact .inr ⟨_, List.mem_singleton_self _, f, hj' ▸ hrecords⟩
    · exact .inl rfl
  · intro v hv g hg
    obtain rfl := List.mem_singleton.1 hv
    obtain rfl := Option.some.inj hg
    exact ⟨j, hj, _, List.mem_singleton_self _, _, hrecords⟩

end Recorded

end Walk

/-! ### Return statements -/

/-- Evaluating an expression changes nothing of what is known about functions. -/
theorem sameFunctions_eval (scope : Nat) (e : Expr) (w : Walk) :
    w.SameFunctions (eval scope e w).2 := by
  have h := Machine.sameFunctions_performAll default scope (quiet_of_inner e.inner_ops)
    ⟨w, [], [], []⟩
  rwa [Machine.performAll_ops] at h

/-- Assigning to a target changes nothing of what is known about functions. -/
theorem sameFunctions_assign (scope : Nat) (type : BindingType) (t : Target) (w : Walk) :
    w.SameFunctions (assign scope type t w) := by
  have h := Machine.sameFunctions_performAll default scope (quiet_of_inner t.inner_assignOps)
    ⟨w, [.ofType type], [], []⟩
  rwa [Machine.performAll_assignOps] at h

/-- Reading a class up to its body changes nothing about functions. -/
theorem Walk.Stands.sameFunctions_defineClass {S : List Opening} {s : Site} {i : Nat}
    {e : Option Nat} {w : Walk} (h : w.Stands S s i e) (header : ClassHeader) :
    w.SameFunctions (w.defineClass i header (w.bindingPlace i header.word.text)).2 := by
  obtain ⟨d, -, hhead⟩ := Machine.run_classHead default header ⟨w, [], [], []⟩ h.resolves
  have hsame := Machine.sameFunctions_run default (quiet_classHead s header) ⟨w, [], [], []⟩
  rwa [hhead] at hsame

/-- A return reads its value, if it has one, and then notes the type of it. -/
theorem exists_visit_returns (context : ImportContext) (scope : Nat) (value : Option Expr)
    (w : Walk) : ∃ read type, w.SameFunctions read ∧
      visit context scope (.returns value) w = read.noteReturn scope type ∧
      (⟨.returns value, scope, w⟩ : Visit).returned? = some (value, type) := by
  cases value with
  | none => exact ⟨w, _, .refl w, rfl, rfl⟩
  | some value => exact ⟨_, _, sameFunctions_eval scope value w, rfl, rfl⟩

/-- A return changes nothing of what is known about functions. -/
theorem Walk.Recorded.returns (context : ImportContext) (scope : Nat) (value : Option Expr)
    (w : Walk) : Recorded [⟨.returns value, scope, w⟩] w (visit context scope (.returns value) w) := by
  obtain ⟨read, type, hsame, hvisit, -⟩ := exists_visit_returns context scope value w
  rw [hvisit]
  refine ⟨hsame.toGrows.trans (.noteReturn _ _ _), fun i => .inl ?_, fun v hv f hf => ?_⟩
  · rw [scopes_noteReturn, hsame.function?]
  · obtain rfl := List.mem_singleton.1 hv
    cases hf

/-- A return notes its type for the function around it. -/
theorem Walk.Stands.returned_visit_returns {S : List Opening} {s : Site} {i e : Nat} {w : Walk}
    (h : w.Stands S s i (some e)) (context : ImportContext) (value : Option Expr) :
    (Python.visit context i (.returns value) w).returned.get? e =
      (⟨.returns value, i, w⟩ : Visit).returned?.map Prod.snd := by
  obtain ⟨read, type, hsame, hvisit, hreturned⟩ := exists_visit_returns context i value w
  have hread : read.scopes.enclosingFunction? i = some e :=
    (hsame.scopes.enclosingFunction?_eq (h.mirrors.lt_of_resolves h.resolves)).trans h.enclosing
  rw [hvisit, hreturned, Walk.noteReturn, hread, Table.get?_insert, if_pos rfl]
  rfl

/-! ### Reading statements by visits -/

/-- `Traced S e w vs w'` says that a walk gets from `w` to `w'` in the code of the function `e` by
some visits of definitions and returns, and between them by nothing that concerns functions. -/
inductive Traced (context : ImportContext) (S : List Opening) (e : Option Nat) :
    Walk → List Visit → Walk → Prop
  /-- Nothing concerns functions. -/
  | quiet {w w' : Walk} (h : w.SameFunctions w') : Traced context S e w [] w'
  /-- A function is defined. -/
  | function {s : Site} {i : Nat} {w : Walk} {f : FunctionBody} (h : w.Stands S s i e)
      (hf : f.header.opening s ∈ S) :
      Traced context S e w [⟨.function f.header f.body, i, w⟩] (w.defineFunction i f)
  /-- A value is returned, or nothing. -/
  | returns {s : Site} {i : Nat} {w : Walk} {value : Option Expr} (h : w.Stands S s i e) :
      Traced context S e w [⟨.returns value, i, w⟩] (visit context i (.returns value) w)
  /-- One after the other. -/
  | append {w w' w'' : Walk} {vs vs' : List Visit} (h : Traced context S e w vs w')
      (h' : Traced context S e w' vs' w'') : Traced context S e w (vs ++ vs') w''

namespace Traced

variable {context : ImportContext} {S : List Opening} {e : Option Nat} {w w' : Walk}
  {vs : List Visit}

/-- Behind some visits it is known about functions what the visits found. -/
theorem recorded (h : Traced context S e w vs w') : Walk.Recorded vs w w' := by
  induction h with
  | quiet h => exact .of_sameFunctions h
  | function h hf => exact .defineFunction h hf
  | returns h => exact .returns _ _ _ _
  | append _ _ ih ih' => exact ih.append ih'

/-- Behind some visits the type noted for the function is that of the last return. -/
theorem returned {i : Nat} (h : Traced context S (some i) w vs w') :
    w'.returned.get? i =
      ((vs.filterMap Visit.returned?).getLast?.map Prod.snd).or (w.returned.get? i) := by
  induction h with
  | quiet h => rw [h.returned]; rfl
  | function h hf => rw [Walk.returned_defineFunction]; rfl
  | @returns s j w value h =>
    obtain ⟨read, type, -, -, hreturned⟩ := exists_visit_returns context j value w
    rw [h.returned_visit_returns, List.filterMap_cons, hreturned]
    rfl
  | append _ _ ih ih' =>
    rw [ih', ih, List.filterMap_append, List.getLast?_append, Option.map_or, Option.or_assoc]

end Traced

variable (context : ImportContext) {S : List Opening} {e : Option Nat}

/-- A statement that neither holds statements nor concerns functions is read quietly. -/
theorem traced_of_quiet {st : Stmt} {s : Site} {i : Nat} {w : Walk} (h : w.Stands S s i e)
    (hquiet : Quiet (st.code s)) : Traced context S e w [] (visit context i st w) := by
  have hsame := Machine.sameFunctions_run context hquiet ⟨w, [], [], []⟩
  rw [Machine.run_code context st _ h.resolves] at hsame
  exact .quiet hsame

mutual

/-- Reading a statement visits the definitions and returns in it. -/
theorem traced_visit (hS : ∀ d ∈ S, ∀ d' ∈ S, d.node = d'.node → d = d') :
    ∀ (st : Stmt) {s : Site} {i : Nat} {w : Walk}, w.Stands S s i e → st.openings s ⊆ S →
      Traced context S e w (st.visits context i w) (visit context i st w)
  -- The cases follow the syntax; simple statements are quiet.
  | .function header body, s, i, w, h, hst =>
    Traced.function (f := ⟨header, body⟩) h (hst List.mem_cons_self)
  | .returns value, s, i, w, h, _ => .returns h
  | .block body, s, i, w, h, hst => traced_visitAll hS body h hst
  | .caught value between target, s, i, w, h, hst => by
    have hbetween := traced_visitAll hS between (h.eval value) hst
    have htarget : (visitAll context i between (eval i value w).2).SameFunctions
        (visit context i (.caught value between target) w) := by
      cases target with
      | none => exact .refl _
      | some target => exact sameFunctions_assign i _ target _
    have htraced := ((Traced.quiet (sameFunctions_eval i value w)).append hbetween).append
      (.quiet htarget)
    rwa [List.nil_append, List.append_nil] at htraced
  | .class header body, s, i, w, h, hst => by
    let inner := w.defineClass i header (w.bindingPlace i header.word.text)
    have hbody := traced_visitAll hS body (h.defineClass hS (hst List.mem_cons_self))
      fun o ho => hst (List.mem_cons_of_mem _ ho)
    have hname : (visitAll context inner.1 body inner.2).SameFunctions
        (visit context i (.class header body) w) := .bind _ _ _ _
    have htraced := ((Traced.quiet (h.sameFunctions_defineClass header)).append hbody).append
      (.quiet hname)
    rwa [List.nil_append, List.append_nil] at htraced
  | .simple items, s, i, w, h, _ => traced_of_quiet context h (quiet_actions (by simp))
  | .imports wildcard bindings, s, i, w, h, _ =>
    traced_of_quiet context h (quiet_actions (by simp [Op.isQuiet]))
  | .globals names, s, i, w, h, _ | .nonlocals names, s, i, w, h, _ =>
    traced_of_quiet context h (quiet_actions (by simp [Op.isQuiet]))
  | .unsupported _ _, s, i, w, h, _ => traced_of_quiet context h (quiet_actions rfl)

/-- Reading some statements visits the definitions and returns in them. -/
theorem traced_visitAll (hS : ∀ d ∈ S, ∀ d' ∈ S, d.node = d'.node → d = d') :
    ∀ (body : List Stmt) {s : Site} {i : Nat} {w : Walk}, w.Stands S s i e →
      openingsOf s body ⊆ S →
      Traced context S e w (visitsOf context i body w) (visitAll context i body w)
  | [], _, _, w, _, _ => .quiet (.refl w)
  | st :: rest, s, i, w, h, hbody => by
    have hst : st.openings s ⊆ S := fun o ho => hbody (List.mem_append_left _ ho)
    exact (traced_visit hS st h hst).append
      (traced_visitAll hS rest (h.visit context hst) fun o ho => hbody (List.mem_append_right _ ho))

end

end NameAtlas.Python
