import NameAtlas.Proofs.Reading.Coverage
import NameAtlas.Proofs.Walk.Bodies

/-!
# The functions of a tree

Every function in what is read from a tree is defined by a node of the tree: a function definition
that means the function, besides the mark of a static method (`exists_definition_of_reaches`). The
proof goes through the statements that hold others and finds the function in one of their parts.
-/

namespace NameAtlas.Python

open Source (Node SourceText)

/-- The functions in some code are those of its statements. -/
theorem allFunctionsOf_eq_flatMap (body : List Stmt) :
    allFunctionsOf body = body.flatMap Stmt.allFunctions := by
  induction body with
  | nil => rfl
  | cons st rest ih => rw [allFunctionsOf, ih, List.flatMap_cons]

namespace Part

/-- Whatever is kept for later, what is gathered from the statements of an `except` clause is
gathered from its parts in their order. -/
theorem flatMap_exceptBody {α : Type} (g : Stmt → List α)
    (hg : ∀ value between target, g (.caught value between target) = between.flatMap g)
    (pending : Option (Expr × List Stmt)) (ps : List Part) :
    (exceptBody pending ps).flatMap g =
      (pending.map fun kept => kept.2.flatMap g).getD [] ++
        ps.flatMap fun c => (c.exceptStmt?.map g).getD [] := by
  induction ps generalizing pending with
  | nil => rcases pending with _ | ⟨value, between⟩ <;> simp [exceptBody, hg]
  | cons c rest ih =>
    cases hs : c.exceptStmt? <;> rcases pending with _ | ⟨value, between⟩ <;>
      simp [exceptBody, hs, ih, hg]

/-- True if a part is the definition of a function, which is marked static or not. -/
def Means (f : FunctionBody) (p : Part) : Prop :=
  p.kind = "function_definition" ∧
    p.functionStmt = .function { f.header with isStatic := false } f.body

/-- A function has the node of its definition. -/
theorem Means.node_eq {f : FunctionBody} {p : Part} (h : p.Means f) : f.header.node = p.info.id := by
  obtain ⟨-, hstmt⟩ := h
  rw [functionStmt] at hstmt
  split at hstmt
  · rw [show p.info.id = _ from congrArg FunctionHeader.node (Stmt.function.inj hstmt).1]
  · cases hstmt

/-- True if a function is defined by a part or below it. -/
inductive Defines (f : FunctionBody) : Part → Prop where
  /-- By the part itself. -/
  | here {p : Part} (h : p.Means f) : Defines f p
  /-- Below the part. -/
  | child {p c : Part} (hc : c ∈ p.children) (h : Defines f c) : Defines f p

/-- A part that defines the functions in its statement. -/
def DefinesAll (p : Part) : Prop := ∀ f ∈ p.meaning.stmt.allFunctions, Defines f p

/-- Everything below the part has been read and defines the functions in its statements. -/
def DefinesBelow (p : Part) : Prop := ∀ c ∈ p.children, c.All DefinesAll

variable {p : Part} {f : FunctionBody}

/-- A function that differs only in being static is defined by the same part. -/
theorem Defines.congr {g : FunctionBody} (h : Defines f p)
    (hheader : { f.header with isStatic := false } = { g.header with isStatic := false })
    (hbody : f.body = g.body) : Defines g p := by
  induction h with
  | here h => exact .here ⟨h.1, by rw [h.2, hheader, hbody]⟩
  | child hc _ ih => exact .child hc ih

/-- Marking a definition static changes the function, but not where it is defined. -/
theorem defines_of_markStatic {st : Stmt} (h : ∀ f ∈ st.allFunctions, Defines f p)
    (hf : f ∈ (markStatic st).allFunctions) : Defines f p := by
  cases st with
  | function header body =>
    rcases List.mem_cons.1 hf with rfl | hf
    · exact (h ⟨header, body⟩ List.mem_cons_self).congr rfl rfl
    · exact h f (List.mem_cons_of_mem _ hf)
  | _ => exact h f hf

namespace DefinesBelow

/-- What all parts below define is defined below. -/
theorem of_all {c : Part} (hc : c.All DefinesAll) : c.DefinesBelow := fun _ => hc.child

/-- A function in the code of a part is defined by the part. -/
theorem body (hp : p.DefinesBelow) (hf : f ∈ allFunctionsOf p.body) : Defines f p := by
  rw [allFunctionsOf_eq_flatMap] at hf
  obtain ⟨st, hst, hf⟩ := List.mem_flatMap.1 hf
  obtain ⟨c, hc, rfl⟩ := List.mem_map.1 hst
  exact .child (mem_children_of_named hc) ((hp c (mem_children_of_named hc)).self f hf)

/-- A function in the code of a field is defined by the part. -/
theorem bodyField (hp : p.DefinesBelow) {name : String}
    (hf : f ∈ allFunctionsOf (p.bodyField name)) : Defines f p := by
  rw [Part.bodyField] at hf
  cases h : p.field? name with
  | none =>
    rw [h] at hf
    cases hf
  | some c =>
    rw [h] at hf
    have hc := mem_children_of_field? h
    exact .child hc ((of_all (hp c hc)).body hf)

/-- A function definition defines its function and those in its body. -/
theorem functionStmt (hp : p.DefinesBelow) (hkind : p.kind = "function_definition")
    (hf : f ∈ p.functionStmt.allFunctions) : Defines f p := by
  cases hname : p.field? "name" with
  | none =>
    rw [Part.functionStmt, hname] at hf
    cases hf
  | some name =>
    have hstmt := hf
    rw [Part.functionStmt, hname] at hstmt
    rcases List.mem_cons.1 hstmt with rfl | hbody
    · exact .here ⟨hkind, by rw [Part.functionStmt, hname]⟩
    · exact hp.bodyField hbody

/-- A class definition defines the functions in its body. -/
theorem classStmt (hp : p.DefinesBelow) (hf : f ∈ p.classStmt.allFunctions) : Defines f p := by
  rw [Part.classStmt] at hf
  split at hf
  · exact hp.bodyField hf
  · cases hf

/-- A decorated definition defines what the definition in it does. -/
theorem decoratedStmt (hp : p.DefinesBelow) (hf : f ∈ p.decoratedStmt.allFunctions) :
    Defines f p := by
  rw [Part.decoratedStmt] at hf
  cases hfield : p.field? "definition" with
  | none =>
    rw [hfield] at hf
    cases hf
  | some d =>
    have hd := mem_children_of_field? hfield
    rw [hfield] at hf
    simp only [Stmt.allFunctions, allFunctionsOf, List.nil_append, List.append_nil] at hf
    refine .child hd ?_
    -- A decorator can only make the function static, which `Defines` does not look at.
    split at hf
    · exact defines_of_markStatic (hp d hd).self hf
    · exact (hp d hd).self f hf

/-! ### Clauses -/

/-- An alternative defines the functions in it. -/
theorem alternative (hp : p.DefinesBelow) (hf : f ∈ p.alternative.allFunctions) :
    Defines f p := by
  rw [Part.alternative] at hf
  split at hf
  · exact hp.bodyField hf
  · exact hp.bodyField hf

/-- The code behind a loop defines the functions in it. -/
theorem loopElse (hp : p.DefinesBelow) (hf : f ∈ allFunctionsOf p.loopElse) : Defines f p := by
  rw [Part.loopElse] at hf
  cases hfield : p.field? "alternative" with
  | none =>
    rw [hfield] at hf
    cases hf
  | some a =>
    have ha := mem_children_of_field? hfield
    rw [hfield] at hf
    exact .child ha ((of_all (hp a ha)).bodyField hf)

/-- An `except` clause defines the functions in it. -/
theorem exceptStmt? {st : Stmt} (hp : p.DefinesBelow) (h : p.exceptStmt? = some st)
    (hf : f ∈ st.allFunctions) : Defines f p := by
  rw [Part.exceptStmt?] at h
  split at h
  · obtain rfl := Option.some.inj h
    exact hp.body hf
  · obtain rfl := Option.some.inj h
    rw [caughtAs] at hf
    split at hf <;> cases hf
  · cases h

/-- The clauses of a `try` statement define the functions in them. -/
theorem exceptBody (hp : p.DefinesBelow) (hf : f ∈ allFunctionsOf (Part.exceptBody none p.named)) :
    Defines f p := by
  -- Statements between the clauses are passed over one by one, so each child stands for itself.
  rw [allFunctionsOf_eq_flatMap,
    flatMap_exceptBody _ fun _ between _ => allFunctionsOf_eq_flatMap between] at hf
  obtain ⟨c, hc, hf⟩ := List.mem_flatMap.1 hf
  have hc := mem_children_of_named hc
  cases hs : c.exceptStmt? with
  | none =>
    rw [hs] at hf
    cases hf
  | some st =>
    rw [hs] at hf
    exact .child hc ((of_all (hp c hc)).exceptStmt? hs hf)

/-- A clause of a `try` statement defines the functions in it. -/
theorem tryClause (hp : p.DefinesBelow) (hf : f ∈ p.tryClause.allFunctions) : Defines f p := by
  rw [Part.tryClause] at hf
  -- The cases are the kinds of clauses: the handlers, the code behind them, and blocks.
  split at hf
  · exact hp.body hf
  · exact hp.exceptBody hf
  · exact hp.exceptBody hf
  · exact hp.bodyField hf
  · rw [Stmt.allFunctions, allFunctionsOf_eq_flatMap, List.flatMap_map] at hf
    obtain ⟨b, hb, hf⟩ := List.mem_flatMap.1 hf
    have hb := mem_children_of_named (List.mem_filter.1 hb).1
    exact .child hb ((of_all (hp b hb)).body hf)
  · cases hf

/-- What a node means as a statement holds functions that the node defines, if that is true of its
children. -/
theorem toStmt (hp : p.DefinesBelow) (hf : f ∈ p.toStmt.allFunctions) : Defines f p := by
  rw [Part.toStmt] at hf
  split at hf
  case h_2 hkind => exact hp.functionStmt hkind hf
  case h_3 => exact hp.classStmt hf
  case h_4 => exact hp.decoratedStmt hf
  -- `if`, `while`, `for`, `try` and `with`.
  case h_12 =>
    simp only [Stmt.allFunctions, allFunctionsOf, readField, List.nil_append, List.mem_append] at hf
    rcases hf with hf | hf
    · exact hp.bodyField hf
    · rw [allFunctionsOf_eq_flatMap, List.flatMap_map] at hf
      obtain ⟨c, hc, hf⟩ := List.mem_flatMap.1 hf
      have hc := mem_children_of_fields hc
      exact .child hc ((of_all (hp c hc)).alternative hf)
  case h_13 =>
    simp only [Stmt.allFunctions, allFunctionsOf, readField, List.nil_append, List.append_nil,
      List.mem_append] at hf
    exact hf.elim hp.bodyField hp.loopElse
  case h_14 =>
    simp only [Stmt.allFunctions, allFunctionsOf, readField, List.nil_append, List.append_nil,
      List.mem_append] at hf
    exact hf.elim hp.bodyField hp.loopElse
  case h_15 =>
    rw [Stmt.allFunctions, allFunctionsOf_eq_flatMap, List.flatMap_map] at hf
    obtain ⟨c, hc, hf⟩ := List.mem_flatMap.1 hf
    have hc := mem_children_of_named hc
    exact .child hc ((of_all (hp c hc)).tryClause hf)
  case h_16 =>
    simp only [Stmt.allFunctions, allFunctionsOf, List.nil_append, List.append_nil] at hf
    exact hp.bodyField hf
  -- The other statements hold no statements.
  all_goals exact absurd hf List.not_mem_nil

end DefinesBelow

/-- Every part of a node defines the functions in it. -/
theorem all_definesAll_ofNode (source : SourceText) (n : Node) : (ofNode source n).All DefinesAll := by
  refine all_ofNode (fun info children hchildren f hf => ?_) n
  -- The statement of a node is read off the node before its own meaning is known.
  have h := DefinesBelow.toStmt (p := .mk info
    ⟨source.slice info.start info.stop, source.location info.start info.stop⟩ default children)
    hchildren hf
  cases h with
  | here h => exact .here h
  | child hc h => exact .child hc h

/-- What is defined in a tree is defined by one of its nodes. -/
theorem exists_mem_subtrees_of_defines {source : SourceText} {n : Node}
    (h : Defines f (ofNode source n)) : ∃ d ∈ n.subtrees, (ofNode source d).Means f := by
  generalize hp : ofNode source n = p at h
  induction h generalizing n with
  | here h => exact ⟨n, n.self_mem_subtrees, hp ▸ h⟩
  | child hc h ih =>
    rw [← hp, children_ofNode] at hc
    obtain ⟨m, hm, rfl⟩ := List.mem_map.1 hc
    obtain ⟨d, hd, hmeans⟩ := ih rfl
    exact ⟨d, Node.subtrees_subset_of_mem_children hm hd, hmeans⟩

end Part

/-- Every function that a walk over a module meets is defined by a node of the tree. -/
theorem exists_definition_of_reaches {source : SourceText} {tree : Node} {f : FunctionBody}
    (h : (Module.ofTree source tree).Reaches f) :
    ∃ d ∈ tree.subtrees, (Part.ofNode source d).Means f :=
  Part.exists_mem_subtrees_of_defines
    ((Part.DefinesBelow.of_all (Part.all_definesAll_ofNode source tree)).body
      (Module.mem_allFunctions_of_reaches h))

end NameAtlas.Python
