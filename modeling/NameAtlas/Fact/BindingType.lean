import NameAtlas.Fqn

/-!
# Types of bindings

The approximate static type of a binding: a declared or imported symbol, a built-in scalar, a
failed inference with what was tried, or nothing known.
-/

namespace NameAtlas

/-- Why the type of a call could not be inferred. -/
inductive FailureReason where
  /-- The callee names something that the file does not declare. -/
  | callNotDeclared
  /-- The callee names nothing that could be found. -/
  | callNotFound
  deriving DecidableEq, Repr, Inhabited

namespace FailureReason

/-- The written name. -/
def name : FailureReason → String
  | .callNotDeclared => "call_not_declared"
  | .callNotFound => "call_not_found"

/-- Every reason. -/
def all : List FailureReason := [.callNotDeclared, .callNotFound]

/-- The reason with a written name. -/
def ofName? (s : String) : Option FailureReason := all.find? fun r => r.name = s

/-- The classification that stands in the display form of a type. -/
def label : FailureReason → String
  | .callNotDeclared => "CALL/NOT_DECLARED"
  | .callNotFound => "CALL/NOT_FOUND"

/-- Reading accepts exactly what writing produces. -/
theorem ofName?_eq_some_iff {s : String} {r : FailureReason} :
    ofName? s = some r ↔ s = r.name := by
  constructor
  · intro h
    have := List.find?_some h
    simpa using (of_decide_eq_true this).symm
  · rintro rfl
    cases r <;> rfl

end FailureReason

/-- The type of a binding, as far as it is known. -/
inductive BindingType where
  /-- A symbol, usually a class. -/
  | resolved (fqn : Fqn)
  /-- A built-in scalar. -/
  | primitive (name : String)
  /-- Inference was tried on a text and failed. -/
  | error (reason : FailureReason) (attempted : String)
  /-- No information. -/
  | unknown
  deriving DecidableEq, Repr, Inhabited

namespace BindingType

/-- True for symbols and scalars. -/
def isKnown : BindingType → Bool
  | .resolved _ | .primitive _ => true
  | .error _ _ | .unknown => false

/-- The symbol of a type that is one. -/
def fqn? : BindingType → Option Fqn
  | .resolved f => some f
  | _ => none

/-- The type if it is known. -/
def known? (t : BindingType) : Option BindingType := if t.isKnown then some t else none

/-- The type of the literal `None`. -/
def noneType : BindingType := .primitive "None"

/-- The display form. -/
def render : BindingType → String
  | .resolved f => f.render
  | .primitive name => name
  | .error reason attempted => s!"ERR/{reason.label}/{attempted}"
  | .unknown => "?"

end BindingType

end NameAtlas
