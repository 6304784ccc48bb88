import NameAtlas.Python.Syntax

/-!
# The words that syntax reads

The names and members that a piece of syntax refers to, each where it is written (`words`). Code in
the body of a definition refers from the body, all other code from where it stands, so a statement
lies within a span if the words of each scope lie within the span of the code that defines the
scope, and these spans within one another (`Stmt.Within`).
-/

namespace NameAtlas

/-- What lies within a part of a span lies within the span. -/
theorem Span.contains_trans {a b c : Span} (hab : a.contains b) (hbc : b.contains c) :
    a.contains c := by
  simp only [contains, Bool.and_eq_true, decide_eq_true_eq] at *
  omega

/-- A span lies within itself. -/
theorem Span.contains_self (a : Span) : a.contains a := by
  simp [contains]

namespace Python

/-- True for words that stand in a span. -/
def Word.Within (sp : Span) (w : Word) : Prop := sp.contains w.location.span

mutual

/-- The words that an expression reads. -/
def Expr.words : Expr → List Word
  | .name word => [word]
  | .attribute object member => object.words ++ [member]
  | .call callee _ arguments => callee.words ++ wordsOf arguments
  | .compound parts _ => wordsOf parts
  | .walrus value _ => value.words
  | .unsupported _ _ => []

/-- The words that some expressions read. -/
def wordsOf : List Expr → List Word
  | [] => []
  | e :: rest => e.words ++ wordsOf rest

end

/-- The words of some expressions are those of each, one after the other. -/
theorem wordsOf_eq_flatMap (es : List Expr) : wordsOf es = es.flatMap Expr.words := by
  induction es with
  | nil => rfl
  | cons e rest ih => rw [wordsOf, ih, List.flatMap_cons]

/-- The words that an annotation reads. -/
def hintWords : Option TypeHint → List Word
  | some (.form _ reads) => wordsOf reads
  | _ => []

mutual

/-- The words of a target, which are read if it is combined with a value. -/
def Target.words : Target → List Word
  | .name word => [word]
  | .attribute object member => object.words ++ [member]
  | .element read => read.words
  | .pattern targets => targetWords targets
  | .unsupported _ _ => []

/-- The words of some targets. -/
def targetWords : List Target → List Word
  | [] => []
  | t :: rest => t.words ++ targetWords rest

end

/-- The words of some targets are those of each, one after the other. -/
theorem targetWords_eq_flatMap (ts : List Target) : targetWords ts = ts.flatMap Target.words := by
  induction ts with
  | nil => rfl
  | cons t rest ih => rw [targetWords, ih, List.flatMap_cons]

/-- The words of targets and of the values that they are assigned. -/
def pairWords (pairs : List (Target × Expr)) : List Word :=
  pairs.flatMap fun pair => pair.2.words ++ pair.1.words

/-- The words of an assignment. -/
def Assignment.words : Assignment → List Word
  | .plain hint target value => hintWords hint ++ value.words ++ target.words
  | .unpack hint pairs => hintWords hint ++ pairWords pairs
  | .chained hint target value => hintWords hint ++ value.words ++ target.words

/-- The words of a part of a simple statement. -/
def Item.words : Item → List Word
  | .read value => value.words
  | .assign assignment => assignment.words
  | .augment target value => value.words ++ target.words
  | .bind target => target.words

/-- The words of a default, if there is one. -/
def defaultWords : Option Expr → List Word
  | some e => e.words
  | none => []

/-- The words of a parameter besides its name. -/
def Parameter.words : Parameter → List Word
  | .named _ hint default => hintWords hint ++ defaultWords default
  | .unsupported _ _ _ => []

/-- The words of a function definition outside its body. -/
def FunctionHeader.words (h : FunctionHeader) : List Word :=
  hintWords h.returns ++ h.parameters.flatMap Parameter.words

/-- The words of an argument of a class definition. -/
def ClassArgument.words : ClassArgument → List Word
  | .base value | .keyword value => value.words

/-- The words of a class definition outside its body. -/
def ClassHeader.words (h : ClassHeader) : List Word := h.arguments.flatMap ClassArgument.words

/-- The words of a caught exception and its target. -/
def caughtWords (value : Expr) : Option Target → List Word
  | some target => value.words ++ target.words
  | none => value.words

mutual

/-- True if what a statement reads lies within a span, and what its definitions read within the
spans of the definitions. -/
def Stmt.Within (sp : Span) : Stmt → Prop
  | .simple items => ∀ w ∈ items.flatMap Item.words, w.Within sp
  | .block body => WithinAll sp body
  | .caught value between target =>
    (∀ w ∈ caughtWords value target, w.Within sp) ∧ WithinAll sp between
  | .function header body =>
    (∀ w ∈ header.words, w.Within sp) ∧ sp.contains header.span ∧ WithinAll header.span body
  | .class header body =>
    sp.contains header.span ∧ (∀ w ∈ header.words, w.Within header.span) ∧
      WithinAll header.span body
  | .returns (some value) => ∀ w ∈ value.words, w.Within sp
  | _ => True

/-- True if some statements lie within a span. -/
def WithinAll (sp : Span) : List Stmt → Prop
  | [] => True
  | s :: rest => s.Within sp ∧ WithinAll sp rest

end

/-- A block lies within a span if each of its statements does. -/
theorem withinAll_iff {sp : Span} {body : List Stmt} :
    WithinAll sp body ↔ ∀ s ∈ body, s.Within sp := by
  induction body with
  | nil => simp [WithinAll]
  | cons s rest ih => simp [WithinAll, ih]

mutual

/-- A statement that lies within a span lies within a wider one. -/
theorem Stmt.Within.mono {sp sp' : Span} (h : sp'.contains sp) :
    ∀ s : Stmt, s.Within sp → s.Within sp'
  | .simple _, hs => fun w hw => Span.contains_trans h (hs w hw)
  | .block body, hs => WithinAll.mono h body hs
  | .caught _ between _, hs =>
    ⟨fun w hw => Span.contains_trans h (hs.1 w hw), WithinAll.mono h between hs.2⟩
  | .function _ _, hs =>
    ⟨fun w hw => Span.contains_trans h (hs.1 w hw), Span.contains_trans h hs.2.1, hs.2.2⟩
  | .class _ _, hs => ⟨Span.contains_trans h hs.1, hs.2⟩
  | .returns (some _), hs => fun w hw => Span.contains_trans h (hs w hw)
  | .returns none, _ | .imports _ _, _ | .globals _, _ | .nonlocals _, _ | .unsupported _ _, _ =>
    trivial

/-- What lies within a span lies within the spans around it. -/
theorem WithinAll.mono {sp sp' : Span} (h : sp'.contains sp) :
    ∀ body : List Stmt, WithinAll sp body → WithinAll sp' body
  | [], _ => trivial
  | s :: rest, hb => ⟨Stmt.Within.mono h s hb.1, WithinAll.mono h rest hb.2⟩

end

end Python

end NameAtlas
