import NameAtlas.Proofs.Walk.OpClass
import NameAtlas.Source.Text

/-!
# Operations that take what they have from a source

The operations that read a source carry words, types of literals and names that imports bind. Which
words and names these are is said of each operation (`Op.Takes`), and the types of literals name no
symbol. The operations that take what they have from a source are a class (`takesClass`). They are
faithful if the words are the texts at their places (`Op.Faithful`).
-/

namespace NameAtlas.Python

open Source

/-- True for a word that the source has at its place. -/
def Word.Faithful (source : SourceText) (w : Word) : Prop :=
  w.text = source.slice w.location.span.start w.location.span.stop

/-- True for an operation whose words are of `W` and whose imports bind names of `I`. -/
def Op.Takes (W : Word → Prop) (I : ImportBinding → Prop) : Op → Prop
  | .readName word | .readMember word | .assignMember word | .keepMember word | .bindName word
  | .place _ word | .parameter word | .leaveClass word => W word
  | .enterFunction f => W f.header.word
  | .enterClass h => W h.word
  | .constant type => type.fqn? = none
  | .combine outcome => outcome.Faithful
  | .bindImport b => I b
  | _ => True

/-- True for an operation whose words are those of a source and whose imports bind names of `I`. -/
def Op.Faithful (source : SourceText) (I : ImportBinding → Prop) (op : Op) : Prop :=
  op.Takes (Word.Faithful source) I

/-- True if some operations take their words from `W` and their imports from `I`. -/
def Takes (W : Word → Prop) (I : ImportBinding → Prop) (ops : List Op) : Prop :=
  ∀ op ∈ ops, op.Takes W I

variable {source : SourceText} {W : Word → Prop} {I : ImportBinding → Prop}

/-- A faithful operation stays so if more is imported. -/
theorem Op.Faithful.mono {I' : ImportBinding → Prop} {op : Op} (h : op.Faithful source I)
    (hI : ∀ b, I b → I' b) : op.Faithful source I' := by
  cases op with
  | bindImport b => exact hI b h
  | _ => exact h

/-- The operations that take their words from `W` and their imports from `I`. -/
def takesClass (W : Word → Prop) (I : ImportBinding → Prop) : OpClass where
  Has op := op.Takes W I
  bare op h := by cases op <;> trivial
  constant _ h := h
  combine _ h := h
  markStatic _ _ h := h

end NameAtlas.Python
