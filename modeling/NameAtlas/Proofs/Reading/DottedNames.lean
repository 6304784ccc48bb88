import NameAtlas.Proofs.Reading.Coverage
import NameAtlas.Proofs.Text.Split

/-!
# Dotted names as annotations

An annotation that is a name, maybe with names behind dots, means two things: a form, from which its
type is inferred, and an expression, whose reading logs the references. The form is taken from the
text of the node, split at its dots, and the expression from the nodes below it
(`DottedName.expr_eq`). Both hold the same names if nothing but blanks stands around the dots
(`Dotted.dottedForm_eq`); a comment or a line continuation there becomes a part of a name.
-/

namespace NameAtlas.Python

open Source

/-! ### The text of a dotted name -/

/-- A text that writes a name, and names behind dots, with nothing but blanks around the dots. -/
inductive Dotted : List Char → String → List String → Prop where
  /-- A name alone. -/
  | name {first : String} (hfirst : ∀ c ∈ first.toList, c ≠ '.' ∧ Text.isBlank c = false) :
    Dotted first.toList first []
  /-- One more name behind a dot. -/
  | member {text front back : List Char} {first : String} {rest : List String} {name : String}
    (h : Dotted text first rest) (hfront : ∀ c ∈ front, Text.isBlank c = true)
    (hback : ∀ c ∈ back, Text.isBlank c = true)
    (hname : ∀ c ∈ name.toList, c ≠ '.' ∧ Text.isBlank c = false) :
    Dotted (text ++ front ++ '.' :: (back ++ name.toList)) first (rest ++ [name])

/-- A dot is no blank. -/
theorem isBlank_dot : Text.isBlank '.' = false := by decide

/-- A dot is no blank. -/
theorem notMem_blanks {blanks : List Char} (h : ∀ c ∈ blanks, Text.isBlank c = true) :
    '.' ∉ blanks := fun hdot => by
  have hblank := h '.' hdot
  rw [isBlank_dot] at hblank
  cases hblank

/-- A name between blanks is one part of a text, and trimming gives it back. -/
theorem map_trim_splitAt_name {name : String} {front back : List Char}
    (hname : ∀ c ∈ name.toList, c ≠ '.' ∧ Text.isBlank c = false)
    (hfront : ∀ c ∈ front, Text.isBlank c = true) (hback : ∀ c ∈ back, Text.isBlank c = true) :
    (Text.splitAt '.' (front ++ name.toList ++ back)).map Text.trim = [name.toList] := by
  have hdot : '.' ∉ front ++ name.toList ++ back := by
    simp only [List.mem_append, not_or]
    exact ⟨⟨notMem_blanks hfront, fun h => (hname _ h).1 rfl⟩, notMem_blanks hback⟩
  rw [Text.splitAt_of_not_mem hdot, List.map_singleton,
    Text.trim_padded hfront (.of_forall fun c hc => (hname c hc).2) hback]

namespace Dotted

variable {text : List Char} {first : String} {rest : List String}

/-- Split at its dots a dotted name falls into its names, also with blanks behind it. -/
theorem map_trim_splitAt (h : Dotted text first rest) {blanks : List Char}
    (hblanks : ∀ c ∈ blanks, Text.isBlank c = true) :
    (Text.splitAt '.' (text ++ blanks)).map Text.trim = (first :: rest).map String.toList := by
  -- The induction adds names at the end, and each of them brings its own dot.
  induction h generalizing blanks with
  | name hfirst =>
    have hnone : ∀ c ∈ ([] : List Char), Text.isBlank c = true := nofun
    exact map_trim_splitAt_name hfirst hnone hblanks
  | @member text front back first rest name _ hfront hback hname ih =>
    have hsplit : text ++ front ++ '.' :: (back ++ name.toList) ++ blanks =
        (text ++ front) ++ '.' :: (back ++ name.toList ++ blanks) := by
      simp only [List.append_assoc, List.cons_append]
    rw [hsplit, Text.splitAt_append_sep, List.map_append, ih hfront,
      map_trim_splitAt_name hname hback hblanks, ← List.cons_append, List.map_append,
      List.map_singleton]

end Dotted

/-- The form of a name with names behind dots. -/
def pathForm (first : String) : List String → TypeForm
  | [] => .name first
  | name :: rest => .path first (name :: rest)

/-- The form that is read off a dotted name holds its names. -/
theorem Dotted.dottedForm_eq {text first : String} {rest : List String}
    (h : Dotted text.toList first rest) : Part.dottedForm text = pathForm first rest := by
  -- Splitting at the dots and trimming gives the names, with blanks or without.
  have hparts : (Text.splitAt '.' text.toList).map (fun s => String.ofList (Text.trim s)) =
      first :: rest := by
    have hnone : ∀ c ∈ ([] : List Char), Text.isBlank c = true := nofun
    have hsplit := h.map_trim_splitAt hnone
    rw [List.append_nil] at hsplit
    calc (Text.splitAt '.' text.toList).map (fun s => String.ofList (Text.trim s))
        = ((Text.splitAt '.' text.toList).map Text.trim).map String.ofList := by
          rw [List.map_map, Function.comp_def]
      _ = ((first :: rest).map String.toList).map String.ofList := by rw [hsplit]
      _ = first :: rest := by
          simp only [List.map_map, Function.comp_def, String.ofList_toList, List.map_id']
  rw [Part.dottedForm, hparts]
  cases rest <;> rfl

/-! ### The node of a dotted name -/

/-- A node that is a name, or a name behind a dot behind such a node, with the names where they
stand. -/
inductive DottedName (source : SourceText) : Node → Word → List Word → Prop where
  /-- A name alone. -/
  | name {n : Node} (hkind : n.kind = "identifier") :
    DottedName source n (Part.ofNode source n).word []
  /-- A name behind a dot. -/
  | member {n o a : Node} {first : Word} {rest : List Word} (hkind : n.kind = "attribute")
    (ho : n.children.find? (fun c => c.field = "object") = some o)
    (ha : n.children.find? (fun c => c.field = "attribute") = some a)
    (h : DottedName source o first rest) :
    DottedName source n first (rest ++ [(Part.ofNode source a).word])

/-- The expression of a name with names behind dots. -/
def dottedExpr (first : Word) (rest : List Word) : Expr := rest.foldl .attribute (.name first)

namespace DottedName

variable {source : SourceText} {n : Node} {first : Word} {rest : List Word}

/-- Where it is evaluated, a dotted name is the expression of its names. -/
theorem expr_eq (h : DottedName source n first rest) :
    (Part.ofNode source n).meaning.expr = dottedExpr first rest := by
  induction h with
  | name hkind =>
    rw [Part.expr_ofNode, Part.toExpr, Part.kind_ofNode, hkind]
    rfl
  | member hkind ho ha _ ih =>
    rw [Part.expr_ofNode, Part.toExpr, Part.kind_ofNode, hkind]
    simp only [Part.field?_of_find? ha, Part.exprField_of_find? ho, ih]
    rw [dottedExpr, dottedExpr, List.foldl_concat]

/-- A dotted name is an identifier or an attribute. -/
theorem kind_eq (h : DottedName source n first rest) : n.kind = "identifier" ∨ n.kind = "attribute" := by
  cases h with
  | name hkind => exact .inl hkind
  | member hkind _ _ _ => exact .inr hkind

/-- Where it is an annotation, a dotted name reads the expression that it is. -/
theorem hintReads_eq (h : DottedName source n first rest) :
    (Part.ofNode source n).meaning.hintReads = [dottedExpr first rest] := by
  rw [Part.hintReads_ofNode, Part.toHintReads, Part.kind_ofNode, ← h.expr_eq, Part.expr_ofNode]
  rcases h.kind_eq with hkind | hkind
  · rw [hkind]
    rfl
  · rw [hkind]
    rfl

/-- Where it is an annotation, a dotted name with nothing but blanks around its dots has the form of
its names. -/
theorem typeForm_eq (h : DottedName source n first rest)
    (htext : Dotted (Part.ofNode source n).text.toList first.text (rest.map Word.text)) :
    (Part.ofNode source n).meaning.typeForm = some (pathForm first.text (rest.map Word.text)) := by
  rw [Part.typeForm_ofNode, Part.toTypeForm, Part.kind_ofNode]
  cases h with
  | name hkind =>
    rw [hkind]
    rfl
  | member hkind _ _ _ =>
    rw [hkind]
    exact congrArg some htext.dottedForm_eq

end DottedName

/-- A node that says what another one says as an annotation: that node itself, or a type with no
other child. -/
def Annotates (n d : Node) : Prop :=
  n = d ∨ n.kind = "type" ∧ n.children.filter Node.isListed = [d]

/-- An annotation that is a dotted name, with nothing but blanks around its dots, has the form of its
names and reads the expression of its names. -/
theorem hint?_of_annotates {source : SourceText} {n d : Node} {first : Word} {rest : List Word}
    (hn : Annotates n d) (h : DottedName source d first rest)
    (htext : Dotted (Part.ofNode source d).text.toList first.text (rest.map Word.text)) :
    (Part.ofNode source n).hint? =
      some (.form (pathForm first.text (rest.map Word.text)) [dottedExpr first rest]) := by
  -- A hint is the name itself or wraps it in a node of its own.
  rcases hn with rfl | ⟨hkind, hchildren⟩
  · rw [Part.hint?, h.typeForm_eq htext, h.hintReads_eq]
  · have hnamed : (Part.ofNode source n).named = [Part.ofNode source d] := by
      rw [Part.named_ofNode, hchildren, List.map_singleton]
    have hform : (Part.ofNode source n).meaning.typeForm =
        (Part.ofNode source d).meaning.typeForm := by
      rw [Part.typeForm_ofNode, Part.toTypeForm, Part.kind_ofNode, hkind]
      simp only [Part.named, Part.children_ofNode] at hnamed ⊢
      rw [hnamed]
      rfl
    have hreads : (Part.ofNode source n).meaning.hintReads =
        (Part.ofNode source d).meaning.hintReads := by
      rw [Part.hintReads_ofNode, Part.toHintReads, Part.kind_ofNode, hkind]
      simp only [hnamed, List.flatMap_singleton]
    rw [Part.hint?, hform, hreads, h.typeForm_eq htext, h.hintReads_eq]

end NameAtlas.Python
