import NameAtlas.Proofs.SymbolTable

/-!
# Symbol tables by their histories

A symbol table comes about by declaring symbols, changing their types and setting the bases of
classes, in any order (`SymbolTable.ofEdits`). Whatever the order, each symbol stands under its own
name (`keyed_ofEdits`), so the list of the symbols names what the table declares.
-/

namespace NameAtlas.Python.SymbolTable

/-- One operation on a symbol table. -/
inductive Edit where
  /-- A symbol is declared. -/
  | declare (d : Declaration)
  /-- The type of a symbol changes. -/
  | setType (fqn : Fqn) (type : BindingType)
  /-- The direct bases of a class are set. -/
  | setBases (c : Fqn) (bases : List Fqn)
  deriving DecidableEq, Repr

/-- The table behind an operation. -/
def edit (t : SymbolTable) : Edit → SymbolTable
  | .declare d => t.declare d
  | .setType fqn type => t.setType fqn type
  | .setBases c bases => t.setBases c bases

/-- The table behind some operations, the first of them on a table without symbols. -/
def ofEdits (edits : List Edit) : SymbolTable := edits.foldl edit empty

/-- The empty table lists every declaration under its name. -/
theorem keyed_empty : Keyed empty := fun _ _ h => nomatch h

/-- An operation leaves the symbols under their names. -/
theorem Keyed.edit {t : SymbolTable} (h : t.Keyed) (e : Edit) : (t.edit e).Keyed := by
  intro fqn d hd
  cases e with
  | declare new =>
    rw [SymbolTable.edit, get?_declare] at hd
    split at hd
    · next heq =>
      -- The new symbol has this name, and so has the one that it changes.
      cases hold : t.get? new.fqn with
      | none =>
        rw [hold] at hd
        exact Option.some.inj hd ▸ heq.symm
      | some old =>
        rw [hold] at hd
        rw [← Option.some.inj hd, heq]
        exact h new.fqn old hold
    · exact h fqn d hd
  | setType fqn' type =>
    rw [SymbolTable.edit, get?_setType] at hd
    split at hd
    · next heq =>
      obtain ⟨old, hold, rfl⟩ := Option.map_eq_some_iff.1 hd
      exact (h fqn' old hold).trans heq.symm
    · exact h fqn d hd
  | setBases c bases => exact h fqn d hd

/-- Edits leave every declaration under its name. -/
theorem keyed_ofEdits (edits : List Edit) : (ofEdits edits).Keyed := by
  have hfold : ∀ t : SymbolTable, t.Keyed → (edits.foldl edit t).Keyed := by
    induction edits with
    | nil => exact fun _ h => h
    | cons e rest ih => exact fun t h => ih (t.edit e) (h.edit e)
  exact hfold empty keyed_empty

end NameAtlas.Python.SymbolTable
