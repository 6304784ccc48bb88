import Mathlib.Data.List.Basic
import NameAtlas.Python.SymbolTable

/-!
# What the operations on a symbol table change

A symbol table is asked for the types of its symbols, for their kinds and for the bases of its
classes. The types with their names, which is what inference compares, are a list of entries
(`SymbolTable.types`): declaring a symbol writes an entry into that list, whatever the kind and
place of the declaration (`types_declare`), and the type of a name is looked up there
(`typeOf_eq`). So two tables with the same types have them still after the same declarations.
-/

namespace NameAtlas.Python.SymbolTable

/-! ### Types -/

/-- The type of a name is looked up among the types, and unknown if it is not there. -/
theorem typeOf_eq (t : SymbolTable) (fqn : Fqn) :
    t.typeOf fqn = (Table.lookup fqn t.types).getD .unknown := by
  rw [typeOf, types, Table.lookup_map]
  rfl

/-- A declaration writes its type. -/
theorem types_declare (t : SymbolTable) (d : Declaration) :
    (t.declare d).types = Table.insertEntry d.fqn d.type t.types := by
  rw [types, types, declare, Table.insert, Table.map_insertEntry]
  cases t.get? d.fqn <;> rfl

/-- A type is only written where there is a symbol. -/
theorem types_setType (t : SymbolTable) (fqn : Fqn) (type : BindingType) :
    (t.setType fqn type).types =
      if (Table.lookup fqn t.types).isSome then Table.insertEntry fqn type t.types
      else t.types := by
  have hlookup : Table.lookup fqn t.types = (t.declarations.get? fqn).map Declaration.type :=
    Table.lookup_map fqn _ _
  rw [hlookup, types, types, setType, Table.modify]
  cases t.declarations.get? fqn with
  | some d => exact Table.map_insertEntry fqn _ _ _
  | none => rfl

/-- Bases are no types. -/
@[simp] theorem types_setBases (t : SymbolTable) (c : Fqn) (bases : List Fqn) :
    (t.setBases c bases).types = t.types := rfl

/-- The names that are declared are those with a type. -/
theorem keys_eq (t : SymbolTable) : t.declarations.keys = t.types.map Prod.fst := by
  simp [Table.keys, types, Function.comp_def]

/-! ### Declarations -/

/-- A declaration is found under its own name, with what a second declaration keeps of the first
one. -/
theorem get?_declare (t : SymbolTable) (d : Declaration) (fqn : Fqn) :
    (t.declare d).get? fqn =
      if fqn = d.fqn then
        some (match t.get? d.fqn with
          | some old => redeclare old d
          | none => d)
      else t.get? fqn :=
  Table.get?_insert _ _ _ _

/-- A type that is set changes one declaration, if there is one. -/
theorem get?_setType (t : SymbolTable) (fqn fqn' : Fqn) (type : BindingType) :
    (t.setType fqn type).get? fqn' =
      if fqn' = fqn then (t.get? fqn).map fun d => { d with type := type } else t.get? fqn' :=
  Table.get?_modify _ _ _ _

/-- Bases leave the declarations. -/
@[simp] theorem get?_setBases (t : SymbolTable) (c : Fqn) (bases : List Fqn) (fqn : Fqn) :
    (t.setBases c bases).get? fqn = t.get? fqn := rfl

/-- A declared name has the declared type. -/
theorem typeOf_declare (t : SymbolTable) (d : Declaration) (fqn : Fqn) :
    (t.declare d).typeOf fqn = if fqn = d.fqn then d.type else t.typeOf fqn := by
  rw [typeOf, typeOf, get?_declare]
  by_cases h : fqn = d.fqn
  · rw [if_pos h, if_pos h]
    cases t.get? d.fqn <;> rfl
  · rw [if_neg h, if_neg h]

/-- A symbol that is not declared gets no type. -/
theorem typeOf_setType (t : SymbolTable) (fqn fqn' : Fqn) (type : BindingType) :
    (t.setType fqn type).typeOf fqn' =
      if fqn' = fqn ∧ (t.get? fqn).isSome then type else t.typeOf fqn' := by
  rw [typeOf, typeOf, get?_setType]
  by_cases h : fqn' = fqn
  · subst h
    cases t.get? fqn' <;> simp
  · simp [h]

/-- The kind of a declared symbol is that of its first declaration or of its last definition. -/
theorem kindOf?_declare (t : SymbolTable) (d : Declaration) (fqn : Fqn) :
    (t.declare d).kindOf? fqn =
      if fqn = d.fqn then some (if d.kind.isDefinition then d.kind else (t.kindOf? fqn).getD d.kind)
      else t.kindOf? fqn := by
  rw [kindOf?, kindOf?, get?_declare]
  by_cases h : fqn = d.fqn
  · rw [if_pos h, if_pos h, ← h]
    cases t.get? fqn with
    | some old => rfl
    | none => simp
  · rw [if_neg h, if_neg h]

/-- The symbols with a kind are those that are declared. -/
theorem isSome_kindOf?_iff (t : SymbolTable) (fqn : Fqn) :
    (t.kindOf? fqn).isSome ↔ fqn ∈ t.declarations.keys := by
  rw [kindOf?, Option.isSome_map, Table.mem_keys_iff]
  rfl

/-- A declared name has a kind. -/
theorem isSome_kindOf?_declare (t : SymbolTable) (d : Declaration) :
    ((t.declare d).kindOf? d.fqn).isSome := by
  rw [kindOf?_declare, if_pos rfl]
  rfl

/-- Setting a type leaves the kinds. -/
@[simp] theorem kindOf?_setType (t : SymbolTable) (fqn fqn' : Fqn) (type : BindingType) :
    (t.setType fqn type).kindOf? fqn' = t.kindOf? fqn' := by
  rw [kindOf?, kindOf?, get?_setType]
  by_cases h : fqn' = fqn
  · rw [if_pos h, h]
    cases t.get? fqn <;> rfl
  · rw [if_neg h]

/-- Setting bases leaves the kinds. -/
@[simp] theorem kindOf?_setBases (t : SymbolTable) (c : Fqn) (bases : List Fqn) (fqn : Fqn) :
    (t.setBases c bases).kindOf? fqn = t.kindOf? fqn := rfl

/-- A name is listed when it is declared first. -/
theorem keys_declare (t : SymbolTable) (d : Declaration) :
    (t.declare d).declarations.keys =
      if d.fqn ∈ t.declarations.keys then t.declarations.keys
      else t.declarations.keys ++ [d.fqn] :=
  Table.keys_insert _ _ _

/-- Setting a type declares nothing. -/
@[simp] theorem keys_setType (t : SymbolTable) (fqn : Fqn) (type : BindingType) :
    (t.setType fqn type).declarations.keys = t.declarations.keys :=
  Table.keys_modify _ _ _

/-! ### Bases -/

/-- A declaration leaves the bases. -/
@[simp] theorem basesOf_declare (t : SymbolTable) (d : Declaration) (c : Fqn) :
    (t.declare d).basesOf c = t.basesOf c := rfl

/-- Setting a type leaves the bases. -/
@[simp] theorem basesOf_setType (t : SymbolTable) (fqn c : Fqn) (type : BindingType) :
    (t.setType fqn type).basesOf c = t.basesOf c := rfl

/-- Bases that are set replace those of one class. -/
theorem basesOf_setBases (t : SymbolTable) (c c' : Fqn) (bases : List Fqn) :
    (t.setBases c bases).basesOf c' = if c' = c then bases else t.basesOf c' := by
  rw [basesOf, basesOf, setBases, Hierarchy.basesOf, Table.get?_insert]
  split <;> rfl

/-- Bases are listed class by class. -/
theorem toInheritances_eq_flatMap (t : SymbolTable) :
    t.toInheritances = t.bases.keys.flatMap fun c => (t.basesOf c).map fun base => ⟨c, base⟩ := by
  rw [toInheritances, Table.keys, List.flatMap_map]
  refine List.flatMap_congr fun e he => ?_
  have hbases : t.basesOf e.1 = e.2 := by
    rw [basesOf, Hierarchy.basesOf, (t.bases.get?_eq_some_iff _ _).2 he, Option.getD_some]
  rw [hbases]

/-- What is listed is a class of the table with one of its bases. -/
theorem mem_toInheritances_iff {t : SymbolTable} {i : Inheritance} :
    i ∈ t.toInheritances ↔ i.derived ∈ t.bases.keys ∧ i.base ∈ t.basesOf i.derived := by
  rw [toInheritances_eq_flatMap, List.mem_flatMap]
  constructor
  · rintro ⟨c, hc, hi⟩
    obtain ⟨base, hbase, rfl⟩ := List.mem_map.1 hi
    exact ⟨hc, hbase⟩
  · rintro ⟨hc, hbase⟩
    exact ⟨i.derived, hc, List.mem_map.2 ⟨i.base, hbase, rfl⟩⟩

/-! ### Names -/

/-- A table in which every symbol stands under its own name. -/
def Keyed (t : SymbolTable) : Prop := ∀ fqn d, t.get? fqn = some d → d.fqn = fqn

namespace Keyed

variable {t : SymbolTable}

/-- A declaration is listed under its own name. -/
theorem fqn_of_mem_entries (h : t.Keyed) {e : Fqn × Declaration}
    (he : e ∈ t.declarations.entries) : e.2.fqn = e.1 :=
  h e.1 e.2 ((Table.get?_eq_some_iff _ _ _).2 he)

/-- The symbols are listed under their names. -/
theorem map_toDeclarations (h : t.Keyed) :
    t.toDeclarations.map Declaration.fqn = t.declarations.keys := by
  rw [toDeclarations, Table.values, Table.keys, List.map_map]
  exact List.map_congr_left fun e he => h.fqn_of_mem_entries he

/-- The names of the table are those of the symbols that are listed. -/
theorem mem_keys_iff (h : t.Keyed) {fqn : Fqn} :
    fqn ∈ t.declarations.keys ↔ ∃ d ∈ t.toDeclarations, d.fqn = fqn := by
  rw [← h.map_toDeclarations, List.mem_map]

/-- A symbol that is listed stands under its name. -/
theorem get?_of_mem (h : t.Keyed) {d : Declaration} (hd : d ∈ t.toDeclarations) :
    t.get? d.fqn = some d := by
  obtain ⟨e, he, rfl⟩ := List.mem_map.1 hd
  rw [h.fqn_of_mem_entries he]
  exact (Table.get?_eq_some_iff _ _ _).2 he

end Keyed

end NameAtlas.Python.SymbolTable
