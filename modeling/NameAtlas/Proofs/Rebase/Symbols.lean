import NameAtlas.Proofs.Hierarchy
import NameAtlas.Proofs.Rebase.Facts
import NameAtlas.Python.SymbolTable

/-!
# Symbol tables under other names

The tables of an analysis have names as keys, so they can be carried over to other names only if
these stay apart (`Table.mapEntries`). Then a look-up of the new name finds what a look-up of the
old one finds, a write goes to the entry with the new name, and the order of the entries stays.
Ancestors are compared with those already visited and with nothing else, so they are the same up to
the change of names (`Hierarchy.ancestors_mapNames`). For the members of a class, the names of the
members have to come to lie below the names that the classes get
(`Hierarchy.resolveMember?_mapNames`).
-/

namespace NameAtlas

/-! ### Tables -/

namespace Table

variable {α α' β γ : Type} [DecidableEq α] [DecidableEq α'] {g : α → α'}

/-- A look-up under a renamed key gives the changed value. -/
theorem lookup_map_prod (hg : Function.Injective g) (v : β → γ) (k : α) (es : List (α × β)) :
    lookup (g k) (es.map (Prod.map g v)) = (lookup k es).map v := by
  induction es with
  | nil => rfl
  | cons e rest ih =>
    rw [List.map_cons, Prod.map, lookup, lookup, ih]
    simp only [hg.eq_iff]
    split <;> rfl

/-- An insertion under a renamed key commutes with the change of all entries. -/
theorem insertEntry_map_prod (hg : Function.Injective g) (v : β → γ) (k : α) (x : β)
    (es : List (α × β)) :
    insertEntry (g k) (v x) (es.map (Prod.map g v)) = (insertEntry k x es).map (Prod.map g v) := by
  induction es with
  | nil => rfl
  | cons e rest ih =>
    rw [List.map_cons, Prod.map, insertEntry, insertEntry, ih]
    simp only [hg.eq_iff]
    split <;> rfl

/-- The table with other keys, which stay apart, and other values. -/
def mapEntries (t : Table α β) (hg : Function.Injective g) (v : β → γ) : Table α' γ :=
  ⟨t.entries.map (Prod.map g v), by
    have hkeys : (t.entries.map (Prod.map g v)).map Prod.fst = (t.entries.map Prod.fst).map g := by
      rw [List.map_map, List.map_map]
      rfl
    rw [hkeys]
    exact List.Pairwise.map g (fun _ _ h => hg.ne h) t.nodup_keys⟩

variable (t : Table α β) (hg : Function.Injective g) (v : β → γ)

/-- A renamed table gives the changed value under the renamed key. -/
theorem get?_mapEntries (k : α) : (t.mapEntries hg v).get? (g k) = (t.get? k).map v :=
  lookup_map_prod hg v k t.entries

/-- Inserting commutes with renaming a table. -/
theorem insert_mapEntries (k : α) (x : β) :
    (t.mapEntries hg v).insert (g k) (v x) = (t.insert k x).mapEntries hg v := by
  simp only [insert, mapEntries, insertEntry_map_prod hg]

/-- Changing an entry commutes with renaming a table if the changes do. -/
theorem modify_mapEntries (k : α) {h : β → β} {h' : γ → γ} (hvalue : ∀ x, v (h x) = h' (v x)) :
    (t.mapEntries hg v).modify (g k) h' = (t.modify k h).mapEntries hg v := by
  rw [modify, modify, get?_mapEntries]
  cases t.get? k with
  | none => rfl
  | some x =>
    show (t.mapEntries hg v).insert (g k) (h' (v x)) = (t.insert k (h x)).mapEntries hg v
    rw [← hvalue, insert_mapEntries]

/-- A renamed table contains the renamed keys. -/
theorem contains_mapEntries (k : α) : (t.mapEntries hg v).contains (g k) = t.contains k := by
  rw [contains, contains, get?_mapEntries, Option.isSome_map]

end Table

/-! ### Hierarchies -/

namespace Hierarchy

variable {old new : Fqn} (ρ : Rebasing old new)

/-- The bases of a renamed class are the renamed bases. -/
theorem basesOf_mapEntries (bases : Table Fqn (List Fqn)) (c : Fqn) :
    basesOf (bases.mapEntries ρ.injective (List.map ρ)) (ρ c) = (basesOf bases c).map ρ := by
  rw [basesOf, basesOf, Table.get?_mapEntries]
  cases bases.get? c <;> rfl

/-- A visit asks of names whether they were visited, and what bases they have. -/
theorem visit_mapEntries (bases : Table Fqn (List Fqn)) (visited stack : List Fqn) :
    visit (bases.mapEntries ρ.injective (List.map ρ)) (visited.map ρ) (stack.map ρ) =
      (visit bases visited stack).map ρ := by
  have hmem (f : Fqn) (fs : List Fqn) : ρ f ∈ fs.map ρ ↔ f ∈ fs :=
    List.mem_map_of_injective ρ.injective
  -- The cases are those of the search; what was visited is visited under its new name.
  fun_induction visit bases visited stack with
  | case1 visited => rw [List.map_nil, visit]
  | case2 visited next stack hnext ih =>
    rw [List.map_cons, visit, if_pos ((hmem _ _).2 hnext)]
    exact ih
  | case3 visited next stack hnext ih =>
    rw [List.map_cons, visit, if_neg fun h => hnext ((hmem _ _).1 h), List.map_cons]
    rw [List.map_cons, List.map_append] at ih
    rw [basesOf_mapEntries, ih]

end Hierarchy

/-! ### Symbol tables -/

namespace Python.SymbolTable

variable {old new : Fqn} (ρ : Rebasing old new) (t : SymbolTable)

/-- The symbol table with other names. -/
def mapNames : SymbolTable :=
  ⟨t.declarations.mapEntries ρ.injective (Declaration.mapNames ρ),
    t.bases.mapEntries ρ.injective (List.map ρ)⟩

/-! #### Questions -/

/-- A declaration is found under its new name. -/
theorem get?_mapNames (f : Fqn) :
    (t.mapNames ρ).get? (ρ f) = (t.get? f).map (Declaration.mapNames ρ) :=
  Table.get?_mapEntries t.declarations ρ.injective _ f

/-- The type of a renamed symbol is the renamed type. -/
theorem typeOf_mapNames (f : Fqn) : (t.mapNames ρ).typeOf (ρ f) = (t.typeOf f).mapNames ρ := by
  rw [typeOf, typeOf, get?_mapNames]
  cases t.get? f <;> rfl

/-- The kind of a renamed symbol is that of the symbol. -/
@[simp] theorem kindOf?_mapNames (f : Fqn) : (t.mapNames ρ).kindOf? (ρ f) = t.kindOf? f := by
  rw [kindOf?, kindOf?, get?_mapNames, Option.map_map]
  rfl

/-- A renamed symbol is a class if the symbol is. -/
@[simp] theorem isClass_mapNames (f : Fqn) : (t.mapNames ρ).isClass (ρ f) = t.isClass f := by
  rw [isClass, isClass, kindOf?_mapNames]

/-- The bases of a renamed class are the renamed bases of the class. -/
theorem basesOf_mapNames (c : Fqn) : (t.mapNames ρ).basesOf (ρ c) = (t.basesOf c).map ρ :=
  Hierarchy.basesOf_mapEntries ρ t.bases c

/-- The ancestors of a renamed class are the renamed ancestors. -/
theorem ancestors_mapNames (c : Fqn) :
    (t.mapNames ρ).hierarchy.ancestors (ρ c) = (t.hierarchy.ancestors c).map ρ := by
  unfold Hierarchy.ancestors
  have hbases : Hierarchy.basesOf (t.mapNames ρ).hierarchy.bases (ρ c) =
      (Hierarchy.basesOf t.hierarchy.bases c).map ρ := basesOf_mapNames ρ t c
  rw [hbases]
  exact Hierarchy.visit_mapEntries ρ t.bases [c] _

/-- A renamed member is declared if the member is. -/
theorem declares_mapNames (f : Fqn) :
    (t.mapNames ρ).hierarchy.declares (ρ f) = t.hierarchy.declares f :=
  Table.contains_mapEntries t.declarations ρ.injective _ f

/-- The members of a class that can be mentioned, if its bases can be mentioned. -/
theorem resolveMember?_mapNames {c : Fqn} (hc : c.Covered old)
    (hbases : ∀ c, ∀ b ∈ t.basesOf c, b.Covered old) (name : String) :
    (t.mapNames ρ).hierarchy.resolveMember? (ρ c) name =
      (t.hierarchy.resolveMember? c name).map ρ := by
  -- All candidates are covered, so the renaming is injective on them and keeps what is found.
  have hcovered : ∀ a ∈ c :: t.hierarchy.ancestors c, a.Covered old :=
    List.forall_mem_cons.2 ⟨hc, Hierarchy.forall_mem_visit (fun c _ => hbases c) _ (hbases c)⟩
  have hmembers : ((c :: t.hierarchy.ancestors c).map ρ).map (fun a => a.child name) =
      ((c :: t.hierarchy.ancestors c).map fun a => a.child name).map ρ := by
    rw [List.map_map, List.map_map]
    exact List.map_congr_left fun a ha => (ρ.map_child (hcovered a ha) name).symm
  have hdeclares : (t.mapNames ρ).hierarchy.declares ∘ ρ = t.hierarchy.declares :=
    funext (declares_mapNames ρ t)
  rw [Hierarchy.resolveMember?, Hierarchy.resolveMember?, ancestors_mapNames, ← List.map_cons,
    hmembers, List.find?_map, hdeclares]

/-- Tables have the same types under other names exactly if they have the same types. -/
theorem types_mapNames_eq_iff (u : SymbolTable) :
    (t.mapNames ρ).types = (u.mapNames ρ).types ↔ t.types = u.types := by
  have htypes (t : SymbolTable) :
      (t.mapNames ρ).types = t.types.map (Prod.map ρ (BindingType.mapNames ρ)) := by
    rw [types, types, List.map_map]
    exact List.map_map
  have hpair : Function.Injective (Prod.map ρ (BindingType.mapNames ρ)) := by
    rintro ⟨f, type⟩ ⟨f', type'⟩ heq
    obtain ⟨hf, htype⟩ := Prod.mk.inj heq
    rw [ρ.injective hf, BindingType.mapNames_injective ρ.injective htype]
  rw [htypes, htypes]
  exact (List.map_injective_iff.2 hpair).eq_iff

/-! #### Operations -/

/-- Declaring a renamed symbol commutes with renaming. -/
theorem declare_mapNames (d : Declaration) :
    (t.mapNames ρ).declare (d.mapNames ρ) = (t.declare d).mapNames ρ := by
  have hget : (t.mapNames ρ).get? (d.mapNames ρ).fqn =
      (t.get? d.fqn).map (Declaration.mapNames ρ) := get?_mapNames ρ t d.fqn
  have hinsert := Table.insert_mapEntries t.declarations ρ.injective (Declaration.mapNames ρ) d.fqn
  unfold declare
  rw [hget]
  cases t.get? d.fqn with
  | none => exact congrArg (SymbolTable.mk · (t.mapNames ρ).bases) (hinsert d)
  | some old => exact congrArg (SymbolTable.mk · (t.mapNames ρ).bases) (hinsert (redeclare old d))

/-- Setting a renamed type commutes with renaming. -/
theorem setType_mapNames (f : Fqn) (type : BindingType) :
    (t.mapNames ρ).setType (ρ f) (type.mapNames ρ) = (t.setType f type).mapNames ρ :=
  congrArg (SymbolTable.mk · (t.mapNames ρ).bases)
    (Table.modify_mapEntries t.declarations ρ.injective _ f fun _ => rfl)

/-- Setting renamed bases commutes with renaming. -/
theorem setBases_mapNames (c : Fqn) (bases : List Fqn) :
    (t.mapNames ρ).setBases (ρ c) (bases.map ρ) = (t.setBases c bases).mapNames ρ :=
  congrArg (SymbolTable.mk (t.mapNames ρ).declarations)
    (Table.insert_mapEntries t.bases ρ.injective (List.map ρ) c bases)

/-! #### Listings -/

/-- The declarations of a renamed table are the renamed ones, in the same order. -/
theorem toDeclarations_mapNames :
    (t.mapNames ρ).toDeclarations = t.toDeclarations.map (Declaration.mapNames ρ) := by
  unfold toDeclarations Table.values
  rw [List.map_map]
  exact List.map_map

/-- The inheritances of a renamed table are the renamed ones, in the same order. -/
theorem toInheritances_mapNames :
    (t.mapNames ρ).toInheritances = t.toInheritances.map (Inheritance.mapNames ρ) := by
  unfold toInheritances mapNames Table.mapEntries
  rw [List.flatMap_map, List.map_flatMap]
  refine List.flatMap_congr fun e _ => ?_
  rw [Prod.map, List.map_map, List.map_map]
  rfl

end Python.SymbolTable

end NameAtlas
