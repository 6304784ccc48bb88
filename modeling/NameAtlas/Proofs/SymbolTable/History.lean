import NameAtlas.Proofs.SymbolTable.Edits
import Mathlib.Data.List.Induction

/-!
# What a symbol table keeps of its history

The attributes of a symbol come from different operations of its history: its place in the order,
its location and its scope from its first declaration, its type from the last operation that gives
it one, and its kind from the last class or function definition, or from the first declaration if
there is none. For each attribute one lemma goes by induction from the end of the history
(`keys_ofEdits`, `map_get?_ofEdits`, `map_type_get?_ofEdits`, `kindOf?_ofEdits`): one more operation
does to the table what it does to the part of the history that the attribute is read from.
-/

namespace NameAtlas.Python.SymbolTable

/-! ### Parts of a history -/

/-- The name that an operation declares. -/
def Edit.name? : Edit → Option Fqn
  | .declare d => some d.fqn
  | .setType _ _ | .setBases _ _ => none

/-- The declaration of a name that an operation makes. -/
def Edit.declarationOf? (fqn : Fqn) : Edit → Option Declaration
  | .declare d => if d.fqn = fqn then some d else none
  | .setType _ _ | .setBases _ _ => none

/-- The declaration of a name as a class or function that an operation makes. -/
def Edit.definitionOf? (fqn : Fqn) (e : Edit) : Option Declaration :=
  (e.declarationOf? fqn).filter fun d => d.kind.isDefinition

/-- The type that an operation gives to a name. -/
def Edit.typeFor? (fqn : Fqn) : Edit → Option BindingType
  | .declare d => if d.fqn = fqn then some d.type else none
  | .setType fqn' type => if fqn' = fqn then some type else none
  | .setBases _ _ => none

/-- The declared names, each as often as it is declared. -/
def declaredNames (edits : List Edit) : List Fqn := edits.filterMap Edit.name?

/-- The first declaration of a name. -/
def firstDeclaration? (fqn : Fqn) (edits : List Edit) : Option Declaration :=
  edits.findSome? (Edit.declarationOf? fqn)

/-- The last declaration of a name as a class or function. -/
def lastDefinition? (fqn : Fqn) (edits : List Edit) : Option Declaration :=
  edits.reverse.findSome? (Edit.definitionOf? fqn)

/-- The last type that a name is given. -/
def lastType? (fqn : Fqn) (edits : List Edit) : Option BindingType :=
  edits.reverse.findSome? (Edit.typeFor? fqn)

section Concat

variable (fqn : Fqn) (edits : List Edit) (e : Edit)

/-- The last edit is made last. -/
theorem ofEdits_concat : ofEdits (edits ++ [e]) = (ofEdits edits).edit e := by
  rw [ofEdits, List.foldl_append]
  rfl

/-- An edit adds the name that it declares, if it declares one. -/
theorem declaredNames_concat :
    declaredNames (edits ++ [e]) = declaredNames edits ++ e.name?.toList := by
  rw [declaredNames, List.filterMap_append]
  cases h : e.name? <;> simp [declaredNames, h]

/-- The first declaration stays the first. -/
theorem firstDeclaration?_concat :
    firstDeclaration? fqn (edits ++ [e]) =
      (firstDeclaration? fqn edits).or (e.declarationOf? fqn) := by
  simp [firstDeclaration?, List.findSome?_append]

/-- A search from the end comes to the last operation first. -/
theorem findSome?_reverse_concat {α : Type} (f : Edit → Option α) :
    (edits ++ [e]).reverse.findSome? f = (f e).or (edits.reverse.findSome? f) := by
  rw [List.reverse_append, List.reverse_singleton, List.singleton_append, List.findSome?_cons]
  cases f e <;> rfl

/-- A later definition takes the place of an earlier one. -/
theorem lastDefinition?_concat :
    lastDefinition? fqn (edits ++ [e]) =
      (e.definitionOf? fqn).or (lastDefinition? fqn edits) :=
  findSome?_reverse_concat edits e _

/-- A later type takes the place of an earlier one. -/
theorem lastType?_concat :
    lastType? fqn (edits ++ [e]) = (e.typeFor? fqn).or (lastType? fqn edits) :=
  findSome?_reverse_concat edits e _

end Concat

/-! ### Attributes -/

/-- A list with one more member, without repetitions. -/
theorem eraseDups_concat (names : List Fqn) (fqn : Fqn) :
    (names ++ [fqn]).eraseDups =
      if fqn ∈ names then names.eraseDups else names.eraseDups ++ [fqn] := by
  have hone : [fqn].eraseDups = [fqn] := by rw [List.eraseDups_cons]; rfl
  rw [List.eraseDups_append, List.removeAll]
  split <;> simp_all

/-- The symbols stand in the order of their first declarations. -/
theorem keys_ofEdits (edits : List Edit) :
    (ofEdits edits).declarations.keys = (declaredNames edits).eraseDups := by
  induction edits using List.reverseRecOn with
  | nil => rfl
  | append_singleton edits e ih =>
    rw [ofEdits_concat, declaredNames_concat]
    -- A declaration adds its name if it is new; the other edits add none.
    cases e with
    | declare d =>
      have hkeys := keys_declare (ofEdits edits) d
      rw [ih] at hkeys
      simpa [edit, Edit.name?, eraseDups_concat] using hkeys
    | setType fqn type => simpa [edit, Edit.name?] using ih
    | setBases c bases => exact ih.trans (by simp [Edit.name?])

/-- What later operations leave alone is as in the first declaration. -/
theorem map_get?_ofEdits {α : Type} {g : Declaration → α}
    (hredeclare : ∀ old new, g (redeclare old new) = g old)
    (hsetType : ∀ d type, g { d with type := type } = g d) (fqn : Fqn) (edits : List Edit) :
    ((ofEdits edits).get? fqn).map g = (firstDeclaration? fqn edits).map g := by
  induction edits using List.reverseRecOn with
  | nil => rfl
  | append_singleton edits e ih =>
    rw [ofEdits_concat, firstDeclaration?_concat]
    cases e with
    | declare d =>
      rw [edit, get?_declare, Edit.declarationOf?]
      by_cases h : fqn = d.fqn
      · -- A second declaration changes the first one only where `g` does not look.
        subst h
        rw [if_pos rfl, if_pos rfl]
        cases hold : (ofEdits edits).get? d.fqn <;>
          cases hfirst : firstDeclaration? d.fqn edits <;> simp_all
      · simpa [h, Ne.symm h] using ih
    | setType fqn' type =>
      rw [edit, get?_setType, Edit.declarationOf?, Option.or_none]
      split
      · next h =>
        subst h
        rw [← ih, Option.map_map]
        exact congrFun (congrArg Option.map (funext fun d => hsetType d type)) _
      · exact ih
    | setBases c bases =>
      rw [edit, get?_setBases, Edit.declarationOf?, Option.or_none]
      exact ih

/-- The type of a declared symbol is the last one that it was given. -/
theorem map_type_get?_ofEdits (fqn : Fqn) (edits : List Edit) :
    ((ofEdits edits).get? fqn).map Declaration.type =
      (firstDeclaration? fqn edits).bind fun _ => lastType? fqn edits := by
  induction edits using List.reverseRecOn with
  | nil => rfl
  | append_singleton edits e ih =>
    -- Only whether there is a declaration matters here.
    have hdeclared := map_get?_ofEdits (g := fun _ => ()) (fun _ _ => rfl) (fun _ _ => rfl) fqn edits
    rw [ofEdits_concat, firstDeclaration?_concat, lastType?_concat]
    cases e with
    | declare d =>
      rw [edit, get?_declare, Edit.declarationOf?, Edit.typeFor?]
      by_cases h : fqn = d.fqn
      · subst h
        rw [if_pos rfl, if_pos rfl, if_pos rfl]
        cases (ofEdits edits).get? d.fqn <;> cases firstDeclaration? d.fqn edits <;> rfl
      · simpa [h, Ne.symm h] using ih
    | setType fqn' type =>
      rw [edit, get?_setType, Edit.declarationOf?, Edit.typeFor?, Option.or_none]
      by_cases h : fqn = fqn'
      · subst h
        rw [if_pos rfl, if_pos rfl]
        cases hold : (ofEdits edits).get? fqn <;>
          cases hfirst : firstDeclaration? fqn edits <;> simp_all
      · simpa [h, Ne.symm h] using ih
    | setBases c bases => simpa [edit, Edit.declarationOf?, Edit.typeFor?] using ih

/-- The kind of a declared symbol is that of its last definition, or of its first declaration. -/
theorem kindOf?_ofEdits (fqn : Fqn) (edits : List Edit) :
    -- Kinds are sticky, so the history is read from its end: the last definition, or else the first
    -- declaration.
    (ofEdits edits).kindOf? fqn =
      ((lastDefinition? fqn edits).or (firstDeclaration? fqn edits)).map Declaration.kind := by
  induction edits using List.reverseRecOn with
  | nil => rfl
  | append_singleton edits e ih =>
    rw [ofEdits_concat, firstDeclaration?_concat, lastDefinition?_concat]
    cases e with
    | declare d =>
      rw [edit, kindOf?_declare, Edit.definitionOf?, Edit.declarationOf?, ih]
      by_cases h : fqn = d.fqn
      · -- A definition is preferred to all that was declared before, anything else to nothing.
        subst h
        rw [if_pos rfl, if_pos rfl]
        cases hdefinition : d.kind.isDefinition <;> cases lastDefinition? d.fqn edits <;>
          cases firstDeclaration? d.fqn edits <;> simp [Option.filter, hdefinition]
      · simp [h, Ne.symm h]
    | setType fqn' type => simpa [edit, Edit.declarationOf?, Edit.definitionOf?] using ih
    | setBases c bases => simpa [edit, Edit.declarationOf?, Edit.definitionOf?] using ih

/-- Giving a type to a name that is not declared changes nothing. -/
theorem setType_of_get?_eq_none {t : SymbolTable} {fqn : Fqn} (h : t.get? fqn = none)
    (type : BindingType) : t.setType fqn type = t := by
  have hnone : t.declarations.get? fqn = none := h
  rw [setType, Table.modify, hnone]

/-- A name that no edit declares is not found. -/
theorem get?_ofEdits_eq_none {fqn : Fqn} {edits : List Edit} (h : fqn ∉ declaredNames edits) :
    (ofEdits edits).get? fqn = none := by
  have hnot : ¬((ofEdits edits).get? fqn).isSome := by
    rwa [get?, ← Table.mem_keys_iff, keys_ofEdits, List.mem_eraseDups]
  simpa using hnot

/-- The types with their names are those of the listed symbols. -/
theorem Keyed.types_eq {t : SymbolTable} (h : t.Keyed) :
    t.types = t.toDeclarations.map fun d => (d.fqn, d.type) := by
  rw [types, toDeclarations, Table.values, List.map_map]
  exact List.map_congr_left fun e he => congrArg (·, e.2.type) (h.fqn_of_mem_entries he).symm

/-- Lists of pairs are the same if both parts are. -/
theorem map_pair_eq_iff {α β : Type} {f : Declaration → α} {g : Declaration → β}
    {l l' : List Declaration} :
    (l.map fun d => (f d, g d)) = (l'.map fun d => (f d, g d)) ↔
      l.map f = l'.map f ∧ l.map g = l'.map g := by
  constructor
  · intro h
    have hfst := congrArg (List.map Prod.fst) h
    have hsnd := congrArg (List.map Prod.snd) h
    rw [List.map_map, List.map_map] at hfst hsnd
    exact ⟨hfst, hsnd⟩
  · rintro ⟨hf, hg⟩
    rw [← List.zip_map', ← List.zip_map', hf, hg]

/-! ### The whole table -/

/-- The declaration has just what a history leaves of its name. -/
structure LeftBy (edits : List Edit) (d : Declaration) : Prop where
  /-- Its location is that of the first declaration. -/
  location : (firstDeclaration? d.fqn edits).map Declaration.location = some d.location
  /-- Its scope is that of the first declaration. -/
  scope : (firstDeclaration? d.fqn edits).map Declaration.scope = some d.scope
  /-- Its type is the last that was given. -/
  type : lastType? d.fqn edits = some d.type
  /-- Its kind is that of the last definition, or of the first declaration if there is none. -/
  kind : ((lastDefinition? d.fqn edits).or (firstDeclaration? d.fqn edits)).map Declaration.kind =
    some d.kind

/-- What is found under a name is what the history leaves. -/
theorem leftBy_of_get?_eq_some {edits : List Edit} {d : Declaration}
    (h : (ofEdits edits).get? d.fqn = some d) : LeftBy edits d := by
  -- The clauses are the location, the scope, the type and the kind, in this order.
  refine ⟨?_, ?_, ?_, ?_⟩
  · rw [← map_get?_ofEdits (fun _ _ => rfl) (fun _ _ => rfl), h]
    rfl
  · rw [← map_get?_ofEdits (fun _ _ => rfl) (fun _ _ => rfl), h]
    rfl
  · have htype := map_type_get?_ofEdits d.fqn edits
    rw [h] at htype
    obtain ⟨first, -, hlast⟩ := Option.bind_eq_some_iff.1 htype.symm
    exact hlast
  · rw [← kindOf?_ofEdits, kindOf?, h]
    rfl

/-- A symbol table is what its history makes it: it lists the declared names once each, in the order
of their first declarations, with what the history leaves of them; a type that is given too early is
lost; and two tables have the same types exactly if they list the same names with the same types. -/
theorem ofEdits_history (edits edits' : List Edit) :
    (ofEdits edits).toDeclarations.map Declaration.fqn = (declaredNames edits).eraseDups ∧
      ((ofEdits edits).toDeclarations.map Declaration.fqn).Nodup ∧
      (∀ d ∈ (ofEdits edits).toDeclarations, LeftBy edits d) ∧
      (∀ fqn type later, fqn ∉ declaredNames edits →
        ofEdits (edits ++ .setType fqn type :: later) = ofEdits (edits ++ later)) ∧
      ((ofEdits edits).types = (ofEdits edits').types ↔
        (ofEdits edits).toDeclarations.map Declaration.fqn =
            (ofEdits edits').toDeclarations.map Declaration.fqn ∧
          (ofEdits edits).toDeclarations.map Declaration.type =
            (ofEdits edits').toDeclarations.map Declaration.type) := by
  have hkeyed := keyed_ofEdits edits
  have hnames := hkeyed.map_toDeclarations
  refine ⟨hnames.trans (keys_ofEdits edits), ?_, fun d hd => ?_, fun fqn type later hnew => ?_, ?_⟩
  · rw [hnames]
    exact (ofEdits edits).declarations.nodup_keys
  · obtain ⟨e, he, rfl⟩ := List.mem_map.1 hd
    refine leftBy_of_get?_eq_some ?_
    rw [hkeyed.fqn_of_mem_entries he]
    exact (Table.get?_eq_some_iff _ _ _).2 he
  · -- The table is the same before the later operations, so it is behind them.
    have hsame : (ofEdits edits).setType fqn type = ofEdits edits :=
      setType_of_get?_eq_none (get?_ofEdits_eq_none hnew) type
    calc ofEdits (edits ++ .setType fqn type :: later)
        = later.foldl edit ((ofEdits edits).setType fqn type) := by
          rw [ofEdits, List.foldl_append]; rfl
      _ = later.foldl edit (ofEdits edits) := by rw [hsame]
      _ = ofEdits (edits ++ later) := by rw [ofEdits, ofEdits, List.foldl_append]
  · rw [hkeyed.types_eq, (keyed_ofEdits edits').types_eq]
    exact map_pair_eq_iff

/-- A parameter that is assigned to. -/
def reassigned : List Edit :=
  [.declare ⟨⟨["m", "f", "x"]⟩, .parameter, .unknown, 1, ⟨⟨6, 7⟩, 1, 7⟩⟩,
    .declare ⟨⟨["m", "f", "x"]⟩, .variable, .resolved (.builtin "int"), 2, ⟨⟨12, 13⟩, 2, 3⟩⟩]

/-- It stays a parameter at its first place and takes the type of the assignment. A type that was
given to it before is lost. -/
theorem ofEdits_history_reassigned :
    let x : Fqn := ⟨["m", "f", "x"]⟩
    ofEdits (.setType x (.resolved (.builtin "str")) :: reassigned) = ofEdits reassigned ∧
      (ofEdits reassigned).toDeclarations =
        [⟨x, .parameter, .resolved (.builtin "int"), 1, ⟨⟨6, 7⟩, 1, 7⟩⟩] := by
  intro x
  obtain ⟨-, -, -, hearly, -⟩ := ofEdits_history [] []
  obtain ⟨hnames, -, hleft, -, -⟩ := ofEdits_history reassigned []
  refine ⟨hearly x _ reassigned (by decide), ?_⟩
  -- One name is declared, so the list holds one declaration, and its parts are read off the
  -- history.
  have hone : (ofEdits reassigned).toDeclarations.map Declaration.fqn = [x] :=
    hnames.trans (by decide)
  obtain ⟨d, hd, hfqn⟩ := List.map_eq_singleton_iff.1 hone
  have h : LeftBy reassigned d := hleft d (by rw [hd]; exact List.mem_singleton_self d)
  have hfirst : firstDeclaration? x reassigned =
      some ⟨x, .parameter, .unknown, 1, ⟨⟨6, 7⟩, 1, 7⟩⟩ := by decide
  have hlast : lastType? x reassigned = some (.resolved (.builtin "int")) := by decide
  have hdefinition : lastDefinition? x reassigned = none := by decide
  obtain ⟨hlocation, hscope, htype, hkind⟩ := h
  rw [hfqn, hfirst] at hlocation hscope
  rw [hfqn, hlast] at htype
  rw [hfqn, hdefinition, hfirst] at hkind
  obtain ⟨fqn, kind, type, scope, location⟩ := d
  simp_all

end NameAtlas.Python.SymbolTable
