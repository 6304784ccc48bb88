import Mathlib.Data.Set.Finite.List
import Mathlib.Data.Set.Finite.Powerset
import Mathlib.Order.Preorder.Finite
import NameAtlas.Proofs.Walk.Agreement
import NameAtlas.Proofs.Walk.Bounded

/-!
# Walks repeat

What a walk takes from the walk before it is a set of pieces, each of which says what one name is
bound to, what one symbol is, and so on (`Walk.data`). Two walks with the same pieces agree
(`Walk.agrees_of_data_eq`). There are only finitely many pieces within the limits of a module
(`Limits.finite_within`), so some two walks have the same ones (`Walk.exists_agrees`).
-/

namespace NameAtlas.Python

/-- A piece of what is read in a walk of the walks before it. -/
inductive Datum where
  /-- A name is bound in a scope. -/
  | binding (i : Nat) (name : String) (target : NameTarget)
  /-- A name is declared `global` in a scope. -/
  | global (i : Nat) (name : String)
  /-- A name is declared `nonlocal` in a scope. -/
  | nonlocal (i : Nat) (name : String)
  /-- The function of a scope is a method of a class. -/
  | method (i : Nat) (c : Fqn)
  /-- A symbol has a kind and a type. -/
  | symbol (f : Fqn) (kind : SymbolKind) (type : BindingType)
  /-- A class has a base at a position. -/
  | base (c : Fqn) (i : Nat) (b : Fqn)
  /-- The body of a class has a scope. -/
  | classScope (c : Fqn) (i : Nat)

/-- True for the pieces that a walk has. -/
def Walk.Has (w : Walk) : Datum → Prop
  | .binding i name target => w.scopes.binding? i name = some target
  | .global i name => w.scopes.declaresGlobal i name
  | .nonlocal i name => w.scopes.declaresNonlocal i name
  | .method i c => w.scopes.methodClass? i = some c
  | .symbol f kind type => ∃ d, w.symbols.get? f = some d ∧ d.kind = kind ∧ d.type = type
  | .base c i b => (w.symbols.basesOf c)[i]? = some b
  | .classScope c i => w.classScopes.get? c = some i

/-- What a walk has for the walks behind it. -/
def Walk.data (w : Walk) : Set Datum := {x | w.Has x}

/-! ### Walks with the same data -/

/-- The types of a table by its names. -/
theorem SymbolTable.types_eq_map_typeOf (t : SymbolTable) :
    t.types = t.declarations.keys.map fun f => (f, t.typeOf f) := by
  rw [types, Table.keys, List.map_map]
  refine List.map_congr_left fun e he => ?_
  have hget : t.get? e.1 = some e.2 := (Table.get?_eq_some_iff _ _ _).2 he
  rw [Function.comp_apply, typeOf, hget]
  rfl

namespace Walk

section

variable {w w' : Walk} (h : w.data = w'.data)

include h

/-- Walks with the same data have the same pieces. -/
theorem has_iff_of_data_eq (x : Datum) : w'.Has x ↔ w.Has x :=
  Iff.of_eq (congrArg (x ∈ ·) h).symm

/-- Walks with the same data have the same kinds of symbols. -/
theorem kindOf?_of_data_eq (f : Fqn) : w'.symbols.kindOf? f = w.symbols.kindOf? f := by
  refine Option.ext fun kind => ?_
  have hkind (w : Walk) : w.symbols.kindOf? f = some kind ↔ ∃ type, w.Has (.symbol f kind type) := by
    rw [SymbolTable.kindOf?, Option.map_eq_some_iff]
    constructor
    · rintro ⟨d, hd, hk⟩
      exact ⟨d.type, d, hd, hk, rfl⟩
    · rintro ⟨_, d, hd, hk, -⟩
      exact ⟨d, hd, hk⟩
  rw [hkind, hkind]
  exact exists_congr fun type => has_iff_of_data_eq h _

/-- Walks with the same data have the same types of symbols. -/
theorem typeOf_of_data_eq (f : Fqn) : w'.symbols.typeOf f = w.symbols.typeOf f := by
  -- The pieces of a symbol have its kind too, which is left open here.
  have htype (w : Walk) (type : BindingType) :
      (w.symbols.get? f).map Declaration.type = some type ↔ ∃ kind, w.Has (.symbol f kind type) := by
    rw [Option.map_eq_some_iff]
    constructor
    · rintro ⟨d, hd, ht⟩
      exact ⟨d.kind, d, hd, rfl, ht⟩
    · rintro ⟨_, d, hd, -, ht⟩
      exact ⟨d, hd, ht⟩
  have hsame : (w'.symbols.get? f).map Declaration.type = (w.symbols.get? f).map Declaration.type :=
    Option.ext fun type => by
      rw [htype, htype]
      exact exists_congr fun kind => has_iff_of_data_eq h _
  rw [SymbolTable.typeOf, SymbolTable.typeOf, hsame]

/-- A walk that grows into one with the same data has the same symbols in the same order. -/
theorem keys_of_data_eq (hgrow : w.Grows w') :
    w'.symbols.declarations.keys = w.symbols.declarations.keys := by
  refine (hgrow.symbols.eq_of_length_le ?_).symm
  refine (List.subperm_of_subset w'.symbols.declarations.nodup_keys fun f hf => ?_).length_le
  have hkind : (w'.symbols.kindOf? f).isSome :=
    (SymbolTable.isSome_kindOf?_iff _ _).2 hf
  rw [kindOf?_of_data_eq h] at hkind
  exact (SymbolTable.isSome_kindOf?_iff _ _).1 hkind

/-- A walk that grows into one with the same data agrees with it. -/
theorem agrees_of_data_eq (hgrow : w.Grows w') (hlayout : w.scopes.SameLayout w'.scopes) :
    -- Each part of the agreement is one kind of piece; the order of the symbols comes from growth.
    w.Agrees w' where
  scopes :=
    { layout := hlayout
      bindings := fun i name => Option.ext fun t => has_iff_of_data_eq h (.binding i name t)
      globals := fun i name => Bool.eq_iff_iff.2 (has_iff_of_data_eq h (.global i name))
      nonlocals := fun i name => Bool.eq_iff_iff.2 (has_iff_of_data_eq h (.nonlocal i name))
      methods := fun i => Option.ext fun c => has_iff_of_data_eq h (.method i c) }
  symbols :=
    { types := by
        rw [SymbolTable.types_eq_map_typeOf, SymbolTable.types_eq_map_typeOf,
          keys_of_data_eq h hgrow]
        exact List.map_congr_left fun f _ => congrArg (f, ·) (typeOf_of_data_eq h f)
      kinds := kindOf?_of_data_eq h
      bases := fun c => List.ext_getElem? fun i =>
        Option.ext fun b => has_iff_of_data_eq h (.base c i b) }
  classScopes c := Option.ext fun i => has_iff_of_data_eq h (.classScope c i)

end

end Walk

/-! ### Finitely many data -/

namespace Limits

variable (ℓ : Limits)

/-- The pieces that a walk within the limits can have if there are `size` scopes. -/
def AllowsDatum (size : Nat) : Datum → Prop
  | .binding i name target => i < size ∧ name ∈ ℓ.words ∧ ℓ.Allows ℓ.reach target.fqn
  | .global i name | .nonlocal i name => i < size ∧ name ∈ ℓ.words
  | .method i c => i < size ∧ ℓ.Allows ℓ.depth c
  | .symbol f _ type => ℓ.Allows (ℓ.depth + 2) f ∧ TypeWithin ℓ type
  | .base c i b => ℓ.Allows (ℓ.depth + 1) c ∧ i < ℓ.steps ∧ ℓ.Allows ℓ.height b
  | .classScope c i => ℓ.Allows (ℓ.depth + 1) c ∧ i < size

/-- There are finitely many allowed names. -/
theorem finite_allows (n : Nat) : {f | ℓ.Allows n f}.Finite := by
  have hlists := List.finite_length_le {s // s ∈ ℓ.words} n
  refine (hlists.image fun l => (⟨l.map Subtype.val⟩ : Fqn)).subset ?_
  rintro f ⟨hlength, hwords⟩
  have hlength' : (f.segments.attachWith (· ∈ ℓ.words) hwords).length ≤ n := by
    rw [List.length_attachWith]
    exact hlength
  exact ⟨_, hlength', congrArg Fqn.mk (List.attachWith_map_subtype_val hwords)⟩

/-- There are finitely many texts. -/
theorem finite_words : {s | s ∈ ℓ.words}.Finite := List.finite_toSet ℓ.words

/-- There are finitely many targets with allowed names. -/
theorem finite_targets (n : Nat) : {t : NameTarget | ℓ.Allows n t.fqn}.Finite := by
  have hnames := ℓ.finite_allows n
  refine (((hnames.image .declared).union (hnames.image .imported)).union
    (hnames.image .builtin)).subset fun t ht => ?_
  cases t with
  | declared f => exact .inl (.inl ⟨f, ht, rfl⟩)
  | imported f => exact .inl (.inr ⟨f, ht, rfl⟩)
  | builtin f => exact .inr ⟨f, ht, rfl⟩

/-- There are finitely many types with allowed names. -/
theorem finite_types : {type | TypeWithin ℓ type}.Finite := by
  have hwords := ℓ.finite_words
  refine ((((ℓ.finite_allows ℓ.height).image .resolved).union (hwords.image .primitive)).union
    (((hwords.image (.error .callNotDeclared)).union (hwords.image (.error .callNotFound))).union
      (Set.finite_singleton .unknown))).subset fun type htype => ?_
  cases type with
  | resolved f => exact .inl (.inl ⟨f, htype, rfl⟩)
  | primitive name => exact .inl (.inr ⟨name, htype, rfl⟩)
  | error reason attempted =>
    cases reason with
    | callNotDeclared => exact .inr (.inl (.inl ⟨attempted, htype, rfl⟩))
    | callNotFound => exact .inr (.inl (.inr ⟨attempted, htype, rfl⟩))
  | unknown => exact .inr (.inr rfl)

/-- There are finitely many kinds of symbols. -/
theorem finite_kinds : (Set.univ : Set SymbolKind).Finite :=
  (List.finite_toSet SymbolKind.all).subset fun kind _ => by cases kind <;> decide

/-- There are only finitely many pieces within the limits. -/
theorem finite_within (size : Nat) : {x | ℓ.AllowsDatum size x}.Finite := by
  -- Each kind of piece is the image of a product of finite sets.
  have hscopes := Set.finite_lt_nat size
  have hsteps := Set.finite_lt_nat ℓ.steps
  have hwords := ℓ.finite_words
  have hclasses := ℓ.finite_allows (ℓ.depth + 1)
  have hbindings := (hscopes.prod (hwords.prod (ℓ.finite_targets ℓ.reach))).image
    fun p => Datum.binding p.1 p.2.1 p.2.2
  have hglobals := (hscopes.prod hwords).image fun p => Datum.global p.1 p.2
  have hnonlocals := (hscopes.prod hwords).image fun p => Datum.nonlocal p.1 p.2
  have hmethods := (hscopes.prod (ℓ.finite_allows ℓ.depth)).image fun p => Datum.method p.1 p.2
  have hsymbols := ((ℓ.finite_allows (ℓ.depth + 2)).prod (finite_kinds.prod ℓ.finite_types)).image
    fun p => Datum.symbol p.1 p.2.1 p.2.2
  have hbases := (hclasses.prod (hsteps.prod (ℓ.finite_allows ℓ.height))).image
    fun p => Datum.base p.1 p.2.1 p.2.2
  have hclassScopes := (hclasses.prod hscopes).image fun p => Datum.classScope p.1 p.2
  refine (hbindings.union (hglobals.union (hnonlocals.union (hmethods.union
    (hsymbols.union (hbases.union hclassScopes)))))).subset fun x hx => ?_
  cases x with
  | binding i name target => exact .inl ⟨(i, name, target), hx, rfl⟩
  | global i name => exact .inr (.inl ⟨(i, name), hx, rfl⟩)
  | nonlocal i name => exact .inr (.inr (.inl ⟨(i, name), hx, rfl⟩))
  | method i c => exact .inr (.inr (.inr (.inl ⟨(i, c), hx, rfl⟩)))
  | symbol f kind type =>
    exact .inr (.inr (.inr (.inr (.inl ⟨(f, kind, type), ⟨hx.1, trivial, hx.2⟩, rfl⟩))))
  | base c i b => exact .inr (.inr (.inr (.inr (.inr (.inl ⟨(c, i, b), hx, rfl⟩)))))
  | classScope c i => exact .inr (.inr (.inr (.inr (.inr (.inr ⟨(c, i), hx, rfl⟩)))))

end Limits

/-! ### Walks within limits -/

/-- What a scope tree says about a frame, it says about one that it has. -/
theorem ScopeTree.lt_size_of_frame? {t : ScopeTree} {i : Nat} {f : Frame} (h : t.frame? i = some f) :
    i < t.size := (Array.getElem?_eq_some_iff.1 h).1

/-- A walk within the limits has pieces within the limits. -/
theorem Walk.Within.allowsDatum {ℓ : Limits} {module : Fqn} {w : Walk} (h : w.Within ℓ)
    (hw : w.WellFormed module) {x : Datum} (hx : w.Has x) : ℓ.AllowsDatum w.scopes.size x := by
  -- The position of a piece is that of a scope, and its names are allowed.
  cases x with
  | binding i name target =>
    obtain ⟨f, hf, -⟩ := Option.bind_eq_some_iff.1 hx
    exact ⟨ScopeTree.lt_size_of_frame? hf, h.scopes.bindings i name target hx⟩
  | global i name =>
    obtain ⟨f, hf, -⟩ := (Option.any_eq_true _ _).1 hx
    exact ⟨ScopeTree.lt_size_of_frame? hf, h.scopes.globals i name hx⟩
  | «nonlocal» i name =>
    obtain ⟨f, hf, -⟩ := (Option.any_eq_true _ _).1 hx
    exact ⟨ScopeTree.lt_size_of_frame? hf, h.scopes.nonlocals i name hx⟩
  | method i c =>
    obtain ⟨info, hinfo, -⟩ := Option.bind_eq_some_iff.1 hx
    obtain ⟨f, hf, -⟩ := Option.bind_eq_some_iff.1 hinfo
    exact ⟨ScopeTree.lt_size_of_frame? hf, h.scopes.methods i c hx⟩
  | symbol f kind type =>
    obtain ⟨d, hd, -, rfl⟩ := hx
    exact h.symbols.symbols f d hd
  | base c i b =>
    obtain ⟨hi, hb⟩ := List.getElem?_eq_some_iff.1 hx
    exact ⟨h.symbols.classes c (List.ne_nil_of_length_pos (Nat.zero_lt_of_lt hi)),
      Nat.lt_of_lt_of_le hi (h.symbols.length_bases c),
      h.symbols.bases c b (List.mem_of_getElem? hx)⟩
  | classScope c i => exact ⟨h.classScopes c i hx, (hw.classScopes c i hx).1⟩

namespace Walk

variable (context : ImportContext) (m : Module)

/-- Later walks have grown from earlier ones. -/
theorem grows_walks {k l : Nat} (h : k ≤ l) : (walks context m k).Grows (walks context m l) := by
  induction h with
  | refl => exact .refl _
  | step _ ih => exact ih.trans (grows_walks_succ context m _)

/-- Behind the first walk the data lie in one finite set. -/
theorem data_walks_subset {k : Nat} (hk : 1 ≤ k) :
    (walks context m k).data ⊆
      {x | (m.limits context).AllowsDatum (walks context m 1).scopes.size x} := fun x hx => by
  have hallowed := (within_limits context m k).allowsDatum (wellFormed_walks context m k) hx
  rwa [(sameLayout_walks context m (Nat.le_refl 1) hk).size] at hallowed

/-- Some two walks agree on all that is read in a walk. -/
theorem exists_agrees : ∃ k l, 1 ≤ k ∧ k < l ∧ (walks context m k).Agrees (walks context m l) := by
  have hfinite := ((m.limits context).finite_within (walks context m 1).scopes.size).finite_subsets
  obtain ⟨k, l, hkl, hdata⟩ := Set.Finite.exists_lt_map_eq_of_forall_mem
    (f := fun k => (walks context m (k + 1)).data)
    (fun k => data_walks_subset context m (Nat.le_add_left 1 k)) hfinite
  exact ⟨k + 1, l + 1, by omega, by omega, agrees_of_data_eq hdata (grows_walks context m (by omega))
    (sameLayout_walks context m (by omega) (by omega))⟩

end Walk

end NameAtlas.Python
