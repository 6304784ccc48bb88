import NameAtlas.Proofs.Rebase.Scopes
import NameAtlas.Proofs.Rebase.Symbols
import NameAtlas.Proofs.Walk.Known
import NameAtlas.Proofs.Walk.WellFormed

/-!
# Inference under other names

The rules that give a type to a call, to an instance, to a member and to an annotation look names up
and never take them apart, so they commute with a change of names. A rule that names a member below
a class, or a path below a name, does so only if the class or the name is one that can be mentioned.
That this is so is known from what a walk holds: without imports, all names are the module, names
below it, and built-in names (`Vocabulary.closed`).
-/

namespace NameAtlas.Python

open Source

/-- What a module without imports may refer to: itself, what lies below it, and the built-ins. -/
def Vocabulary.closed (source : SourceText) (context : ImportContext) : Vocabulary :=
  { source
    context
    imports := fun _ => False
    declared := fun f => f.liesAtOrBelow context.module }

namespace Vocabulary

variable {source : SourceText} {context : ImportContext} {f : Fqn}

/-- In a closed vocabulary nothing is imported. -/
theorem not_imported_closed : ¬(closed source context).Imported f := fun ⟨_, hb, _⟩ => hb

/-- A name that is known in a closed vocabulary is covered by the module. -/
theorem Known.covered (h : (closed source context).Known f) : f.Covered context.module := by
  rcases h with h | h | ⟨name, -, rfl⟩
  · exact .inl h
  · exact absurd h not_imported_closed
  · exact Fqn.covered_builtin name

/-- The closed vocabulary of a walk includes all that it declares. -/
theorem includes_closed {w : Walk} (h : w.WellFormed context.module) :
    (closed source context).Includes w := by
  intro f hf
  obtain ⟨d, hd⟩ := Option.isSome_iff_exists.1 ((Table.mem_keys_iff _ f).1 hf)
  by_cases hmodule : f = context.module
  · exact hmodule ▸ f.liesAtOrBelow_self
  · exact Fqn.liesAtOrBelow_of_liesBelow (h.symbols.below f d hmodule hd).2.2.1

end Vocabulary

/-- A walk over a module without imports. -/
structure Walk.Closed (source : SourceText) (context : ImportContext) (w : Walk) : Prop where
  /-- Its scopes and symbols are those of the module. -/
  wellFormed : w.WellFormed context.module
  /-- It refers to nothing outside the module, the built-ins apart. -/
  known : w.Known (.closed source context)

namespace Walk.Closed

variable {source : SourceText} {context : ImportContext} {w : Walk}

/-- The vocabulary of a closed walk includes what the walk declares. -/
theorem includes (h : w.Closed source context) : (Vocabulary.closed source context).Includes w :=
  Vocabulary.includes_closed h.wellFormed

/-- A class of a closed walk is covered by its module. -/
theorem covered_class (h : w.Closed source context) {f : Fqn} (hf : w.symbols.isClass f) :
    f.Covered context.module := .inl (h.includes f (declares_of_isClass hf))

/-- The bases of a closed walk are covered by its module. -/
theorem covered_bases (h : w.Closed source context) (c : Fqn) :
    ∀ b ∈ w.symbols.basesOf c, b.Covered context.module :=
  fun b hb => (h.known.bases c b hb).covered

/-- What a name stands for is declared or built in. -/
theorem lookup_ne_imported (h : w.Closed source context) (scope : Nat) (name : String) (f : Fqn) :
    w.scopes.lookup scope name ≠ some (.imported f) :=
  fun hf => Vocabulary.not_imported_closed (h.known.lookup hf)

end Walk.Closed

/-- The value with other names. -/
def Evaluated.mapNames (g : Fqn → Fqn) (v : Evaluated) : Evaluated :=
  ⟨v.type.mapNames g, v.target.map (NameTarget.mapNames g)⟩

/-- The member with another name. -/
def Member.mapNames (g : Fqn → Fqn) : Member → Member
  | .declared f => .declared (g f)
  | .external f => .external (g f)

/-- The name of a renamed member is the renamed one. -/
@[simp] theorem Member.fqn_mapNames (g : Fqn → Fqn) (m : Member) :
    (m.mapNames g).fqn = g m.fqn := by
  cases m <;> rfl

/-- The name of a renamed member, if there is one, is the renamed one. -/
theorem Member.map_fqn_mapNames (g : Fqn → Fqn) (m : Option Member) :
    (m.map (Member.mapNames g)).map Member.fqn = (m.map Member.fqn).map g := by
  cases m <;> simp

section

variable {source : SourceText} {context : ImportContext} {new : Fqn}
  (ρ : Rebasing context.module new) (symbols : SymbolTable)

/-- A renamed call gives the renamed type. -/
theorem callType_mapNames (callee : Evaluated) (written : String) :
    callType (symbols.mapNames ρ) (callee.mapNames ρ) written =
      (callType symbols callee written).mapNames ρ := by
  rcases callee with ⟨type, _ | f | f | f⟩
  case some.declared =>
    simp only [callType, Evaluated.mapNames, Option.map_some, NameTarget.mapNames,
      SymbolTable.kindOf?_mapNames, SymbolTable.typeOf_mapNames]
    split <;> rfl
  all_goals rfl

/-- A renamed value has the renamed instance type. -/
theorem instanceType_mapNames (value : Evaluated) :
    instanceType (symbols.mapNames ρ) (value.mapNames ρ) =
      (instanceType symbols value).mapNames ρ := by
  rcases value with ⟨type, _ | f | f | f⟩
  case some.declared =>
    simp only [instanceType, Evaluated.mapNames, Option.map_some, NameTarget.mapNames,
      SymbolTable.isClass_mapNames]
    split <;> rfl
  all_goals rfl

/-- The class of a renamed type is the renamed class. -/
theorem classOf?_mapNames (type : BindingType) :
    classOf? (symbols.mapNames ρ) (type.mapNames ρ) = (classOf? symbols type).map ρ := by
  have hclass : (symbols.mapNames ρ).isClass ∘ ρ = symbols.isClass :=
    funext (symbols.isClass_mapNames ρ)
  rw [classOf?, classOf?, BindingType.fqn?_mapNames, Option.filter_map, hclass]

variable {w : Walk}

/-- The member of a name on a value lies below an ancestor of the class of the value. -/
theorem memberOf?_mapNames (hw : w.Closed source context) {object : Evaluated}
    (hobject : object.Known (.closed source context)) (name : String) :
    memberOf? (w.symbols.mapNames ρ) (object.mapNames ρ) name =
      (memberOf? w.symbols object name).map (Member.mapNames ρ) := by
  have hclass := classOf?_mapNames ρ w.symbols object.type
  have htype : (object.mapNames ρ).type = object.type.mapNames ρ := rfl
  rw [memberOf?, memberOf?, htype, hclass]
  cases hc : classOf? w.symbols object.type with
  | some c =>
    have hcovered : c.Covered context.module := hw.covered_class (Option.filter_eq_some_iff.1 hc).2
    have hmember := SymbolTable.resolveMember?_mapNames ρ w.symbols hcovered hw.covered_bases name
    show ((w.symbols.mapNames ρ).hierarchy.resolveMember? (ρ c) name).map Member.declared = _
    rw [hmember, Option.map_map, Option.map_map]
    rfl
  | none =>
    rcases object with ⟨type, _ | f | f | f⟩
    -- Nothing that is imported has members here.
    case some.imported => exact absurd (hobject.target _ rfl) Vocabulary.not_imported_closed
    all_goals rfl

/-- A name has the renamed type in renamed scopes and symbols. -/
theorem nameType_mapNames (t : ScopeTree) (scope : Nat) (name : String) :
    nameType (t.mapNames ρ) (symbols.mapNames ρ) scope name =
      (nameType t symbols scope name).mapNames ρ := by
  rw [nameType, nameType, ScopeTree.lookup_mapNames]
  rcases t.lookup scope name with _ | f | f | f
  case some.declared =>
    simp only [Option.map_some, NameTarget.mapNames, SymbolTable.isClass_mapNames]
    split <;> rfl
  case some.builtin =>
    simp only [Option.map_some, NameTarget.mapNames]
    split <;> rfl
  all_goals rfl

/-- A dotted path has the renamed type in renamed scopes and symbols. -/
theorem pathType_mapNames (hw : w.Closed source context) (scope : Nat) (first : String)
    (rest : List String) :
    pathType (w.scopes.mapNames ρ) (w.symbols.mapNames ρ) scope first rest =
      (pathType w.scopes w.symbols scope first rest).mapNames ρ := by
  rw [pathType, pathType, ScopeTree.lookup_mapNames]
  rcases hlookup : w.scopes.lookup scope first with _ | f | f | f
  case some.declared =>
    have hcovered : f.Covered context.module := .inl (hw.known.lookup hlookup)
    simp only [Option.map_some, NameTarget.mapNames, ← ρ.map_descendant f rest hcovered,
      SymbolTable.isClass_mapNames]
    split <;> rfl
  case some.imported => exact absurd hlookup (hw.lookup_ne_imported scope first f)
  all_goals rfl

/-- A hint has the renamed type in renamed scopes and symbols. -/
theorem formType_mapNames (hw : w.Closed source context) (scope : Nat) (form : TypeForm) :
    form.type (w.scopes.mapNames ρ) (w.symbols.mapNames ρ) scope =
      (form.type w.scopes w.symbols scope).mapNames ρ := by
  induction form with
  | noneType => rfl
  | name text => exact nameType_mapNames ρ w.symbols w.scopes scope text
  | path first rest => exact pathType_mapNames ρ hw scope first rest
  | optional inner ih =>
    rw [TypeForm.type, TypeForm.type, ih, BindingType.known?_mapNames]
    cases (inner.type w.scopes w.symbols scope).known? <;> rfl
  | unknown => rfl

end

end NameAtlas.Python
