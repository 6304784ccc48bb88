import NameAtlas.Fqn

/-!
# Names under another module

Giving a module another name changes the names at and below it: the segments of the module at the
front are replaced, and those behind stay (`Fqn.rebase`). What an analysis asks about names is
whether two are equal, and which name lies some segments below another. Replacing the front keeps
the answers for the names that a module without imports can mention, its own and the built-in ones
(`Fqn.Covered`), but not for all names: a name below the new module that was never below the old one
stays where it is, and other names come to lie on it.

A `Rebasing` is a change of names that agrees with `Fqn.rebase` where it matters and keeps all names
apart, so that tables with names as keys can be carried over without a thought about which names
they hold. Between two modules there always is one (`exists_rebasing`): it puts the names that no
analysis mentions aside.
-/

namespace NameAtlas

namespace Fqn

/-- The name that a name gets when the module `old` is called `new`: what stands behind the old
module comes behind the new one, and other names stay. -/
def rebase (f old new : Fqn) : Fqn :=
  if f.liesAtOrBelow old then new.descendant (f.segments.drop old.length) else f

/-- True for the names that can be those of modules: they have segments, and the first is not that
of the built-ins. -/
def IsModule (f : Fqn) : Prop := f.segments ≠ [] ∧ f.segments.head? ≠ some builtinsModule

instance (f : Fqn) : Decidable f.IsModule := inferInstanceAs (Decidable (_ ∧ _))

/-- True for the names at and below a module, and for those at and below the built-ins. -/
def Covered (f module : Fqn) : Prop :=
  f.liesAtOrBelow module ∨ f.segments.head? = some builtinsModule

variable {f module old new : Fqn}

/-- A name is its segments. -/
theorem ext {f g : Fqn} (h : f.segments = g.segments) : f = g := by
  cases f
  cases g
  exact congrArg Fqn.mk h

/-- What lies at or below a module are its descendants. -/
theorem liesAtOrBelow_iff : f.liesAtOrBelow module ↔ ∃ names, f = module.descendant names := by
  rw [liesAtOrBelow, List.isPrefixOf_iff_prefix]
  constructor
  · rintro ⟨names, h⟩
    exact ⟨names, ext h.symm⟩
  · rintro ⟨names, rfl⟩
    exact ⟨names, rfl⟩

/-- A descendant of a descendant is one. -/
theorem descendant_descendant (f : Fqn) (names names' : List String) :
    (f.descendant names).descendant names' = f.descendant (names ++ names') :=
  ext (List.append_assoc _ _ _)

/-- No names lead nowhere else. -/
@[simp] theorem descendant_nil (f : Fqn) : f.descendant [] = f := ext (List.append_nil _)

/-- A name with segments keeps its first one when others come behind. -/
theorem head?_descendant (h : f.segments ≠ []) (names : List String) :
    (f.descendant names).segments.head? = f.segments.head? := by
  obtain ⟨head, rest, hf⟩ := List.exists_cons_of_ne_nil h
  rw [segments_descendant, hf]
  rfl

/-- What lies below a covered name is covered. -/
theorem Covered.descendant (h : f.Covered module) (names : List String) :
    (f.descendant names).Covered module := by
  rcases h with h | h
  · obtain ⟨names', rfl⟩ := liesAtOrBelow_iff.1 h
    exact .inl (liesAtOrBelow_iff.2 ⟨_, descendant_descendant _ _ _⟩)
  · have hne : f.segments ≠ [] := fun hnil => by simp [hnil] at h
    exact .inr ((head?_descendant hne names).trans h)

/-- Built-in names are covered by every module. -/
theorem covered_builtin (name : String) : (builtin name).Covered module := .inr rfl

/-- Below a module with segments, names begin with its first segment. -/
theorem not_liesAtOrBelow_of_head? (h : module.segments ≠ [])
    (hf : f.segments.head? ≠ module.segments.head?) : ¬f.liesAtOrBelow module := by
  intro hbelow
  obtain ⟨names, rfl⟩ := liesAtOrBelow_iff.1 hbelow
  exact hf (head?_descendant h names)

/-- No name at or below a module begins like the built-ins. -/
theorem IsModule.not_liesAtOrBelow (h : module.IsModule)
    (hf : f.segments.head? = some builtinsModule) : ¬f.liesAtOrBelow module :=
  not_liesAtOrBelow_of_head? h.1 fun hhead => h.2 (hhead.symm.trans hf)

/-- Below the old module the names stay and the module changes. -/
theorem rebase_descendant (old new : Fqn) (names : List String) :
    (old.descendant names).rebase old new = new.descendant names := by
  have hbelow : (old.descendant names).liesAtOrBelow old := liesAtOrBelow_iff.2 ⟨names, rfl⟩
  rw [rebase, if_pos hbelow, segments_descendant]
  exact congrArg new.descendant List.drop_left

/-- The module itself gets the new name. -/
theorem rebase_module (old new : Fqn) : old.rebase old new = new := by
  have h := rebase_descendant old new []
  rwa [descendant_nil, descendant_nil] at h

end Fqn

/-- A change of names that takes a module to another one, together with what lies below it, leaves
built-in names as they are, and keeps all names apart. -/
structure Rebasing (old new : Fqn) where
  /-- The name that a name gets. -/
  map : Fqn → Fqn
  /-- Names stay apart. -/
  injective : Function.Injective map
  /-- The module gets its new name. -/
  map_module : map old = new
  /-- The name without segments stays. -/
  map_empty : map .empty = .empty
  /-- Built-in names stay. -/
  map_builtin : ∀ name, map (.builtin name) = .builtin name
  /-- What lies below a name that can be mentioned comes to lie below the name that it gets. -/
  map_descendant : ∀ f names, f.Covered old → map (f.descendant names) = (map f).descendant names

namespace Rebasing

variable {old new : Fqn} (ρ : Rebasing old new)

instance : CoeFun (Rebasing old new) fun _ => Fqn → Fqn := ⟨Rebasing.map⟩

/-- A child is renamed with its parent. -/
theorem map_child {f : Fqn} (h : f.Covered old) (name : String) :
    ρ (f.child name) = (ρ f).child name := ρ.map_descendant f [name] h

end Rebasing

/-! ### A rebasing between two modules -/

namespace Fqn

/-- A segment that is longer than the first one of a name and than that of the built-ins. -/
def asideSegment (f : Fqn) : String := builtinsModule ++ f.segments.headD "" ++ "_"

/-- The name with the module in front replaced. Other names that are not built in are put aside,
where they meet neither those below the new module nor the built-ins. -/
def rebaseApart (f old new : Fqn) : Fqn :=
  if f.liesAtOrBelow old then f.rebase old new
  else if f = .empty ∨ f.segments.head? = some builtinsModule then f
  else ⟨new.asideSegment :: f.segments⟩

/-- The name that `rebaseApart` takes to a given one: `restore_rebaseApart`. -/
def restore (f old new : Fqn) : Fqn :=
  if f.liesAtOrBelow new then f.rebase new old
  else if f.segments.head? = some new.asideSegment then ⟨f.segments.tail⟩
  else f

variable {f old new : Fqn}

/-- The segment that is put aside is longer than the names that it keeps clear of. -/
theorem length_asideSegment (f : Fqn) :
    f.asideSegment.length = builtinsModule.length + (f.segments.headD "").length + 1 := by
  rw [asideSegment, String.length_append, String.length_append]
  rfl

/-- The segment that puts names aside begins no module name and no built-in name. -/
theorem asideSegment_ne_builtins (f : Fqn) : f.asideSegment ≠ builtinsModule := fun h => by
  have hlength := congrArg String.length h
  rw [length_asideSegment] at hlength
  omega

/-- No name begins with the segment that it is put aside by. -/
theorem head?_ne_asideSegment (f : Fqn) : f.segments.head? ≠ some f.asideSegment := fun h => by
  have hhead : f.segments.headD "" = f.asideSegment := by
    rw [List.headD_eq_head?_getD, h]
    rfl
  have hlength := congrArg String.length hhead
  rw [length_asideSegment] at hlength
  omega

/-- The three kinds of names, by what becomes of them. -/
theorem rebaseApart_cases (f old new : Fqn) :
    (∃ names, f = old.descendant names ∧ f.rebaseApart old new = new.descendant names) ∨
    (¬f.liesAtOrBelow old ∧ (f = .empty ∨ f.segments.head? = some builtinsModule) ∧
      f.rebaseApart old new = f) ∨
    f.rebaseApart old new = ⟨new.asideSegment :: f.segments⟩ := by
  unfold rebaseApart
  split
  case isTrue hbelow =>
    obtain ⟨names, rfl⟩ := liesAtOrBelow_iff.1 hbelow
    exact .inl ⟨names, rfl, rebase_descendant old new names⟩
  case isFalse hbelow =>
    split
    case isTrue hstay => exact .inr (.inl ⟨hbelow, hstay, rfl⟩)
    case isFalse => exact .inr (.inr rfl)

/-- A renamed name is led back to what it was. -/
theorem restore_rebaseApart (hnew : new.IsModule) (f old : Fqn) :
    (f.rebaseApart old new).restore old new = f := by
  have haside := head?_ne_asideSegment new
  rcases f.rebaseApart_cases old new with ⟨names, rfl, hf⟩ | ⟨-, hstay, hf⟩ | hf <;>
    rw [hf, restore]
  case inl =>
    rw [if_pos (liesAtOrBelow_iff.2 ⟨names, rfl⟩), rebase_descendant]
  case inr.inl =>
    -- The first segment is none, or that of the built-ins, and so neither of the other two.
    have hmodule : ¬f.liesAtOrBelow new := by
      refine not_liesAtOrBelow_of_head? hnew.1 fun h => ?_
      rcases hstay with rfl | hstay
      · exact hnew.1 (List.head?_eq_none_iff.1 h.symm)
      · exact hnew.2 (h.symm.trans hstay)
    have hnot : f.segments.head? ≠ some new.asideSegment := by
      rcases hstay with rfl | hstay
      · exact nofun
      · rw [hstay]
        exact fun h => asideSegment_ne_builtins new (Option.some.inj h).symm
    rw [if_neg hmodule, if_neg hnot]
  case inr.inr =>
    have hmodule : ¬(⟨new.asideSegment :: f.segments⟩ : Fqn).liesAtOrBelow new :=
      not_liesAtOrBelow_of_head? hnew.1 fun h => haside h.symm
    have hhead : (⟨new.asideSegment :: f.segments⟩ : Fqn).segments.head? = some new.asideSegment :=
      rfl
    rw [if_neg hmodule, if_pos hhead]
    rfl

/-- Names at and below the old module, and built-in ones, are not put aside. -/
theorem Covered.rebaseApart_eq (hf : f.Covered old) : f.rebaseApart old new = f.rebase old new := by
  unfold rebaseApart
  split
  case isTrue => rfl
  case isFalse hbelow =>
    have hhead : f.segments.head? = some builtinsModule := hf.resolve_left hbelow
    rw [if_pos (.inr hhead), rebase, if_neg hbelow]

/-- Built-in names lie below no module and stay. -/
theorem rebase_of_builtins (hold : old.IsModule) (hf : f.segments.head? = some builtinsModule) :
    f.rebase old new = f := if_neg (hold.not_liesAtOrBelow hf)

/-- Replacing the front does nothing to what stands behind. -/
theorem Covered.rebase_descendant (hold : old.IsModule) (hf : f.Covered old)
    (names : List String) :
    (f.descendant names).rebase old new = (f.rebase old new).descendant names := by
  rcases hf with hf | hf
  · obtain ⟨names', rfl⟩ := liesAtOrBelow_iff.1 hf
    rw [descendant_descendant, Fqn.rebase_descendant, Fqn.rebase_descendant,
      descendant_descendant]
  · have hne : f.segments ≠ [] := fun h => by simp [h] at hf
    rw [rebase_of_builtins hold hf, rebase_of_builtins hold ((head?_descendant hne names).trans hf)]

end Fqn

/-- Between two modules there is a rebasing that only replaces the front of the names that an
analysis can mention. -/
theorem exists_rebasing {old new : Fqn} (hold : old.IsModule) (hnew : new.IsModule) :
    ∃ ρ : Rebasing old new, ∀ f : Fqn, f.Covered old → ρ f = f.rebase old new := by
  have hmodule : old.Covered old := .inl old.liesAtOrBelow_self
  have hempty : ¬Fqn.empty.liesAtOrBelow old :=
    Fqn.not_liesAtOrBelow_of_head? hold.1 fun h => hold.1 (List.head?_eq_none_iff.1 h.symm)
  -- On covered names the map is `rebase`; the others are put aside, so that the map is injective
  -- everywhere.
  refine ⟨
    { map := fun f => f.rebaseApart old new
      injective := Function.LeftInverse.injective (g := fun f => f.restore old new)
        fun f => Fqn.restore_rebaseApart hnew f old
      map_module := hmodule.rebaseApart_eq.trans (Fqn.rebase_module old new)
      map_empty := by rw [Fqn.rebaseApart, if_neg hempty, if_pos (.inl rfl)]
      map_builtin := fun name =>
        (Fqn.covered_builtin name).rebaseApart_eq.trans (Fqn.rebase_of_builtins hold rfl)
      map_descendant := fun f names hf => ?_ }, fun f hf => hf.rebaseApart_eq⟩
  rw [(hf.descendant names).rebaseApart_eq, hf.rebaseApart_eq, hf.rebase_descendant hold names]

end NameAtlas
