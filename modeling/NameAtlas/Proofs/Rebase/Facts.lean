import NameAtlas.Fact.Record
import NameAtlas.Proofs.Rebase.Names

/-!
# Facts under other names

What a change of names does to the records of facts (`FileFacts.mapNames`): it reaches the names of
symbols, the owners of scopes, types that are symbols, what references lead to and the two ends of
an inheritance, and nothing else. Kinds, numbers, places, other types, texts that were looked up
and findings stay. Changes that agree on the names that some facts mention (`FileFacts.Mentions`)
do the same to the facts (`FileFacts.mapNames_congr`).
-/

namespace NameAtlas

variable (g g' : Fqn → Fqn)

/-- The type with another name for its symbol. -/
def BindingType.mapNames : BindingType → BindingType
  | .resolved f => .resolved (g f)
  | .primitive name => .primitive name
  | .error reason attempted => .error reason attempted
  | .unknown => .unknown

/-- The target with another name for its symbol. -/
def UsageTarget.mapNames : UsageTarget → UsageTarget
  | .resolved f => .resolved (g f)
  | .unresolved name => .unresolved name

/-- The scope with another name for its owner. -/
def LocalScope.mapNames (s : LocalScope) : LocalScope := { s with owner := g s.owner }

/-- The declaration with other names for the symbol and its type. -/
def Declaration.mapNames (d : Declaration) : Declaration :=
  { d with fqn := g d.fqn, type := d.type.mapNames g }

/-- The reference with another name for what it leads to. -/
def Reference.mapNames (r : Reference) : Reference := { r with target := r.target.mapNames g }

/-- The inheritance with other names for the class and the base. -/
def Inheritance.mapNames (i : Inheritance) : Inheritance := ⟨g i.derived, g i.base⟩

/-- The facts with other names. -/
def FileFacts.mapNames (facts : FileFacts) : FileFacts :=
  { path := facts.path
    module := g facts.module
    scopes := facts.scopes.map (LocalScope.mapNames g)
    declarations := facts.declarations.map (Declaration.mapNames g)
    references := facts.references.map (Reference.mapNames g)
    findings := facts.findings
    inheritances := facts.inheritances.map (Inheritance.mapNames g) }

/-! ### Types and targets -/

namespace BindingType

variable {g g'}

/-- A type without a name is not changed. -/
theorem mapNames_of_fqn? {t : BindingType} (h : t.fqn? = none) : t.mapNames g = t := by
  cases t with
  | resolved f => cases h
  | _ => rfl

/-- Two renamings that agree on the name of a type change it alike. -/
theorem mapNames_congr {t : BindingType} (h : ∀ f, t = .resolved f → g f = g' f) :
    t.mapNames g = t.mapNames g' := by
  cases t with
  | resolved f => exact congrArg resolved (h f rfl)
  | _ => rfl

/-- An injective renaming is injective on types. -/
theorem mapNames_injective (h : Function.Injective g) : Function.Injective (mapNames g) := by
  intro t t' heq
  cases t with
  | resolved f =>
    cases t' with
    | resolved f' =>
      have hff' : g f = g f' := resolved.inj heq
      rw [h hff']
    | _ => cases heq
  | _ => cases t' <;> first | exact heq | cases heq

variable (g)

/-- The name of a renamed type is the renamed one. -/
@[simp] theorem fqn?_mapNames (t : BindingType) : (t.mapNames g).fqn? = t.fqn?.map g := by
  cases t <;> rfl

/-- A renamed type is known if the type is. -/
@[simp] theorem known?_mapNames (t : BindingType) :
    (t.mapNames g).known? = t.known?.map (mapNames g) := by
  cases t <;> rfl

end BindingType

namespace UsageTarget

variable {g g'}

/-- Two renamings that agree on the name of a target change it alike. -/
theorem mapNames_congr {t : UsageTarget} (h : ∀ f, t = .resolved f → g f = g' f) :
    t.mapNames g = t.mapNames g' := by
  cases t with
  | resolved f => exact congrArg resolved (h f rfl)
  | unresolved name => rfl

variable (g)

/-- A target is renamed by renaming what was found. -/
theorem ofOption_map (found : Option Fqn) (name : String) :
    ofOption (found.map g) name = (ofOption found name).mapNames g := by
  cases found <;> rfl

end UsageTarget

/-! ### The names in facts -/

/-- True for facts of which all names have a property. -/
structure FileFacts.Mentions (facts : FileFacts) (P : Fqn → Prop) : Prop where
  /-- The module. -/
  module : P facts.module
  /-- The owners of scopes. -/
  owners : ∀ s ∈ facts.scopes, P s.owner
  /-- The symbols. -/
  symbols : ∀ d ∈ facts.declarations, P d.fqn
  /-- The types that are symbols. -/
  types : ∀ d ∈ facts.declarations, ∀ f, d.type = .resolved f → P f
  /-- What references lead to. -/
  targets : ∀ r ∈ facts.references, ∀ f, r.target = .resolved f → P f
  /-- The classes that have bases. -/
  classes : ∀ i ∈ facts.inheritances, P i.derived
  /-- The bases. -/
  bases : ∀ i ∈ facts.inheritances, P i.base

namespace FileFacts

variable {g g'}

/-- Changes of names that agree on the names in some facts do the same to the facts. -/
theorem mapNames_congr {facts : FileFacts} (h : facts.Mentions fun f => g f = g' f) :
    facts.mapNames g = facts.mapNames g' := by
  -- Record by record: the renamings agree on each name that a record mentions.
  have hscopes : facts.scopes.map (LocalScope.mapNames g) =
      facts.scopes.map (LocalScope.mapNames g') :=
    List.map_congr_left fun s hs => by
      rw [LocalScope.mapNames, LocalScope.mapNames, h.owners s hs]
  have hdeclarations : facts.declarations.map (Declaration.mapNames g) =
      facts.declarations.map (Declaration.mapNames g') :=
    List.map_congr_left fun d hd => by
      have htype : d.type.mapNames g = d.type.mapNames g' :=
        BindingType.mapNames_congr (h.types d hd)
      rw [Declaration.mapNames, Declaration.mapNames, h.symbols d hd, htype]
  have hreferences : facts.references.map (Reference.mapNames g) =
      facts.references.map (Reference.mapNames g') :=
    List.map_congr_left fun r hr => by
      have htarget : r.target.mapNames g = r.target.mapNames g' :=
        UsageTarget.mapNames_congr (h.targets r hr)
      rw [Reference.mapNames, Reference.mapNames, htarget]
  have hinheritances : facts.inheritances.map (Inheritance.mapNames g) =
      facts.inheritances.map (Inheritance.mapNames g') :=
    List.map_congr_left fun i hi => by
      rw [Inheritance.mapNames, Inheritance.mapNames, h.classes i hi, h.bases i hi]
  rw [mapNames, mapNames, h.module, hscopes, hdeclarations, hreferences, hinheritances]

/-- Facts that mention names of one class mention those of a larger one. -/
theorem Mentions.mono {facts : FileFacts} {P Q : Fqn → Prop} (h : facts.Mentions P)
    (hPQ : ∀ f, P f → Q f) : facts.Mentions Q where
  module := hPQ _ h.module
  owners s hs := hPQ _ (h.owners s hs)
  symbols d hd := hPQ _ (h.symbols d hd)
  types d hd f hf := hPQ _ (h.types d hd f hf)
  targets r hr f hf := hPQ _ (h.targets r hr f hf)
  classes i hi := hPQ _ (h.classes i hi)
  bases i hi := hPQ _ (h.bases i hi)

end FileFacts

end NameAtlas
