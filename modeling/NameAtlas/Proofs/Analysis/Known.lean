import NameAtlas.Proofs.Analysis.WellFormed
import NameAtlas.Proofs.Reading.Faithful
import NameAtlas.Proofs.Walk.Known

/-!
# No dangling names

Every name that the facts about a file refer to leads somewhere: to a symbol of the file, to
something that an import statement of the file reaches, or to a built-in (`FileFacts.Anchored`). A
reference that leads nowhere repeats the text that it stands for, and one to a member leads to a
name that ends in that text. It is the invariant of the last walk, read off the facts.
-/

namespace NameAtlas

/-- True for a name that the facts about a file declare, or that lies outside the file. -/
def FileFacts.Knows (facts : FileFacts) (outside : Fqn → Prop) (f : Fqn) : Prop :=
  (∃ d ∈ facts.declarations, d.fqn = f) ∨ outside f

/-- Facts about a source that refer to what they declare and to some names outside. -/
structure FileFacts.Anchored (facts : FileFacts) (source : Source.SourceText)
    (outside : Fqn → Prop) : Prop where
  /-- What references lead to is known. -/
  resolved : ∀ r ∈ facts.references, ∀ f, r.target = .resolved f → facts.Knows outside f
  /-- Bases are known. -/
  bases : ∀ i ∈ facts.inheritances, facts.Knows outside i.base
  /-- Types that are symbols are known. -/
  types : ∀ d ∈ facts.declarations, ∀ f, d.type = .resolved f → facts.Knows outside f
  /-- A reference that leads nowhere repeats the text that it stands for. -/
  unresolved : ∀ r ∈ facts.references, ∀ name, r.target = .unresolved name →
    name = source.slice r.location.span.start r.location.span.stop
  /-- A reference to a member leads to a name that ends in that text. -/
  members : ∀ r ∈ facts.references, r.kind = .attr → ∀ f, r.target = .resolved f →
    f.name? = some (source.slice r.location.span.start r.location.span.stop)

namespace Python

open Source

/-- True for names at or below the target of an import statement of a tree. -/
def ImportedIn (source : SourceText) (tree : Node) (context : ImportContext) (f : Fqn) : Prop :=
  ∃ n ∈ tree.subtrees, ∃ b ∈ (Part.ofNode source n).importBindings,
    f.liesAtOrBelow (b.target context.module context.isPackage)

/-- The facts of a walk that holds known names only are anchored. -/
theorem Walk.Known.factsOf {V : Vocabulary} {path : String} {module : Fqn} {m : Module} {w : Walk}
    {outside : Fqn → Prop} (hw : w.WellFormed module) (h : w.Known V)
    (hdeclared : ∀ f, V.declared f → w.Declares f)
    (houtside : ∀ f, V.Imported f ∨ f.IsBuiltinName → outside f) :
    (factsOf path module m w).Anchored V.source outside := by
  -- A known name is a declared one, which the facts list, or comes from outside.
  have hknows (f : Fqn) (hf : V.Known f) :
      (Python.factsOf path module m w).Knows outside f := by
    exact hf.imp (fun hf => hw.symbols.keyed.mem_keys_iff.1 (hdeclared f hf)) (houtside f)
  have hreference (r : Reference) (hr : r ∈ (Python.factsOf path module m w).references) :
      ReferenceKnown V r :=
    h.references r (mem_references_factsOf.1 hr)
  constructor
  case resolved =>
    intro r hr f hf
    have hr := hreference r hr
    rw [ReferenceKnown, hf] at hr
    exact hknows f hr.1
  case bases =>
    intro i hi
    obtain ⟨-, hbase⟩ := SymbolTable.mem_toInheritances_iff.1 hi
    exact hknows i.base (h.bases i.derived i.base hbase)
  case types =>
    intro d hd f hf
    exact hknows f (h.types d.fqn d (hw.symbols.mem_toDeclarations hd) f (by rw [hf]; rfl))
  case unresolved =>
    intro r hr name hname
    have hr := hreference r hr
    rwa [ReferenceKnown, hname] at hr
  case members =>
    intro r hr hkind f hf
    have hr := hreference r hr
    rw [ReferenceKnown, hf] at hr
    exact hr.2 hkind

/-- Whatever the tree, the facts about a file refer to nothing besides the symbols of the file, what
its import statements reach, and built-ins. -/
theorem analyze_anchored (path : String) (module : Fqn) (text : String) (tree : Node)
    (passes : Nat) :
    ∃ facts, analyze ⟨passes, false⟩ ⟨path, module, text, some tree⟩ = .ok facts ∧
      facts.Anchored (.ofString text) fun f =>
        ImportedIn (.ofString text) tree (.ofPath path module) f ∨
          ∃ name, isBuiltin name ∧ f = .builtin name := by
  let m := Module.ofTree (.ofString text) tree
  let context := ImportContext.ofPath path module
  let w := Walk.walks context m (m.silentWalks context passes + 1)
  -- The symbols of the file are those that the last walk ends with.
  let V : Vocabulary :=
    { source := .ofString text
      context
      imports := fun b => ∃ n ∈ tree.subtrees, b ∈ (Part.ofNode (.ofString text) n).importBindings
      declared := w.Declares }
  have hknown : w.Known V :=
    Walk.known_walks (V := V) (m := m) (faithful_program (.ofString text) tree) _ fun _ hf => hf
  refine ⟨_, (analyze_eq_ok path module text tree passes).trans
    (congrArg _ (analyzeModule_eq path module m passes)),
    hknown.factsOf (Walk.wellFormed_walks context m _) (fun _ hf => hf) fun f hf => ?_⟩
  refine hf.imp_left ?_
  rintro ⟨b, ⟨n, hn, hb⟩, hbelow⟩
  exact ⟨n, hn, b, hb, hbelow⟩

end Python

end NameAtlas
