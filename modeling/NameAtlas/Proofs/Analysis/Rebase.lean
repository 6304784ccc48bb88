import NameAtlas.Proofs.Analysis.Settled
import NameAtlas.Proofs.Reading.Coverage
import NameAtlas.Proofs.Reading.Faithful
import NameAtlas.Proofs.Rebase.Run

/-!
# The module name is only a prefix

The name of a module stands in front of all names that an analysis gives to what the module
declares, and decides nothing else: if nothing is imported, the facts under another name are the
facts with the front of the names replaced (`analyze_rebase`). An import could be relative to the
module, or could name the module itself, and so say more about its name.

The last walk is carried over to the other name by a `Rebasing`, the facts are read off on both
sides (`factsOf_mapNames`), and the names in the facts are such that the rebasing only replaces the
front (`Walk.Closed.mentions_factsOf`).
-/

namespace NameAtlas.Python

open Source

/-- True for the kinds of statements that bind imported names. -/
def isImport (kind : String) : Bool := kind = "import_statement" || kind = "import_from_statement"

/-- A tree without import statements binds no imported names. -/
theorem importBindings_eq_nil {source : SourceText} {tree n : Node}
    (h : ∀ info ∈ tree.infos, ¬isImport info.kind) (hn : n ∈ tree.subtrees) :
    (Part.ofNode source n).importBindings = [] := by
  have hkind : ¬isImport (Part.ofNode source n).kind := by
    rw [Part.kind_ofNode]
    exact h n.info (Node.info_mem_infos_of_mem_subtrees hn)
  simp only [isImport, Bool.or_eq_true, decide_eq_true_eq, not_or] at hkind
  rw [Part.importBindings]
  split
  case h_1 heq => exact absurd heq hkind.1
  case h_2 heq => exact absurd heq hkind.2
  case h_3 => rfl

/-- What a walk over a tree without import statements does is taken from the tree, and no part of it
is an import. -/
theorem faithful_program_of_importFree {source : SourceText} {tree : Node}
    (h : ∀ info ∈ tree.infos, ¬isImport info.kind) :
    ∀ a ∈ (Module.ofTree source tree).program, a.op.Faithful source fun _ => False := by
  intro a ha
  refine (faithful_program source tree a ha).mono fun b hb => ?_
  obtain ⟨n, hn, hb⟩ := hb
  rw [importBindings_eq_nil h hn] at hb
  exact List.not_mem_nil hb

/-! ### The facts of a walk -/

/-- References are put into the order of their positions, whatever they lead to. -/
theorem sortReferences_mapNames (g : Fqn → Fqn) (references : List Reference) :
    sortReferences (references.map (Reference.mapNames g)) =
      (sortReferences references).map (Reference.mapNames g) := by
  unfold sortReferences
  exact (List.map_mergeSort (f := Reference.mapNames g) fun _ _ _ _ => rfl).symm

/-- Renaming all names of a walk renames those of its facts. -/
theorem factsOf_mapNames {old new : Fqn} (ρ : Rebasing old new) (path : String) (m : Module)
    (w : Walk) :
    factsOf path new m (w.mapNames ρ) = (factsOf path old m w).mapNames ρ := by
  have hreferences : (w.mapNames ρ).references.toList =
      w.references.toList.map (Reference.mapNames ρ) := Array.toList_map
  unfold factsOf FileFacts.mapNames
  simp only [Walk.scopes_mapNames, Walk.symbols_mapNames, ScopeTree.scopes_mapNames,
    SymbolTable.toDeclarations_mapNames, SymbolTable.toInheritances_mapNames, hreferences,
    sortReferences_mapNames, ρ.map_module]
  rfl

/-- The facts of a walk over a module without imports mention the module, what lies below it, and
the built-ins. -/
theorem Walk.Closed.mentions_factsOf {source : SourceText} {context : ImportContext} {w : Walk}
    (h : w.Closed source context) (hbases : w.BasesDeclared) (path : String) (m : Module) :
    (factsOf path context.module m w).Mentions fun f => f.Covered context.module := by
  have hdeclared (f : Fqn) (hf : w.Declares f) : f.Covered context.module := .inl (h.includes f hf)
  -- Every name in the facts is declared in the module, built in, or known from the walk.
  constructor
  case module => exact .inl context.module.liesAtOrBelow_self
  case owners =>
    intro s hs
    obtain ⟨i, hi⟩ := List.mem_iff_getElem?.1 hs
    rw [getElem?_scopes_factsOf] at hi
    exact .inl (h.known.owners i s hi)
  case symbols =>
    intro d hd
    exact hdeclared d.fqn (h.wellFormed.symbols.keyed.mem_keys_iff.2 ⟨d, hd, rfl⟩)
  case types =>
    intro d hd f hf
    have htype := h.known.types d.fqn d (h.wellFormed.symbols.mem_toDeclarations hd)
    exact (htype f (by rw [hf]; rfl)).covered
  case targets =>
    intro r hr f hf
    have hknown := h.known.references r (mem_references_factsOf.1 hr)
    rw [ReferenceKnown, hf] at hknown
    exact hknown.1.covered
  case classes =>
    intro i hi
    obtain ⟨hclass, -⟩ := SymbolTable.mem_toInheritances_iff.1 hi
    exact hdeclared i.derived (hbases i.derived hclass)
  case bases =>
    intro i hi
    obtain ⟨-, hbase⟩ := SymbolTable.mem_toInheritances_iff.1 hi
    exact (h.known.bases i.derived i.base hbase).covered

/-- The facts about a module without imports under another name are its facts with the front of the
names replaced. -/
theorem analyzeModule_rebase {source : SourceText} {m : Module}
    (hm : ∀ a ∈ m.program, a.op.Faithful source fun _ => False) {old new : Fqn}
    (hold : old.IsModule) (hnew : new.IsModule) (path : String) (passes : Nat) :
    analyzeModule path new m passes =
      (analyzeModule path old m passes).mapNames fun f => f.rebase old new := by
  let context := ImportContext.ofPath path old
  let context' := ImportContext.ofPath path new
  -- The renaming of the walk moves the module; on names below the module it does what `rebase`
  -- does.
  obtain ⟨ρ, hρ⟩ : ∃ ρ : Rebasing context.module context'.module,
      ∀ f : Fqn, f.Covered old → ρ f = f.rebase old new := exists_rebasing hold hnew
  let k := m.silentWalks context passes
  have hsilent : m.silentWalks context' passes = k :=
    Walk.silentWalks_mapNames hm ρ (max 1 passes) 0
  have hwalk : Walk.walks context' m (k + 1) = (Walk.walks context m (k + 1)).mapNames ρ :=
    Walk.walks_mapNames hm ρ (k + 1)
  have hclosed : (Walk.walks context m (k + 1)).Closed source context :=
    Walk.closed_walks hm (k + 1)
  have hmentions := hclosed.mentions_factsOf (Walk.basesDeclared_walks context m (k + 1)) path m
  have hfacts : factsOf path new m ((Walk.walks context m (k + 1)).mapNames ρ) =
      (factsOf path old m (Walk.walks context m (k + 1))).mapNames ρ := factsOf_mapNames ρ path m _
  -- The walks of both modules run side by side, so equally many of them are silent.
  rw [analyzeModule_eq, analyzeModule_eq, hsilent, hwalk, hfacts]
  exact FileFacts.mapNames_congr (hmentions.mono hρ)

/-- The module name is only a prefix: without import statements in the tree, the analysis under
another module name gives the facts with the old module replaced by the new one at the front of
every name at or below it, and with everything else unchanged. It fails under one name if it fails
under the other, in the same way. -/
theorem analyze_rebase {old new : Fqn} (hold : old.IsModule) (hnew : new.IsModule)
    (options : AnalysisOptions) (path text : String) (tree : Node)
    (himports : ∀ info ∈ tree.infos, ¬isImport info.kind) :
    analyze options ⟨path, new, text, some tree⟩ =
      (analyze options ⟨path, old, text, some tree⟩).map
        (FileFacts.mapNames fun f => f.rebase old new) := by
  let m := Module.ofTree (.ofString text) tree
  have hm : ∀ a ∈ m.program, a.op.Faithful (.ofString text) fun _ => False :=
    faithful_program_of_importFree himports
  have hfacts : analyzeModule path new m options.passes = _ :=
    analyzeModule_rebase hm hold hnew path options.passes
  -- The option that refuses a file looks at neither name.
  unfold analyze
  dsimp only
  split
  case isTrue => rfl
  case isFalse => exact congrArg Except.ok hfacts

/-- In the module `pkg.n` the classes and the base have the names that they have in `m`, behind the
name of the module. -/
theorem analyze_rebase_inheritingTree :
    ∃ facts, analyze ⟨8, false⟩ ⟨"m.py", ⟨["pkg", "n"]⟩, inheritingSource, some inheritingTree⟩ =
        .ok facts ∧
      facts.declarations.map Declaration.fqn =
        [⟨["pkg", "n"]⟩, ⟨["pkg", "n", "B"]⟩, ⟨["pkg", "n", "B", "a"]⟩, ⟨["pkg", "n", "C"]⟩,
          ⟨["pkg", "n", "x"]⟩] ∧
      facts.inheritances = [⟨⟨["pkg", "n", "C"]⟩, ⟨["pkg", "n", "B"]⟩⟩] := by
  have hold : (Fqn.root "m").IsModule := by decide
  have hnew : Fqn.IsModule ⟨["pkg", "n"]⟩ := by decide
  have h := analyze_rebase hold hnew ⟨8, false⟩ "m.py" inheritingSource inheritingTree (by decide)
  rw [analyze_eq_ok "m.py" (.root "m")] at h
  exact ⟨_, h, by decide +kernel, by decide +kernel⟩

end NameAtlas.Python
