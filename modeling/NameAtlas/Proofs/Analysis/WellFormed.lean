import NameAtlas.Proofs.Analysis.Shape
import NameAtlas.Proofs.Reading.Spans
import NameAtlas.Proofs.Walk.Places
import NameAtlas.Proofs.Walk.Spans

/-!
# The facts about a file are well formed

What every consumer of the facts about a file may rely on: which scopes and symbols there are and
that all numbers of scopes are in range (`FileFacts.WellFormed`); without `global` and `nonlocal`
statements, how scopes and symbols are named after one another (`FileFacts.Placed`); and where the
nodes of the tree lie within one another, how scopes and references lie within the scopes around
them (`FileFacts.Nested`). Each is the invariant of the last walk, read off the facts.
-/

namespace NameAtlas

/-- Facts whose scopes, symbols and references fit together. -/
structure FileFacts.WellFormed (facts : FileFacts) : Prop where
  /-- The first scope is that of the module. -/
  firstScope : ∃ span, facts.scopes[0]? = some ⟨.module, facts.module, none, span⟩
  /-- Every other scope is that of a class or function, and its parent stands before it. -/
  innerScope : ∀ i s, 0 < i → facts.scopes[i]? = some s →
    (s.kind = .class ∨ s.kind = .function) ∧ ∃ p, s.parent = some p ∧ p < i
  /-- Symbols are declared in scopes of the file. -/
  declared : ∀ d ∈ facts.declarations, d.scope < facts.scopes.length
  /-- References stand in scopes of the file. -/
  referenced : ∀ r ∈ facts.references, r.scope < facts.scopes.length
  /-- No two symbols have one name. -/
  nodup : (facts.declarations.map Declaration.fqn).Nodup
  /-- The first symbol is the module, and all others are something else below it. -/
  firstSymbol : ∃ d rest, facts.declarations = d :: rest ∧ d.fqn = facts.module ∧
    d.kind = .module ∧ d.type = .resolved facts.module ∧
    ∀ e ∈ rest, e.kind ≠ .module ∧ e.fqn.liesBelow facts.module

/-- Facts in which names say where symbols are declared. -/
structure FileFacts.Placed (facts : FileFacts) : Prop where
  /-- The name of a symbol is that of the owner of its scope with one segment more. -/
  declared : ∀ d ∈ facts.declarations, d.kind ≠ .module →
    ∃ s name, facts.scopes[d.scope]? = some s ∧ d.fqn = s.owner.child name
  /-- The scopes of classes and functions belong to declared classes and functions. -/
  owned : ∀ s ∈ facts.scopes, s.kind ≠ .module →
    ∃ d ∈ facts.declarations, d.fqn = s.owner ∧ (d.kind = .class ∨ d.kind = .function)

/-- Facts in which scopes and references lie within the scopes around them. -/
structure FileFacts.Nested (facts : FileFacts) : Prop where
  /-- A scope lies within its parent. -/
  scopes : ∀ s ∈ facts.scopes, ∀ p, s.parent = some p →
    ∃ outer, facts.scopes[p]? = some outer ∧ outer.span.contains s.span
  /-- A reference lies within its scope. -/
  references : ∀ r ∈ facts.references,
    ∃ s, facts.scopes[r.scope]? = some s ∧ s.span.contains r.location.span

namespace Python

open Source

/-- Sorting keeps the references. -/
theorem mem_sortReferences {r : Reference} {references : List Reference} :
    r ∈ sortReferences references ↔ r ∈ references := List.mem_mergeSort

namespace SymbolTable.WellFormed

variable {module : Fqn} {n : Nat} {t : SymbolTable}

/-- Each symbol stands under its name. -/
theorem keyed (h : t.WellFormed module n) : t.Keyed := by
  intro fqn d hget
  by_cases hfqn : fqn = module
  · obtain ⟨location, hself⟩ := h.self
    rw [hfqn, hself] at hget
    rw [hfqn, ← Option.some.inj hget]
  · exact (h.below fqn d hfqn hget).1

/-- A listed declaration is the one of its name. -/
theorem mem_toDeclarations (h : t.WellFormed module n) {d : Declaration}
    (hd : d ∈ t.toDeclarations) : t.get? d.fqn = some d := h.keyed.get?_of_mem hd

/-- All symbols are declared in scopes of the tree. -/
theorem scope_lt (h : t.WellFormed module n) (hn : 0 < n) {d : Declaration}
    (hd : d ∈ t.toDeclarations) : d.scope < n := by
  have hget := h.mem_toDeclarations hd
  by_cases hmodule : d.fqn = module
  · obtain ⟨location, hself⟩ := h.self
    rw [hmodule, hself] at hget
    obtain rfl := Option.some.inj hget
    exact hn
  · exact (h.below d.fqn d hmodule hget).2.2.2

/-- The module is listed first, and no other symbol bears its name. -/
theorem exists_toDeclarations_eq_cons (h : t.WellFormed module n) :
    ∃ location rest,
      t.toDeclarations = ⟨module, .module, .resolved module, 0, location⟩ :: rest ∧
        ∀ e ∈ rest, e.fqn ≠ module := by
  have hfqn := h.keyed.map_toDeclarations
  have hhead := h.first
  -- The module is declared first, under its own name.
  rw [← hfqn, List.head?_map, Option.map_eq_some_iff] at hhead
  obtain ⟨d, hd, hdfqn⟩ := hhead
  obtain ⟨rest, hrest⟩ := List.head?_eq_some_iff.1 hd
  obtain ⟨location, hself⟩ := h.self
  have hget := h.mem_toDeclarations (List.mem_of_head? hd)
  rw [hdfqn, hself] at hget
  obtain rfl := Option.some.inj hget
  refine ⟨location, rest, hrest, fun e he heq => ?_⟩
  -- A name is declared once, so no other declaration has the name of the module.
  have hnodup : (t.toDeclarations.map Declaration.fqn).Nodup := hfqn ▸ t.declarations.nodup_keys
  rw [hrest, List.map_cons, List.nodup_cons] at hnodup
  exact hnodup.1 (List.mem_map.2 ⟨e, he, heq⟩)

/-- The symbols are listed with their types. -/
theorem types_toDeclarations (h : t.WellFormed module n) :
    (t.toDeclarations.map fun d => (d.fqn, d.type)) = t.types := by
  rw [toDeclarations, Table.values, types, List.map_map]
  refine List.map_congr_left fun e he => ?_
  rw [Function.comp_apply, h.keyed.fqn_of_mem_entries he]

end SymbolTable.WellFormed

/-! ### The facts of a walk -/

variable {path : String} {module : Fqn} {m : Module} {w : Walk}

/-- The scopes of the facts are those of the walk. -/
theorem getElem?_scopes_factsOf (i : Nat) :
    (factsOf path module m w).scopes[i]? = w.scopes.scope? i := w.scopes.getElem?_scopes i

/-- The references of the facts are those of the walk. -/
theorem mem_references_factsOf {r : Reference} :
    r ∈ (factsOf path module m w).references ↔ r ∈ w.references :=
  mem_sortReferences.trans Array.mem_toList_iff

/-- The facts of a well-formed walk are well formed. -/
theorem Walk.WellFormed.factsOf (h : w.WellFormed module) :
    (factsOf path module m w).WellFormed := by
  have hlength : (Python.factsOf path module m w).scopes.length = w.scopes.size :=
    w.scopes.length_scopes
  -- The clauses are the root, the inner scopes, the scopes of symbols and of references, and the
  -- list of symbols.
  refine ⟨?_, fun i s h0 hs => ?_, fun d hd => ?_, fun r hr => ?_, ?_, ?_⟩
  · obtain ⟨span, hfirst⟩ := h.scopes.first
    exact ⟨span, (getElem?_scopes_factsOf 0).trans hfirst⟩
  · rw [getElem?_scopes_factsOf] at hs
    obtain ⟨hkind, -, hparent⟩ := h.scopes.inner i s h0 hs
    refine ⟨?_, hparent⟩
    cases hk : s.kind with
    | module => exact absurd hk hkind
    | «class» => exact .inl rfl
    | function => exact .inr rfl
  · rw [hlength]
    exact h.symbols.scope_lt h.scopes.size_pos hd
  · rw [hlength]
    exact h.references r (mem_references_factsOf.1 hr)
  · rw [show (Python.factsOf path module m w).declarations.map Declaration.fqn = _ from
      h.symbols.keyed.map_toDeclarations]
    exact w.symbols.declarations.nodup_keys
  · obtain ⟨location, rest, hrest, hne⟩ := h.symbols.exists_toDeclarations_eq_cons
    refine ⟨_, rest, hrest, rfl, rfl, rfl, fun e he => ?_⟩
    obtain ⟨-, hkind, hbelow, -⟩ := h.symbols.below e.fqn e (hne e he)
      (h.symbols.mem_toDeclarations (by rw [hrest]; exact List.mem_cons_of_mem _ he))
    exact ⟨hkind, hbelow⟩

/-- The facts of a placed walk are placed. -/
theorem Walk.Placed.factsOf {S : List Opening} (hw : w.WellFormed module)
    (h : w.Placed S module) : (factsOf path module m w).Placed := by
  refine ⟨fun d hd hkind => ?_, fun s hs hkind => ?_⟩
  · have hget := hw.symbols.mem_toDeclarations hd
    -- The symbol of the module has the kind `module`, so this one is another.
    have hne : d.fqn ≠ module := fun heq => by
      obtain ⟨location, hself⟩ := hw.symbols.self
      rw [heq, hself] at hget
      exact hkind (by rw [← Option.some.inj hget])
    obtain ⟨name, hname⟩ := h.symbols d.fqn d hne hget
    obtain ⟨s, hs⟩ := Option.isSome_iff_exists.1 ((w.scopes.isSome_scope?_iff d.scope).2
      (hw.symbols.below d.fqn d hne hget).2.2.2)
    rw [ScopeTree.ownerOf_eq, hs] at hname
    exact ⟨s, name, (getElem?_scopes_factsOf d.scope).trans hs, hname⟩
  · obtain ⟨i, hi⟩ := List.mem_iff_getElem?.1 hs
    rw [getElem?_scopes_factsOf] at hi
    -- The first scope is that of the module, so this one is another.
    have h0 : 0 < i := by
      rcases Nat.eq_zero_or_pos i with rfl | h0
      · obtain ⟨span, hfirst⟩ := hw.scopes.first
        obtain rfl := Option.some.inj (hi.symm.trans hfirst)
        exact absurd rfl hkind
      · exact h0
    obtain ⟨kind, hkind, hdef⟩ := hw.owners i s h0 hi
    obtain ⟨d, hd, rfl⟩ := Option.map_eq_some_iff.1 hkind
    have hmem : d ∈ w.symbols.toDeclarations :=
      List.mem_map.2 ⟨_, (Table.get?_eq_some_iff _ _ _).1 hd, rfl⟩
    refine ⟨d, hmem, ?_, ?_⟩
    · have hbelow := (hw.scopes.inner i s h0 hi).2.1
      exact (hw.symbols.below s.owner d (Fqn.ne_of_liesBelow hbelow) hd).1
    · cases hk : d.kind <;> simp_all [SymbolKind.isDefinition]

/-- The facts of a walk with a nested outline are nested. -/
theorem Outline.Nested.factsOf {S : List Opening} {root : Span} (h : w.outline.Nested S root) :
    (factsOf path module m w).Nested := by
  have hget (i : Nat) {s : ScopeShape} (hs : w.outline.scopes[i]? = some s) :
      ∃ outer, (Python.factsOf path module m w).scopes[i]? = some outer ∧ outer.span = s.span := by
    rw [Walk.outline, List.getElem?_map, Option.map_eq_some_iff] at hs
    obtain ⟨outer, houter, rfl⟩ := hs
    exact ⟨outer, houter, rfl⟩
  -- The outline shows the spans of the scopes and the places of the references, so it decides.
  refine ⟨fun s hs p hp => ?_, fun r hr => ?_⟩
  · obtain ⟨s', hs', hspan⟩ := h.scopes s.shape (List.mem_map_of_mem hs) p hp
    obtain ⟨outer, houter, heq⟩ := hget p hs'
    exact ⟨outer, houter, heq ▸ hspan⟩
  · obtain ⟨s', hs', hspan⟩ := h.references r.shape
      (List.mem_map_of_mem (mem_sortReferences.1 hr))
    obtain ⟨s, hs, heq⟩ := hget r.scope hs'
    exact ⟨s, hs, heq ▸ hspan⟩

/-- The facts about a file are well formed. Nodes of a parse tree are distinct; if none of them is a
`global` or `nonlocal` statement, symbols and scopes are named after one another, and if each lies
within the node above it, scopes and references lie within the scopes around them. -/
theorem analyze_wellFormed (path : String) (module : Fqn) (text : String) (tree : Node)
    (passes : Nat) :
    ∃ facts, analyze ⟨passes, false⟩ ⟨path, module, text, some tree⟩ = .ok facts ∧
      facts.module = module ∧ facts.WellFormed ∧
      (tree.DistinctIds → (∀ info ∈ tree.infos, ¬isScopeDeclaration info.kind) → facts.Placed) ∧
      (tree.DistinctIds → tree.nested → facts.Nested) := by
  -- The facts are those of the last walk, which has each of the invariants.
  let m := Module.ofTree (.ofString text) tree
  let context := ImportContext.ofPath path module
  have hwf := Walk.wellFormed_walks context m (m.silentWalks context passes + 1)
  refine ⟨_, (analyze_eq_ok path module text tree passes).trans
    (congrArg _ (analyzeModule_eq path module m passes)), rfl, hwf.factsOf,
    fun hids hscope => ?_, fun hids hnested => ?_⟩
  · exact (Walk.placed_walks context (nodup_definitions _ hids) (not_declaresScope _ hscope)
      _).factsOf hwf
  · exact (Walk.nested_walks context (nodup_definitions _ hids)
      (withinAll_ofTree _ hnested) _).factsOf

/-- The tree of `def f(a):` with the body `b = a`. -/
def copyingFunction : Node :=
  wholeNode 0 "module" "" 0 20
    [wholeNode 1 "function_definition" "" 0 19
      [wholeNode 2 "identifier" "name" 4 5 [],
        wholeNode 3 "parameters" "parameters" 5 8 [wholeNode 4 "identifier" "" 6 7 []],
        wholeNode 5 "block" "body" 14 19
          [wholeNode 6 "expression_statement" "" 14 19
            [wholeNode 7 "assignment" "" 14 19
              [wholeNode 8 "identifier" "left" 14 15 [],
                wholeNode 9 "identifier" "right" 18 19 []]]]]]

/-- The tree of a function meets all conditions. -/
theorem analyze_wellFormed_copyingFunction :
    ∃ facts, analyze ⟨8, false⟩ ⟨"m.py", .root "m", "def f(a):\n    b = a\n", some copyingFunction⟩ =
      .ok facts ∧ facts.WellFormed ∧ facts.Placed ∧ facts.Nested :=
  let ⟨facts, hfacts, _, hwf, hplaced, hnested⟩ := analyze_wellFormed "m.py" (.root "m")
    "def f(a):\n    b = a\n" copyingFunction 8
  ⟨facts, hfacts, hwf, hplaced (by decide) (by decide), hnested (by decide) (by decide)⟩

end Python

end NameAtlas
