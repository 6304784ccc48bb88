import NameAtlas.Proofs.Hierarchy
import NameAtlas.Proofs.Index.Bases
import NameAtlas.Proofs.SymbolTable.Edits

/-!
# The index of one file

The facts about a file hold its symbols as a list, and the bases of its classes as a list of pairs.
The index groups the pairs by their classes again, and finds in each group the bases that the symbol
table has, in their order and as often (`basesIn_toInheritances`). So a file alone in an index has
the class hierarchy there that its symbol table has (`Store.hierarchy_index_ofEdits`): a class
without bases, of which the pairs say nothing, has none in the index either.
-/

namespace NameAtlas

open Python

/-- What a list of entries says of a class is lost in the pairs of other classes and kept in its
own. -/
theorem map_base_filter_flatMap (c : Fqn) {entries : List (Fqn × List Fqn)}
    (hnodup : (entries.map Prod.fst).Nodup) :
    ((entries.flatMap fun e => e.2.map fun base => (⟨e.1, base⟩ : Inheritance)).filter
        fun i => i.derived = c).map Inheritance.base = (Table.lookup c entries).getD [] := by
  -- The induction is on the entries: those of another class are filtered away, and there is one of
  -- this class.
  induction entries with
  | nil => rfl
  | cons e rest ih =>
    obtain ⟨k, bases⟩ := e
    obtain ⟨hnot, hrest⟩ := List.nodup_cons.1 hnodup
    rw [List.flatMap_cons, List.filter_append, List.map_append, ih hrest, List.filter_map,
      Table.lookup]
    by_cases hk : c = k
    · subst hk
      have hnone : Table.lookup c rest = none := by
        rw [← Option.not_isSome_iff_eq_none, Table.isSome_lookup_iff]
        exact hnot
      simp [hnone, Function.comp_def]
    · simp [hk, Ne.symm hk, Function.comp_def]

namespace Index

/-- The pairs of a symbol table give each class its bases. -/
theorem basesIn_toInheritances {t : SymbolTable} {facts : FileFacts}
    (h : facts.inheritances = t.toInheritances) (c : Fqn) : basesIn facts c = t.basesOf c := by
  rw [basesIn, h]
  exact map_base_filter_flatMap c t.bases.nodup_keys

/-- In an index of one file the bases are those that the file lists. -/
theorem basesOf_merge_empty (stored : StoredFile) (c : Fqn) :
    Hierarchy.basesOf (empty.merge stored).bases c = basesIn stored.facts c := by
  rw [basesOf_merge]
  split
  · next hnil => exact hnil.symm
  · rfl

/-- A name is known in the index of a file with scopes exactly if the file declares it. -/
theorem contains_merge_empty {stored : StoredFile} (hscopes : stored.facts.scopes ≠ []) (q : Fqn) :
    (empty.merge stored).symbols.contains q ↔
      q ∈ stored.facts.declarations.map Declaration.fqn := by
  rw [Table.contains, merge_symbols, get?_insertSymbols]
  -- A name comes from a symbol of the file, as there is no older one; and each declaration makes a
  -- symbol.
  constructor
  · intro h
    obtain ⟨s, hs⟩ := Option.isSome_iff_exists.1 h
    have hmerge : (empty.merge stored).symbol? q = some s := (get?_insertSymbols _ _ q).trans hs
    obtain ⟨hmem, hfqn⟩ | ⟨hold, -⟩ := symbol?_merge hmerge
    · obtain ⟨d, hd, scope, -, rfl⟩ := mem_symbolsOf.1 hmem
      exact List.mem_map.2 ⟨d, hd, hfqn⟩
    · cases hold
  · intro h
    obtain ⟨d, hd, rfl⟩ := List.mem_map.1 h
    obtain ⟨s, hs, hfqn⟩ := exists_mem_symbolsOf empty hscopes hd
    have hfound : s ∈ (symbolsOf (empty.numbering stored.facts) stored.facts).filter
        fun s => s.fqn = d.fqn := List.mem_filter.2 ⟨hs, decide_eq_true hfqn⟩
    have hlast := List.getLast?_isSome.2 (List.ne_nil_of_mem hfound)
    rw [Option.isSome_or, hlast, Bool.true_or]

end Index

namespace Store

/-- Whatever the operations that made a symbol table: in the index of one file with the symbols and
bases of the table, each class has the bases, ancestors and members that it has in the table, and
the same names are declared. -/
theorem hierarchy_index_ofEdits (edits : List SymbolTable.Edit) (facts : FileFacts)
    (contentHash : String) (hscopes : facts.scopes ≠ []) :
    let t := SymbolTable.ofEdits edits
    let index := (empty.upsert { facts with
      declarations := t.toDeclarations, inheritances := t.toInheritances } contentHash).index
    ∀ c, Hierarchy.basesOf index.bases c = t.basesOf c ∧
      index.hierarchy.ancestors c = t.hierarchy.ancestors c ∧
      index.hierarchy.declares c = t.hierarchy.declares c ∧
      ∀ name, index.hierarchy.resolveMember? c name = t.hierarchy.resolveMember? c name := by
  intro t index c
  let stored : StoredFile := ⟨{ facts with
    declarations := t.toDeclarations, inheritances := t.toInheritances }, contentHash⟩
  have hindex : index = Index.empty.merge stored := rfl
  -- The inheritances are made of the table and read back as its bases.
  have hbases : ∀ c, Hierarchy.basesOf index.bases c = t.basesOf c := fun c => by
    rw [hindex, Index.basesOf_merge_empty]
    exact Index.basesIn_toInheritances rfl c
  have hdeclares : index.hierarchy.declares = t.hierarchy.declares := by
    funext q
    have hnames := (SymbolTable.keyed_ofEdits edits).map_toDeclarations
    have hmem : index.symbols.contains q ↔ t.declarations.contains q := by
      rw [hindex, Index.contains_merge_empty hscopes q]
      exact hnames ▸ Table.mem_keys_iff _ _
    exact Bool.eq_iff_iff.2 hmem
  exact ⟨hbases c, Hierarchy.ancestors_congr hbases c, congrFun hdeclares c,
    Hierarchy.resolveMember?_congr hbases hdeclares c⟩

/-- The operations of a file in which `C` gets other bases than it had at first, one of them twice
and one that is not declared, and `B` gets none. -/
def rebasingEdits : List SymbolTable.Edit :=
  [.declare ⟨⟨["m", "B"]⟩, .class, .resolved ⟨["m", "B"]⟩, 0, ⟨⟨6, 7⟩, 1, 7⟩⟩,
    .setBases ⟨["m", "B"]⟩ [],
    .declare ⟨⟨["m", "B", "a"]⟩, .attribute, .primitive "int", 1, ⟨⟨13, 14⟩, 2, 5⟩⟩,
    .declare ⟨⟨["m", "C"]⟩, .class, .resolved ⟨["m", "C"]⟩, 0, ⟨⟨25, 26⟩, 3, 7⟩⟩,
    .setBases ⟨["m", "C"]⟩ [.builtin "int"],
    .setBases ⟨["m", "C"]⟩ [⟨["lib", "D"]⟩, ⟨["m", "B"]⟩, ⟨["lib", "D"]⟩],
    .setType ⟨["m", "B", "a"]⟩ (.primitive "str")]

/-- The facts of a file with the scopes of a module and two classes. -/
def rebasingFacts : FileFacts :=
  { path := "m.py"
    module := .root "m"
    scopes := [⟨.module, ⟨["m"]⟩, none, ⟨0, 60⟩⟩, ⟨.class, ⟨["m", "B"]⟩, some 0, ⟨0, 18⟩⟩,
      ⟨.class, ⟨["m", "C"]⟩, some 0, ⟨19, 60⟩⟩]
    declarations := []
    references := []
    findings := []
    inheritances := [] }

/-- The index has the last bases of `C`, and finds the member of `B` on it behind a base of which
nothing is known. -/
theorem hierarchy_index_ofEdits_rebased :
    rebasingFacts.scopes ≠ [] ∧
      let t := SymbolTable.ofEdits rebasingEdits
      let index := (empty.upsert { rebasingFacts with
        declarations := t.toDeclarations, inheritances := t.toInheritances } "1").index
      Hierarchy.basesOf index.bases ⟨["m", "C"]⟩ =
          [⟨["lib", "D"]⟩, ⟨["m", "B"]⟩, ⟨["lib", "D"]⟩] ∧
        index.hierarchy.ancestors ⟨["m", "C"]⟩ = [⟨["lib", "D"]⟩, ⟨["m", "B"]⟩] ∧
        index.hierarchy.resolveMember? ⟨["m", "C"]⟩ "a" = some ⟨["m", "B", "a"]⟩ := by
  have hscopes : rebasingFacts.scopes ≠ [] := by decide
  obtain ⟨hbases, hancestors, -, hmembers⟩ :=
    hierarchy_index_ofEdits rebasingEdits rebasingFacts "1" hscopes ⟨["m", "C"]⟩
  -- The answers are those of the symbol table, which are evaluated there.
  refine ⟨hscopes, hbases.trans ?_, hancestors.trans ?_, (hmembers "a").trans ?_⟩
  · decide
  · cbv
  · cbv

end Store

end NameAtlas
