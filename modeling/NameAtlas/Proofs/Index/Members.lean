import NameAtlas.Proofs.Index.Collisions
import NameAtlas.Response

/-!
# Members of symbols

The members of a symbol are found through the scopes that the symbol owns in its file, and not
through their names. In files without `global` and `nonlocal` statements the two are the same: a
symbol is named after the owner of the scope that declares it (`FileFacts.Placed`), and the scopes of
a file bring their owners into the index (`scope?_foldl`). The one symbol that is not named after the
owner of its scope is the module: it is declared in the scope that it owns itself. So the members of
a symbol are the symbols of its file one segment below it, and for a module the module as well
(`Store.members_index_after`).
-/

namespace NameAtlas

/-- Facts that an analysis finds in a tree of distinct nodes, none of which is a `global` or
`nonlocal` statement. -/
def FileFacts.IsLexical (facts : FileFacts) : Prop :=
  ∃ options file tree, Python.analyze options file = .ok facts ∧ file.tree = some tree ∧
    tree.DistinctIds ∧ ∀ info ∈ tree.infos, ¬Python.isScopeDeclaration info.kind

/-- True if the name of a symbol goes with the owner of its scope: that of a module is the owner, and
any other one lies directly below the owner. -/
def NamedAfter (owner : Fqn) (kind : SymbolKind) (fqn : Fqn) : Prop :=
  if kind = .module then fqn = owner else ∃ name, fqn = owner.child name

/-- Facts whose symbols are named after the owners of their scopes. -/
def FileFacts.NamedAfterOwners (facts : FileFacts) : Prop :=
  ∀ d ∈ facts.declarations, ∃ s, facts.scopes[d.scope]? = some s ∧ NamedAfter s.owner d.kind d.fqn

/-- The names of a placed walk go with the owners of the scopes. -/
theorem Python.Walk.Placed.namedAfterOwners {S : List Opening} {path : String} {module : Fqn}
    {m : Module} {w : Walk} (hw : w.WellFormed module) (h : w.Placed S module) :
    (Python.factsOf path module m w).NamedAfterOwners := by
  intro d hd
  by_cases hmodule : d.kind = .module
  · have hget := hw.symbols.mem_toDeclarations hd
    -- Only the module is one, and it is declared in the first scope, which it owns.
    have hfqn : d.fqn = module := by
      by_contra hne
      exact (hw.symbols.below d.fqn d hne hget).2.1 hmodule
    obtain ⟨location, hself⟩ := hw.symbols.self
    rw [hfqn, hself] at hget
    obtain rfl := Option.some.inj hget
    obtain ⟨span, hfirst⟩ := hw.scopes.first
    exact ⟨_, (getElem?_scopes_factsOf 0).trans hfirst, rfl⟩
  · have hplaced : (Python.factsOf path module m w).Placed := h.factsOf hw
    obtain ⟨s, name, hs, hname⟩ := hplaced.declared d hd hmodule
    exact ⟨s, hs, by rw [NamedAfter, if_neg hmodule]; exact ⟨name, hname⟩⟩

/-- Facts of trees without these statements are well formed, and named after owners. -/
theorem FileFacts.IsLexical.wellFormed_and_named {facts : FileFacts} (h : facts.IsLexical) :
    facts.WellFormed ∧ facts.NamedAfterOwners := by
  obtain ⟨options, file, tree, hfacts, htree, hids, hscope⟩ := h
  obtain ⟨tree', k, htree', rfl⟩ := Python.exists_walks_of_analyze hfacts
  obtain rfl := Option.some.inj (htree.symm.trans htree')
  let context := Python.ImportContext.ofPath file.path file.module
  have hwf : (Python.Walk.walks context (.ofTree (.ofString file.text) tree) k).WellFormed
    file.module := Python.Walk.wellFormed_walks context _ k
  have hplaced := Python.Walk.placed_walks context
    (Python.nodup_definitions (.ofString file.text) hids) (Python.not_declaresScope _ hscope) k
  exact ⟨hwf.factsOf, hplaced.namedAfterOwners hwf⟩

namespace Index

variable {merged : List StoredFile} {index : Index}

/-! ### The scopes of an index -/

/-- The scopes of a file keep their owners behind those of the files in front of it. -/
theorem scope?_foldl (before later : List StoredFile) {file : StoredFile} {j : Nat} {s : LocalScope}
    (hs : file.facts.scopes[j]? = some s) :
    ∃ q, ((before ++ file :: later).foldl merge .empty).scope?
        ⟨(before.map fun f => f.facts.scopes.length).sum + j⟩ = some q ∧ q.owner = s.owner := by
  -- The induction takes files off the end: the file itself numbers its scopes behind the older
  -- ones, and later files leave them.
  induction later using List.reverseRecOn with
  | nil =>
    have hlength : (before.foldl merge .empty).scopes.length =
        (before.map fun f => f.facts.scopes.length).sum :=
      (linked_foldl before).length_scopes.trans (length_scopeFiles before)
    have hscope : ∃ q, (scopesOf ((before.foldl merge .empty).numbering file.facts)
        file.facts)[j]? = some q ∧ q.owner = s.owner := by
      rw [scopesOf, List.getElem?_mapIdx, hs]
      exact ⟨_, rfl, rfl⟩
    rw [foldl_merge_concat, scope?, merge_scopes, ← hlength,
      List.getElem?_append_right (Nat.le_add_right _ _), Nat.add_sub_cancel_left]
    exact hscope
  | append_singleton later last ih =>
    obtain ⟨q, hq, howner⟩ := ih
    refine ⟨q, ?_, howner⟩
    rw [← List.cons_append, ← List.append_assoc, foldl_merge_concat]
    exact scope?_merge_of_some hq last

namespace Linked

variable (h : Linked merged index)

include h

/-- The number of a scope is its position. -/
theorem scope_id_eq {i : Nat} {q : Scope} (hq : index.scopes[i]? = some q) : q.id = ⟨i⟩ := by
  have hget := congrArg (fun l => l[i]?) h.scopes
  simp only [List.getElem?_map, List.getElem?_mapIdx, hq, Option.map_some] at hget
  obtain ⟨file, -, heq⟩ := Option.map_eq_some_iff.1 hget.symm
  exact (Prod.mk.inj heq).1.symm

/-- A scope is found under its own number. -/
theorem scope?_id {q : Scope} (hq : q ∈ index.scopes) : index.scope? q.id = some q := by
  obtain ⟨i, hi⟩ := List.mem_iff_getElem?.1 hq
  rw [scope?, h.scope_id_eq hi]
  exact hi

/-- No two scopes have one number. -/
theorem pairwise_scope_id : index.scopes.Pairwise fun q q' => q.id ≠ q'.id := by
  rw [List.pairwise_iff_getElem]
  intro i j hi hj hlt heq
  rw [h.scope_id_eq (List.getElem?_eq_getElem hi), h.scope_id_eq (List.getElem?_eq_getElem hj)] at heq
  exact Nat.ne_of_lt hlt (congrArg ScopeId.position heq)

/-! ### The symbols of a scope -/

/-- A scope lists the symbols that are declared in it. -/
theorem mem_symbolsInScope_iff {id : ScopeId} {t : Symbol} :
    t ∈ index.symbolsInScope id ↔ t ∈ index.allSymbols ∧ t.scope = id := by
  -- A symbol of the index is counted in one scope, its own.
  have hlisted (ht : t ∈ index.allSymbols) : t ∈ index.symbolsInScope id ↔ t.scope = id := by
    rw [← List.count_pos_iff, h.count_symbolsInScope ht]
    by_cases hid : id = t.scope <;> simp [hid, eq_comm]
  refine ⟨fun ht => ?_, fun ⟨ht, hid⟩ => (hlisted ht).2 hid⟩
  have hmem : t ∈ index.allSymbols := by
    rw [symbolsInScope] at ht
    split at ht
    · obtain ⟨k, -, hk⟩ := List.mem_filterMap.1 (List.mem_filter.1 ht).1
      exact mem_allSymbols.2 ⟨k, hk⟩
    · cases ht
  exact ⟨hmem, (hlisted hmem).1 ht⟩

/-- No symbol is listed twice in a scope. -/
theorem nodup_symbolsInScope (id : ScopeId) : (index.symbolsInScope id).Nodup := by
  rw [List.nodup_iff_count_le_one]
  intro t
  by_cases ht : t ∈ index.symbolsInScope id
  · rw [h.count_symbolsInScope (h.mem_symbolsInScope_iff.1 ht).1]
    split <;> omega
  · rw [List.count_eq_zero.2 ht]
    omega

/-- No two symbols have one name. -/
theorem eq_of_fqn_eq {s t : Symbol} (hs : s ∈ index.allSymbols) (ht : t ∈ index.allSymbols)
    (hfqn : t.fqn = s.fqn) : t = s := by
  obtain ⟨k, hk⟩ := mem_allSymbols.1 hs
  obtain ⟨l, hl⟩ := mem_allSymbols.1 ht
  rw [← (h.symbols k s hk).1, ← hfqn, (h.symbols l t hl).1, hl] at hk
  exact Option.some.inj hk

/-! ### Members -/

/-- The members of a symbol are the symbols that are declared in a scope which it owns in its
file. -/
theorem mem_membersOf_iff {s t : Symbol} :
    t ∈ SymbolResponse.membersOf index s ↔
      t ∈ index.allSymbols ∧ t.file = s.file ∧
        ∃ q, index.scope? t.scope = some q ∧ q.owner = s.fqn := by
  simp only [SymbolResponse.membersOf, scopesOfFile, List.mem_flatMap, List.mem_filter,
    h.mem_symbolsInScope_iff, decide_eq_true_eq]
  constructor
  · rintro ⟨q, ⟨⟨hq, hfile⟩, howner⟩, ht, hscope⟩
    obtain ⟨k, hk⟩ := mem_allSymbols.1 ht
    obtain ⟨-, q', hq', hfile', -⟩ := h.symbols k t hk
    -- The scope of a symbol lies in the file of the symbol.
    rw [hscope, h.scope?_id hq] at hq'
    obtain rfl := Option.some.inj hq'
    exact ⟨ht, hfile'.symm.trans hfile, q, hscope ▸ h.scope?_id hq, howner⟩
  · rintro ⟨ht, hfile, q, hq, howner⟩
    obtain ⟨k, hk⟩ := mem_allSymbols.1 ht
    obtain ⟨-, q', hq', hfile', -⟩ := h.symbols k t hk
    obtain rfl := Option.some.inj (hq.symm.trans hq')
    exact ⟨q, ⟨⟨List.mem_of_getElem? hq, hfile'.trans hfile⟩, howner⟩, ht,
      (h.scope_id_eq hq).symm⟩

/-- Every symbol has a response, with its members. -/
theorem lookup_eq_ok {s : Symbol} (hs : s ∈ index.allSymbols) :
    SymbolResponse.lookup index s.fqn = .ok ⟨index.symbolReport s,
      (SymbolResponse.membersOf index s).map index.symbolReport,
      (index.usagesOf s.fqn).map index.usageReport⟩ := by
  obtain ⟨k, hk⟩ := mem_allSymbols.1 hs
  obtain rfl := (h.symbols k s hk).1
  rw [SymbolResponse.lookup, hk]

/-- No member is listed twice, as the scopes are apart and each lists its symbols once. -/
theorem nodup_membersOf (s : Symbol) :
    ((SymbolResponse.membersOf index s).map Symbol.fqn).Nodup := by
  have hnodup : (SymbolResponse.membersOf index s).Nodup := by
    refine List.nodup_flatMap.2 ⟨fun q _ => h.nodup_symbolsInScope q.id, ?_⟩
    have hsublist := (List.filter_sublist (p := fun q : Scope => decide (q.owner = s.fqn))).trans
      (List.filter_sublist (l := index.scopes) (p := fun q => decide (q.file = s.file)))
    refine (h.pairwise_scope_id.sublist hsublist).imp fun hne t ht ht' => hne ?_
    exact (h.mem_symbolsInScope_iff.1 ht).2.symm.trans (h.mem_symbolsInScope_iff.1 ht').2
  refine hnodup.map_on fun t ht t' ht' hfqn => ?_
  exact h.eq_of_fqn_eq (h.mem_membersOf_iff.1 ht').1 (h.mem_membersOf_iff.1 ht).1 hfqn

end Linked

/-! ### Names and owners -/

/-- A symbol of well-formed files is the declaration of one of the files, and its scope has the owner
that the file gives it. -/
theorem exists_owner {files : List StoredFile} (hwf : ∀ f ∈ files, f.facts.WellFormed)
    {t : Symbol} (ht : t ∈ (files.foldl merge .empty).allSymbols) :
    ∃ before file later d s q, files = before ++ file :: later ∧ t = symbolOf before file d ∧
      d ∈ file.facts.declarations ∧ file.facts.scopes[d.scope]? = some s ∧
      (files.foldl merge .empty).scope? t.scope = some q ∧ q.owner = s.owner := by
  -- A well-formed file has at least the scope of its module.
  have hscopes : ∀ f ∈ files, f.facts.scopes ≠ [] := by
    intro f hf hempty
    obtain ⟨span, hfirst⟩ := (hwf f hf).firstScope
    rw [hempty] at hfirst
    cases hfirst
  obtain ⟨k, hk⟩ := mem_allSymbols.1 ht
  obtain ⟨before, file, d, ⟨⟨hd, -⟩, later, rfl, -⟩, rfl⟩ :=
    (symbol?_foldl_eq_some_iff hscopes (fun f hf => (hwf f hf).nodup) k t).1 hk
  have hlt := (hwf file (by simp)).declared d hd
  obtain ⟨q, hq, howner⟩ := scope?_foldl before later (List.getElem?_eq_getElem hlt)
  refine ⟨before, file, later, d, _, q, rfl, rfl, hd, List.getElem?_eq_getElem hlt, ?_, howner⟩
  rw [symbolOf, if_pos hlt]
  exact hq

/-- Every symbol is named after the owner of its scope. -/
theorem namedAfter_owner {files : List StoredFile}
    (hfiles : ∀ f ∈ files, f.facts.WellFormed ∧ f.facts.NamedAfterOwners) {t : Symbol} {q : Scope}
    (ht : t ∈ (files.foldl merge .empty).allSymbols)
    (hq : (files.foldl merge .empty).scope? t.scope = some q) : NamedAfter q.owner t.kind t.fqn := by
  obtain ⟨before, file, later, d, s, q', rfl, rfl, hd, hs, hq', howner⟩ :=
    exists_owner (fun f hf => (hfiles f hf).1) ht
  obtain ⟨s', hs', hnamed⟩ := (hfiles file (by simp)).2 d hd
  obtain rfl := Option.some.inj (hq.symm.trans hq')
  obtain rfl := Option.some.inj (hs.symm.trans hs')
  rw [howner]
  exact hnamed

/-- The module of a file lies below no symbol of the file. -/
theorem ne_child_of_module {files : List StoredFile} (hwf : ∀ f ∈ files, f.facts.WellFormed)
    {s t : Symbol} (hs : s ∈ (files.foldl merge .empty).allSymbols)
    (ht : t ∈ (files.foldl merge .empty).allSymbols) (hfile : t.file = s.file)
    (hmodule : t.kind = .module) (name : String) : t.fqn ≠ s.fqn.child name := by
  obtain ⟨before, file, later, d, -, -, hsplit, rfl, hd, -⟩ := exists_owner hwf hs
  obtain ⟨before', file', later', e, -, -, hsplit', rfl, he, -⟩ := exists_owner hwf ht
  -- Both are declared by the file with the one number.
  have hlength : before'.length = before.length := congrArg FileId.position hfile
  have hget : files[before.length]? = some file := by rw [hsplit]; simp
  have hget' : files[before.length]? = some file' := by rw [hsplit', ← hlength]; simp
  obtain rfl := Option.some.inj (hget.symm.trans hget')
  obtain ⟨first, rest, hfirst, hfqn, -, -, hrest⟩ := (hwf file (hsplit ▸ by simp)).firstSymbol
  rw [hfirst] at hd he
  have heq : e = first := by
    rcases List.mem_cons.1 he with heq | he
    · exact heq
    · exact absurd hmodule (hrest e he).1
  have hbelow : d.fqn.liesAtOrBelow file.facts.module := by
    rcases List.mem_cons.1 hd with rfl | hd
    · rw [hfqn]
      exact Fqn.liesAtOrBelow_self _
    · exact Fqn.liesAtOrBelow_of_liesBelow (hrest d hd).2
  intro hchild
  refine Fqn.ne_of_liesBelow (Fqn.liesBelow_child hbelow name) ?_
  rw [← hfqn, ← heq]
  exact hchild.symm

/-- In the index of well-formed files whose symbols are named after owners the members of a symbol
are the symbols of its file directly below it, and for a module also the module. -/
theorem mem_membersOf_foldl_iff {files : List StoredFile}
    (hfiles : ∀ f ∈ files, f.facts.WellFormed ∧ f.facts.NamedAfterOwners) {s t : Symbol}
    (hs : s ∈ (files.foldl merge .empty).allSymbols) :
    t ∈ SymbolResponse.membersOf (files.foldl merge .empty) s ↔
      t ∈ (files.foldl merge .empty).allSymbols ∧ t.file = s.file ∧
        ((∃ name, t.fqn = s.fqn.child name) ∨ (t = s ∧ s.kind = .module)) := by
  have hlinked := linked_foldl files
  have hwf : ∀ f ∈ files, f.facts.WellFormed := fun f hf => (hfiles f hf).1
  rw [hlinked.mem_membersOf_iff]
  refine and_congr_right fun ht => and_congr_right fun hfile => ?_
  obtain ⟨-, -, -, -, -, q, -, -, -, -, hq, -⟩ := exists_owner hwf ht
  have hnamed : NamedAfter q.owner t.kind t.fqn := namedAfter_owner hfiles ht hq
  have howned : (∃ q, (files.foldl merge .empty).scope? t.scope = some q ∧ q.owner = s.fqn) ↔
      q.owner = s.fqn := by simp [hq]
  rw [howned]
  by_cases hmodule : t.kind = .module
  -- A module is owned by the symbol of its name, which is the module.
  · rw [NamedAfter, if_pos hmodule] at hnamed
    constructor
    · intro howner
      obtain rfl := hlinked.eq_of_fqn_eq hs ht (hnamed.trans howner)
      exact .inr ⟨rfl, hmodule⟩
    · rintro (⟨name, hchild⟩ | ⟨rfl, -⟩)
      · exact absurd hchild (ne_child_of_module hwf hs ht hfile hmodule name)
      · exact hnamed.symm
  · rw [NamedAfter, if_neg hmodule] at hnamed
    obtain ⟨name, hname⟩ := hnamed
    constructor
    · intro howner
      exact .inl ⟨name, howner ▸ hname⟩
    · rintro (⟨name', hchild⟩ | ⟨rfl, hmodule'⟩)
      · exact (Fqn.child_injective (hname.symm.trans hchild)).1
      · exact absurd hmodule' hmodule

end Index

namespace Store

/-- In the index of files without `global` and `nonlocal` statements a symbol is found with its
members, each listed once: the symbols of its file whose names are one segment longer, and for a
module the module as well. -/
theorem members_index_after {changes : List Change}
    (hlexical : ∀ facts contentHash, .upsert facts contentHash ∈ changes → facts.IsLexical)
    {s : Symbol} (hs : s ∈ (after changes).index.allSymbols) :
    ∃ response, ∃ members : List Symbol,
      SymbolResponse.lookup (after changes).index s.fqn = .ok response ∧
      response.members = members.map (after changes).index.symbolReport ∧
      (members.map Symbol.fqn).Nodup ∧
      ∀ t, t ∈ members ↔ t ∈ (after changes).index.allSymbols ∧ t.file = s.file ∧
        ((∃ name, t.fqn = s.fqn.child name) ∨ (t = s ∧ s.kind = .module)) := by
  -- Everything about the index comes from what each of its files says.
  have hfiles : ∀ f ∈ (after changes).files.values,
      f.facts.WellFormed ∧ f.facts.NamedAfterOwners :=
    forall_values_after fun facts contentHash hmem =>
      (hlexical facts contentHash hmem).wellFormed_and_named
  have hlinked := Index.linked_foldl (after changes).files.values
  exact ⟨_, SymbolResponse.membersOf (after changes).index s, hlinked.lookup_eq_ok hs, rfl,
    hlinked.nodup_membersOf s, fun t => Index.mem_membersOf_foldl_iff hfiles hs⟩

/-- The facts of the example are those of an analysis and declare nothing across scopes. -/
theorem isLexical_derivingFacts : derivingFacts.IsLexical :=
  ⟨⟨8, false⟩, _, _, Python.analyze_eq_ok _ _ _ _ _, rfl, by decide, by decide⟩

/-- The members of a module that two files share are those of the last file and the module: the
class that both declare, but not the one that the first file alone declares. -/
theorem members_index_after_rederiving :
    let index := (after [.upsert derivingFacts "1", .upsert rederivingFacts "2"]).index
    ∃ s ∈ index.allSymbols, s.fqn = ⟨["root"]⟩ ∧
      ∃ response, SymbolResponse.lookup index s.fqn = .ok response ∧
        ∀ fqn, fqn ∈ response.members.map SymbolReport.fqn ↔
          fqn = ⟨["root"]⟩ ∨ fqn = ⟨["root", "C"]⟩ := by
  intro index
  let s : Symbol := ⟨⟨["root"]⟩, .module, .resolved ⟨["root"]⟩, ⟨3⟩, ⟨1⟩, ⟨⟨0, 23⟩, 1, 1⟩⟩
  have hs : s ∈ index.allSymbols := Index.mem_allSymbols.2 ⟨⟨["root"]⟩, by decide +kernel⟩
  -- Both files of the history are analyses of lexical code.
  have hlexical : ∀ facts contentHash,
      .upsert facts contentHash ∈
        [Change.upsert derivingFacts "1", Change.upsert rederivingFacts "2"] → facts.IsLexical := by
    intro facts contentHash h
    simp only [List.mem_cons, Change.upsert.injEq, List.not_mem_nil, or_false] at h
    obtain ⟨rfl, -⟩ | ⟨rfl, -⟩ := h
    · exact isLexical_derivingFacts
    · exact ⟨⟨8, false⟩, _, _, Python.analyze_eq_ok _ _ _ _ _, rfl, by decide, by decide⟩
  obtain ⟨response, members, hlookup, hmembers, -, hmem⟩ := members_index_after hlexical hs
  refine ⟨s, hs, rfl, response, hlookup, fun fqn => ?_⟩
  have hreports : response.members.map SymbolReport.fqn = members.map Symbol.fqn := by
    rw [hmembers, List.map_map]
    rfl
  rw [hreports, List.mem_map]
  constructor
  -- A member belongs to the second file, and this file declares two names.
  · rintro ⟨t, ht, rfl⟩
    obtain ⟨hall, hfile, -⟩ := (hmem t).1 ht
    obtain ⟨k, hk⟩ := Index.mem_allSymbols.1 hall
    have hsecond : ∀ e ∈ index.symbols.entries, e.2.file = s.file →
        e.2.fqn = ⟨["root"]⟩ ∨ e.2.fqn = ⟨["root", "C"]⟩ := by decide +kernel
    exact hsecond (k, t) ((Table.get?_eq_some_iff _ _ _).1 hk) hfile
  · rintro (rfl | rfl)
    · exact ⟨s, (hmem s).2 ⟨hs, rfl, .inr ⟨rfl, rfl⟩⟩, rfl⟩
    · have hmember : redeclaredClass ∈ index.allSymbols :=
        Index.mem_allSymbols.2 ⟨⟨["root", "C"]⟩, by decide +kernel⟩
      exact ⟨redeclaredClass, (hmem _).2 ⟨hmember, rfl, .inl ⟨"C", rfl⟩⟩, rfl⟩

/-- A module is listed as a member of itself. -/
theorem exists_mem_members_self :
    ∃ changes s, (∀ facts contentHash, .upsert facts contentHash ∈ changes → facts.IsLexical) ∧
      s ∈ (after changes).index.allSymbols ∧
      ∃ response, SymbolResponse.lookup (after changes).index s.fqn = .ok response ∧
        s.fqn ∈ response.members.map SymbolReport.fqn := by
  have hs : (⟨⟨["root"]⟩, .module, .resolved ⟨["root"]⟩, ⟨0⟩, ⟨0⟩, ⟨⟨0, 39⟩, 1, 1⟩⟩ : Symbol) ∈
      (after [.upsert derivingFacts "1"]).index.allSymbols :=
    Index.mem_allSymbols.2 ⟨⟨["root"]⟩, by decide +kernel⟩
  refine ⟨[.upsert derivingFacts "1"], _, ?_, hs, _, (Index.linked_foldl _).lookup_eq_ok hs,
    by decide +kernel⟩
  intro facts contentHash h
  simp only [List.mem_singleton, Change.upsert.injEq] at h
  exact h.1 ▸ isLexical_derivingFacts

end Store

end NameAtlas
