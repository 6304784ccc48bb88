import Mathlib.Data.Nat.Find
import NameAtlas.Proofs.Analysis.Settled
import NameAtlas.Proofs.Analysis.Shape
import NameAtlas.Proofs.Walk.Cycle

/-!
# Inference runs in a cycle

Inference overwrites types and does not join them, so it need not settle: two attributes can change
their types in every walk. What it always does is to run in a cycle in the end
(`Walk.exists_period`), so that the facts about a file depend on the bound on the walks only through
the position in the cycle that the bound stops at.
-/

namespace NameAtlas.Python

open Source

namespace Walk

variable (context : ImportContext) (m : Module)

/-- True if the walk behind the `k`-th one leaves the types as they are. -/
def SettlesAt (k : Nat) : Prop :=
  (walks context m (k + 1)).symbols.types = (walks context m k).symbols.types

instance (k : Nat) : Decidable (SettlesAt context m k) := inferInstanceAs (Decidable (_ = _))

variable {context m}

/-- The first silent walk is the last one if the types settle there; otherwise one more than those
that follow are walked. -/
theorem silentWalks_succ (passes k : Nat) :
    silentWalks context m (passes + 1) (walks context m k) =
      if SettlesAt context m k then 1
      else silentWalks context m passes (walks context m (k + 1)) + 1 := rfl

/-- As long as no walk settles the types, all walks that are allowed are made. -/
theorem silentWalks_eq_of_not_settlesAt {passes k : Nat}
    (h : ∀ i, i < passes → ¬SettlesAt context m (k + i)) :
    silentWalks context m passes (walks context m k) = passes := by
  induction passes generalizing k with
  | zero => rfl
  | succ passes ih =>
    have hfirst : ¬SettlesAt context m k := h 0 (Nat.succ_pos passes)
    have hrest := ih (k := k + 1) fun i hi => by
      rw [Nat.add_right_comm]
      exact h (i + 1) (Nat.succ_lt_succ hi)
    rw [silentWalks_succ, if_neg hfirst]
    exact congrArg (· + 1) hrest

/-- The first walk that settles the types is the last one, if it is allowed. -/
theorem silentWalks_eq_of_settlesAt {passes k j : Nat} (hj : j < passes)
    (h : ∀ i, i < j → ¬SettlesAt context m (k + i)) (hsettles : SettlesAt context m (k + j)) :
    silentWalks context m passes (walks context m k) = j + 1 := by
  obtain ⟨passes, rfl⟩ : ∃ n, passes = n + 1 := ⟨passes - 1, by omega⟩
  -- The induction is on how far away the settling walk is: one walk is spent, and one less remains.
  induction j generalizing passes k with
  | zero => exact (silentWalks_succ _ _).trans (if_pos hsettles)
  | succ j ih =>
    have hfirst : ¬SettlesAt context m k := h 0 (Nat.succ_pos j)
    obtain ⟨passes, rfl⟩ : ∃ n, passes = n + 1 := ⟨passes - 1, by omega⟩
    have hrest := ih (k := k + 1) (fun i hi => by
        rw [Nat.add_right_comm]
        exact h (i + 1) (Nat.succ_lt_succ hi))
      (by rwa [Nat.add_right_comm]) passes (by omega)
    rw [silentWalks_succ, if_neg hfirst]
    exact congrArg (· + 1) hrest

end Walk

namespace Module

variable {context : ImportContext} {m : Module}

/-- If no walk below the bound settles the types, the bound is what stops the walks. -/
theorem silentWalks_eq_of_not_settlesAt {passes : Nat} (hpasses : 1 ≤ passes)
    (h : ∀ i, i < passes → ¬Walk.SettlesAt context m i) : m.silentWalks context passes = passes := by
  rw [silentWalks, Nat.max_eq_right hpasses]
  exact Walk.silentWalks_eq_of_not_settlesAt (k := 0) fun i hi => by
    rw [Nat.zero_add]
    exact h i hi

/-- If some walk below the bound settles the types, the first one that does stops the walks. -/
theorem silentWalks_eq_of_settlesAt {passes k : Nat} (hk : k < passes)
    (h : Walk.SettlesAt context m k) :
    m.silentWalks context passes = Nat.find (⟨k, h⟩ : ∃ k, Walk.SettlesAt context m k) + 1 := by
  have hexists : ∃ k, Walk.SettlesAt context m k := ⟨k, h⟩
  have hfirst : Nat.find hexists ≤ k := Nat.find_min' hexists h
  rw [silentWalks, Nat.max_eq_right (by omega)]
  refine Walk.silentWalks_eq_of_settlesAt (k := 0) (by omega) (fun i hi => ?_) ?_
  · rw [Nat.zero_add]
    exact Nat.find_min hexists hi
  · rw [Nat.zero_add]
    exact Nat.find_spec hexists

/-- There are never more silent walks than the bound allows, but always one. -/
theorem silentWalks_le (m : Module) (context : ImportContext) (passes : Nat) :
    m.silentWalks context passes ≤ max 1 passes := by
  have hle (w : Walk) (n : Nat) : Walk.silentWalks context m n w ≤ n := by
    induction n generalizing w with
    | zero => exact Nat.le_refl 0
    | succ n ih =>
      rw [Walk.silentWalks]
      split
      · omega
      · exact Nat.succ_le_succ (ih _)
  exact hle _ _

end Module

/-- Behind walks that agree, the facts about a module are the same. -/
theorem factsOf_walks_eq (path : String) (module : Fqn) (m : Module) {context : ImportContext}
    {k l : Nat} (hk : 1 ≤ k) (hkl : k ≤ l)
    (h : (Walk.walks context m k).Agrees (Walk.walks context m l)) :
    factsOf path module m (Walk.walks context m (l + 1)) =
      factsOf path module m (Walk.walks context m (k + 1)) := by
  -- Each part of the facts comes from something that the walks agree on or that does not move.
  have hagree := (Walk.agrees_walks_succ context m hk h).symbols
  have hcontinues := Walk.continues_walks context m (Nat.succ_le_succ hkl)
  have hscopes := (Walk.sameLayout_walks context m (Nat.le_add_left 1 k)
    (Nat.succ_le_succ hkl)).scopes
  have hfindings := congrArg Outline.findings
    (Walk.outline_walks context context m (Nat.le_trans hk hkl) hk)
  simp only [Walk.outline] at hfindings
  simp only [factsOf, hscopes, hcontinues.toDeclarations_eq hagree,
    hcontinues.toInheritances_eq hagree, Walk.references_walks context m hk h, hfindings]

/-- Whatever the bound, the facts are those of the walk behind the silent ones, so they depend on the
number of those only. -/
theorem analyze_congr_silentFileWalks {path : String} {module : Fqn} {text : String} {tree : Node}
    {passes passes' : Nat} (cancelled : Bool)
    (h : silentFileWalks path module text tree passes =
      silentFileWalks path module text tree passes') :
    analyze ⟨passes, cancelled⟩ ⟨path, module, text, some tree⟩ =
      analyze ⟨passes', cancelled⟩ ⟨path, module, text, some tree⟩ := by
  have hsilent : (Module.ofTree (.ofString text) tree).silentWalks (.ofPath path module) passes =
      (Module.ofTree (.ofString text) tree).silentWalks (.ofPath path module) passes' := h
  simp only [analyze, analyzeModule_eq, hsilent]

/-- If some walk below both bounds settles the types, both analyses stop at the same walk. -/
theorem silentFileWalks_eq_of_settlesAt {path : String} {module : Fqn} {text : String} {tree : Node}
    {k : Nat} (h : Walk.SettlesAt (.ofPath path module) (Module.ofTree (.ofString text) tree) k)
    {passes passes' : Nat} (hk : k < passes) (hk' : k < passes') :
    silentFileWalks path module text tree passes = silentFileWalks path module text tree passes' :=
  (Module.silentWalks_eq_of_settlesAt hk h).trans (Module.silentWalks_eq_of_settlesAt hk' h).symm

/-- From some walk on, inference runs in a cycle: no walk adds a symbol, and the types are those of
one period before. So the facts about a file are the same for two bounds that are one period apart.
As soon as one walk leaves the types as they were, all larger bounds stop the walks there, and the
facts no longer depend on the bound. -/
theorem exists_analyze_periodic (path : String) (module : Fqn) (text : String) (tree : Node) :
    (∀ passes, silentFileWalks path module text tree passes ≤ max 1 passes) ∧
    (∃ n p, 1 ≤ p ∧
      (∀ k, n ≤ k →
        (fileWalk path module text tree (k + 1)).symbols.declarations.keys =
            (fileWalk path module text tree k).symbols.declarations.keys ∧
          (fileWalk path module text tree (k + p)).symbols.types =
            (fileWalk path module text tree k).symbols.types) ∧
      ∀ passes cancelled, n ≤ passes →
        analyze ⟨passes + p, cancelled⟩ ⟨path, module, text, some tree⟩ =
          analyze ⟨passes, cancelled⟩ ⟨path, module, text, some tree⟩) ∧
    ∀ k, (fileWalk path module text tree (k + 1)).symbols.types =
        (fileWalk path module text tree k).symbols.types →
      ∀ passes cancelled, k < passes →
        silentFileWalks path module text tree passes ≤ k + 1 ∧
        silentFileWalks path module text tree passes =
          silentFileWalks path module text tree (k + 1) ∧
        analyze ⟨passes, cancelled⟩ ⟨path, module, text, some tree⟩ =
          analyze ⟨k + 1, cancelled⟩ ⟨path, module, text, some tree⟩ := by
  let m := Module.ofTree (.ofString text) tree
  let context := ImportContext.ofPath path module
  refine ⟨m.silentWalks_le context, ?_, fun k hk passes cancelled hpasses => ?_⟩
  · obtain ⟨n, p, hn, hp, hperiod⟩ := Walk.exists_period context m
    have htypes (k : Nat) (hk : n ≤ k) := (hperiod k hk).symbols.types
    -- One period more, so that a walk of the cycle that settles the types has one before it.
    refine ⟨n + p, p, hp, fun k hk => ⟨?_, htypes k (by omega)⟩, fun passes cancelled hpasses => ?_⟩
    · have hback := congrArg (List.map Prod.fst) (htypes k (by omega))
      rw [← SymbolTable.keys_eq, ← SymbolTable.keys_eq] at hback
      have hnext := (Walk.grows_walks context m (Nat.le_add_right k 1)).symbols
      have hrest := (Walk.grows_walks context m (Nat.add_le_add_left hp k)).symbols
      rw [hback] at hrest
      exact (hrest.eq_of_length_le hnext.length_le)
    · by_cases hsettles : ∃ k, k < passes ∧ Walk.SettlesAt context m k
      · obtain ⟨k, hk, hsettles⟩ := hsettles
        exact analyze_congr_silentFileWalks cancelled
          (silentFileWalks_eq_of_settlesAt hsettles (by omega) hk)
      · have hnever (i : Nat) (hi : i < passes + p) : ¬Walk.SettlesAt context m i := fun h => by
          rcases Nat.lt_or_ge i passes with hlt | hge
          · exact hsettles ⟨i, hlt, h⟩
          -- The walk one period before would have settled the types, too.
          · refine hsettles ⟨i - p, by omega, ?_⟩
            have hfirst := htypes (i - p) (by omega)
            have hsecond := htypes (i - p + 1) (by omega)
            rw [show i - p + p = i by omega] at hfirst
            rw [show i - p + 1 + p = i + 1 by omega] at hsecond
            exact (hsecond.symm.trans h).trans hfirst
        have hmore := Module.silentWalks_eq_of_not_settlesAt (by omega) hnever
        have hless : m.silentWalks context passes = passes :=
          Module.silentWalks_eq_of_not_settlesAt (by omega) fun i hi => hnever i (by omega)
        have hfacts : analyzeModule path module m (passes + p) = analyzeModule path module m passes := by
          rw [analyzeModule_eq, analyzeModule_eq, hmore, hless]
          exact factsOf_walks_eq path module m (by omega) (by omega) (hperiod passes (by omega))
        simp only [analyze]
        rw [hfacts]
  · have hsame : silentFileWalks path module text tree passes =
        silentFileWalks path module text tree (k + 1) :=
      silentFileWalks_eq_of_settlesAt hk hpasses (Nat.lt_succ_self k)
    refine ⟨?_, hsame, analyze_congr_silentFileWalks cancelled hsame⟩
    rw [hsame]
    exact m.silentWalks_le context (k + 1)

/-! ### Types that never settle -/

/-- Walks with the same scopes and symbols agree. -/
theorem Walk.Agrees.of_eq {w w' : Walk} (hscopes : w'.scopes = w.scopes)
    (hdeclarations : w'.symbols.declarations.entries = w.symbols.declarations.entries)
    (hbases : w'.symbols.bases.entries = w.symbols.bases.entries)
    (hclasses : w'.classScopes.entries = w.classScopes.entries) : w.Agrees w' where
  scopes := hscopes ▸
    ⟨.refl _, fun _ _ => rfl, fun _ _ => rfl, fun _ _ => rfl, fun _ => rfl⟩
  symbols :=
    { types := congrArg (List.map _) hdeclarations
      kinds := fun f => congrArg (fun es => (Table.lookup f es).map Declaration.kind) hdeclarations
      bases := fun c => congrArg (fun es => (Table.lookup c es).getD []) hbases }
  classScopes c := congrArg (Table.lookup c) hclasses

deriving instance DecidableEq for Table

deriving instance DecidableEq for Frame, ScopeTree

/-- A class that inherits two attributes, and an instance on which their values are swapped. -/
def swappingSource : String :=
  "class B:\n    a = 1\n    b = True\nclass C(B):\n    pass\nc = C()\nt = c.a\nc.a = c.b\nc.b = t\n"

/-- The tree of `swappingSource`. -/
def swappingTree : Node :=
  wholeNode 0 "module" "" 0 87
    [wholeNode 1 "class_definition" "" 0 31
      [wholeNode 2 "identifier" "name" 6 7 [],
        wholeNode 3 "block" "body" 13 31
          [wholeNode 4 "expression_statement" "" 13 18
            [wholeNode 5 "assignment" "" 13 18
              [wholeNode 6 "identifier" "left" 13 14 [], wholeNode 7 "integer" "right" 17 18 []]],
            wholeNode 8 "expression_statement" "" 23 31
              [wholeNode 9 "assignment" "" 23 31
                [wholeNode 10 "identifier" "left" 23 24 [], wholeNode 11 "true" "right" 27 31 []]]]],
      wholeNode 12 "class_definition" "" 32 52
        [wholeNode 13 "identifier" "name" 38 39 [],
          wholeNode 14 "argument_list" "superclasses" 39 42 [wholeNode 15 "identifier" "" 40 41 []],
          wholeNode 16 "block" "body" 48 52 [wholeNode 17 "pass_statement" "" 48 52 []]],
      wholeNode 18 "expression_statement" "" 53 60
        [wholeNode 19 "assignment" "" 53 60
          [wholeNode 20 "identifier" "left" 53 54 [],
            wholeNode 21 "call" "right" 57 60
              [wholeNode 22 "identifier" "function" 57 58 [],
                wholeNode 23 "argument_list" "arguments" 58 60 []]]],
      wholeNode 24 "expression_statement" "" 61 68
        [wholeNode 25 "assignment" "" 61 68
          [wholeNode 26 "identifier" "left" 61 62 [],
            wholeNode 27 "attribute" "right" 65 68
              [wholeNode 28 "identifier" "object" 65 66 [],
                wholeNode 29 "identifier" "attribute" 67 68 []]]],
      wholeNode 30 "expression_statement" "" 69 78
        [wholeNode 31 "assignment" "" 69 78
          [wholeNode 32 "attribute" "left" 69 72
            [wholeNode 33 "identifier" "object" 69 70 [],
              wholeNode 34 "identifier" "attribute" 71 72 []],
            wholeNode 35 "attribute" "right" 75 78
              [wholeNode 36 "identifier" "object" 75 76 [],
                wholeNode 37 "identifier" "attribute" 77 78 []]]],
      wholeNode 38 "expression_statement" "" 79 86
        [wholeNode 39 "assignment" "" 79 86
          [wholeNode 40 "attribute" "left" 79 82
            [wholeNode 41 "identifier" "object" 79 80 [],
              wholeNode 42 "identifier" "attribute" 81 82 []],
            wholeNode 43 "identifier" "right" 85 86 []]]]

/-- The state of the analysis of `swappingSource` after some walks. -/
def swappingWalk (k : Nat) : Walk := fileWalk "m.py" (.root "m") swappingSource swappingTree k

/-- Every second walk has the same scopes and symbols. -/
theorem agrees_swappingWalk (k : Nat) : (swappingWalk (k + 1)).Agrees (swappingWalk (k + 3)) := by
  have hfirst : (swappingWalk 1).Agrees (swappingWalk 3) :=
    .of_eq (by decide +kernel) (by decide +kernel) (by decide +kernel) (by decide +kernel)
  have hshift := Walk.agrees_walks_add _ _ (Nat.le_refl 1) hfirst k
  rw [Nat.add_comm 1 k, Nat.add_comm 3 k] at hshift
  exact hshift

/-- No walk leaves the types as they were. -/
theorem types_swappingWalk_ne (k : Nat) :
    (swappingWalk (k + 1)).symbols.types ≠ (swappingWalk k).symbols.types := by
  induction k using Nat.strong_induction_on with
  | h k ih =>
    match k with
    | 0 => decide +kernel
    | 1 => decide +kernel
    | 2 => decide +kernel
    | k + 3 =>
      -- Two walks on, the tables agree with those two walks before, so a difference there is one
      -- here.
      have hback := ih (k + 1) (by omega)
      rw [← (agrees_swappingWalk k).symbols.types, ← (agrees_swappingWalk (k + 1)).symbols.types]
        at hback
      exact hback

/-- There is a file whose types never settle: every walk changes them, and every bound gives other
facts than the next one. -/
theorem exists_types_never_settle :
    ∃ path module text tree,
      (∀ k, (fileWalk path module text tree (k + 1)).symbols.types ≠
        (fileWalk path module text tree k).symbols.types) ∧
      ∀ passes, 1 ≤ passes →
        analyze ⟨passes + 1, false⟩ ⟨path, module, text, some tree⟩ ≠
          analyze ⟨passes, false⟩ ⟨path, module, text, some tree⟩ := by
  refine ⟨"m.py", .root "m", swappingSource, swappingTree, types_swappingWalk_ne,
    fun passes hpasses heq => ?_⟩
  let m := Module.ofTree (.ofString swappingSource) swappingTree
  -- No walk settles, so the silent walks take up their bound.
  have hsilent (n : Nat) (hn : 1 ≤ n) : m.silentWalks (.ofPath "m.py" (.root "m")) n = n :=
    Module.silentWalks_eq_of_not_settlesAt hn fun i _ => types_swappingWalk_ne i
  have htypes (n : Nat) : (factsOf "m.py" (.root "m") m (swappingWalk n)).types =
      (swappingWalk n).symbols.types :=
    (Walk.wellFormed_walks (.ofPath "m.py" (.root "m")) m n).symbols.types_toDeclarations
  rw [analyze_eq_ok, analyze_eq_ok, analyzeModule_eq, analyzeModule_eq,
    hsilent passes hpasses, hsilent (passes + 1) (by omega), Except.ok.injEq] at heq
  -- The last walks stand next to each other, so equal facts would mean that the types settle.
  have hsame := congrArg FileFacts.types heq
  exact types_swappingWalk_ne (passes + 1) ((htypes _).symm.trans (hsame.trans (htypes _)))

end NameAtlas.Python
