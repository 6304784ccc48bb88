import NameAtlas.Proofs.ScopeTree.Frames
import Mathlib.Data.List.TakeWhile

/-!
# Reading a name where it was written

A write goes to the frame that `bindingScope` names, and a read goes outwards along the chain to the
first frame that is seen and binds the name. `bindingScope` names a frame of that same chain
(`Rooted.bindingScope_mem_chain`), which is seen (`Rooted.sees_bindingScope`). So the read comes to the written
name unless a frame in front of it, one of `passed`, binds the name too (`Rooted.lookup_bind_eq`): the read
asks no frame whether the name is declared `global` or `nonlocal`, so it stops at that frame even
where the write went past it.

`Reachable` are the trees that opening, binding and declaring build; they are rooted.
-/

namespace NameAtlas.Python.ScopeTree

/-- The trees that can be built. -/
inductive Reachable : ScopeTree → Prop where
  /-- A module in which nothing is open. -/
  | ofModule (module : Fqn) (span : Span) : Reachable (.ofModule module span)
  /-- A frame opened inside a frame of the tree. -/
  | openFrame {t : ScopeTree} (ht : Reachable t) (node : Nat) (kind : ScopeKind) (owner : Fqn)
      {parent : Nat} (hparent : parent < t.size) (span : Span) :
      Reachable (t.openFrame node kind owner parent span).2
  /-- A name bound in a frame. -/
  | bind {t : ScopeTree} (ht : Reachable t) (i : Nat) (name : String) (target : NameTarget) :
      Reachable (t.bind i name target)
  /-- A name declared `global` in a frame. -/
  | declareGlobal {t : ScopeTree} (ht : Reachable t) (i : Nat) (name : String) :
      Reachable (t.declareGlobal i name)
  /-- A name declared `nonlocal` in a frame. -/
  | declareNonlocal {t : ScopeTree} (ht : Reachable t) (i : Nat) (name : String) :
      Reachable (t.declareNonlocal i name)

/-- Trees that can be built are rooted. -/
theorem Reachable.rooted {t : ScopeTree} (ht : t.Reachable) : t.Rooted := by
  induction ht with
  | ofModule module span => exact rooted_ofModule module span
  | openFrame _ node kind owner hparent span ih => exact ih.openFrame node kind owner hparent span
  | bind _ i name target ih => exact ih.congr fun j => scope?_bind _ i j name target
  | declareGlobal _ i name ih => exact ih.congr fun j => scope?_declareGlobal _ i j name
  | declareNonlocal _ i name ih => exact ih.congr fun j => scope?_declareNonlocal _ i j name

/-! ### Where a write goes -/

/-- The functions around a frame stand on its chain. -/
theorem mem_outerFunctions {t : ScopeTree} {s i : Nat} (h : i ∈ t.outerFunctions s) :
    i ∈ t.chain s ∧ t.kindOf i = .function := by
  obtain ⟨hmem, hkind⟩ := List.mem_filter.1 h
  exact ⟨List.mem_of_mem_tail hmem, of_decide_eq_true hkind⟩

/-- A write goes to the module, to an enclosing function, or to the frame where it is made. -/
theorem bindingScope_cases (t : ScopeTree) (s : Nat) (name : String) :
    t.bindingScope s name = moduleScope ∨ t.bindingScope s name ∈ t.outerFunctions s ∨
      t.bindingScope s name = s := by
  -- A `global` name goes to the module, a `nonlocal` one to a function, and any other one stays.
  rw [bindingScope]
  split
  · exact .inl rfl
  · split
    · cases hfind : (t.outerFunctions s).find? fun j => (t.binding? j name).isSome with
      | some j => exact .inr (.inl (List.mem_of_find?_eq_some hfind))
      | none =>
        cases hhead : (t.outerFunctions s).head? with
        | some j => exact .inr (.inl (List.mem_of_head? hhead))
        | none => exact .inr (.inr rfl)
    · exact .inr (.inr rfl)

/-- Nothing encloses the module, so a write there stays there. -/
@[simp] theorem bindingScope_moduleScope (t : ScopeTree) (name : String) :
    t.bindingScope moduleScope name = moduleScope := by
  have hchain : t.chain moduleScope = [moduleScope] := by
    rw [chain]
    split <;> rfl
  rcases t.bindingScope_cases moduleScope name with h | h | h
  · exact h
  · rw [outerFunctions, hchain] at h
    cases h
  · exact h

/-- A write goes to a frame of the chain. -/
theorem Rooted.bindingScope_mem_chain {t : ScopeTree} (ht : t.Rooted) {s : Nat} (hs : s < t.size)
    (name : String) : t.bindingScope s name ∈ t.chain s := by
  rcases t.bindingScope_cases s name with h | h | h
  · rw [h]
    exact ht.moduleScope_mem_chain s hs
  · exact (mem_outerFunctions h).1
  · rw [h]
    exact t.mem_chain_self s

/-- The frame that receives a write is seen from where it is made. -/
theorem Rooted.sees_bindingScope {t : ScopeTree} (ht : t.Rooted) (s : Nat) (name : String) :
    t.sees s (t.bindingScope s name) := by
  rcases t.bindingScope_cases s name with h | h | h
  · simp [sees, h, ht.kindOf_moduleScope]
  · simp [sees, (mem_outerFunctions h).2]
  · simp [sees, h]

/-- A write goes to the module only from there, or where the name is declared `global`. -/
theorem Rooted.eq_moduleScope_or {t : ScopeTree} (ht : t.Rooted) {s : Nat} {name : String}
    (h : t.bindingScope s name = moduleScope) :
    s = moduleScope ∨ t.declaresGlobal s name := by
  rw [or_iff_not_imp_right]
  intro hglobal
  -- The outer functions are not the module.
  have houter : moduleScope ∉ t.outerFunctions s := fun hmem => by
    have hkind := (mem_outerFunctions hmem).2
    rw [ht.kindOf_moduleScope] at hkind
    cases hkind
  rw [bindingScope, if_neg hglobal] at h
  split at h
  · split at h
    · rename_i j hj
      exact absurd (h ▸ List.mem_of_find?_eq_some hj) houter
    · cases hhead : (t.outerFunctions s).head? with
      | none => rwa [hhead] at h
      | some j =>
        rw [hhead, Option.getD_some] at h
        exact absurd (h ▸ List.mem_of_head? hhead) houter
  · exact h

/-- The frames of a chain stand before its start, or are its start. -/
theorem le_of_mem_chain (t : ScopeTree) : ∀ i, ∀ j ∈ t.chain i, j ≤ i := by
  intro i
  -- The induction is on the position, as a parent stands before its frames.
  induction i using Nat.strongRecOn with
  | ind i ih =>
    intro j hj
    rw [chain] at hj
    split at hj
    · rename_i p _
      split at hj
      · rename_i hp
        rcases List.mem_cons.1 hj with rfl | hj
        · exact Nat.le_refl _
        · have := ih p hp j hj
          omega
      · simp_all
    · simp_all

/-- A write goes to a frame of the tree. -/
theorem Rooted.bindingScope_lt {t : ScopeTree} (ht : t.Rooted) {s : Nat} (hs : s < t.size)
    (name : String) : t.bindingScope s name < t.size :=
  Nat.lt_of_le_of_lt (t.le_of_mem_chain s _ (ht.bindingScope_mem_chain hs name)) hs

/-! ### Reading after writing -/

/-- The frames that a read made in frame `s` comes past before it comes to the frame that a write
made there goes to. -/
def passed (t : ScopeTree) (s : Nat) (name : String) : List Nat :=
  (t.chain s).takeWhile fun i => i ≠ t.bindingScope s name

/-- A binding does not change what is seen. -/
theorem sees_bind (t : ScopeTree) (i j k : Nat) (name : String) (target : NameTarget) :
    (t.bind i name target).sees j k = t.sees j k := by
  simp [sees, kindOf_eq]

/-- The chain is the frames that are passed, the written frame, and those around it. -/
theorem Rooted.exists_chain_eq {t : ScopeTree} (ht : t.Rooted) {s : Nat} (hs : s < t.size)
    (name : String) :
    ∃ rest, t.chain s = t.passed s name ++ t.bindingScope s name :: rest := by
  have hmem := ht.bindingScope_mem_chain hs name
  rw [passed]
  -- Where the write goes does not matter here, only that it is a frame of the chain.
  generalize t.bindingScope s name = b at hmem
  have hsplit := List.takeWhile_append_dropWhile (p := fun i => decide (i ≠ b)) (l := t.chain s)
  cases hdrop : (t.chain s).dropWhile fun i => decide (i ≠ b) with
  | nil =>
    have hall := List.dropWhile_eq_nil_iff.1 hdrop b hmem
    simp at hall
  | cons j rest =>
    have hne : (t.chain s).dropWhile (fun i => decide (i ≠ b)) ≠ [] := by rw [hdrop]; simp
    have hj := List.head_dropWhile_not (fun i => decide (i ≠ b)) hne
    simp only [hdrop, List.head_cons, decide_eq_false_iff_not, not_not] at hj
    rw [hdrop, hj] at hsplit
    exact ⟨rest, hsplit.symm⟩

/-- A search that gets the same from every member finds the same. -/
theorem findSome?_congr {f g : Nat → Option NameTarget} {l : List Nat} (h : ∀ i ∈ l, f i = g i) :
    l.findSome? f = l.findSome? g := by
  induction l with
  | nil => rfl
  | cons i l ih =>
    rw [List.findSome?_cons, List.findSome?_cons, h i List.mem_cons_self,
      ih fun j hj => h j (List.mem_cons_of_mem i hj)]

/-- What is found in frames other than the written one is not what was written. -/
theorem findSome?_bind_of_ne (t : ScopeTree) (s : Nat) (name : String) {b : Nat}
    (target : NameTarget) {l : List Nat} (h : ∀ i ∈ l, i ≠ b) :
    (l.findSome? fun i => if (t.bind b name target).sees s i then
        (t.bind b name target).binding? i name else none) =
      l.findSome? fun i => if t.sees s i then t.binding? i name else none := by
  refine findSome?_congr fun i hi => ?_
  have hbinding : (t.bind b name target).binding? i name = t.binding? i name := by
    rw [binding?_bind, if_neg fun hwritten => h i hi hwritten.1]
  rw [sees_bind, hbinding]

/-- A read of the name just written gives the first binding in a frame that it comes past and sees,
and what was written if there is none. -/
theorem Rooted.lookup_bind_eq {t : ScopeTree} (ht : t.Rooted) {s : Nat} (hs : s < t.size)
    (name : String) (target : NameTarget) :
    (t.bind (t.bindingScope s name) name target).lookup s name =
      some (((t.passed s name).findSome? fun i =>
        if t.sees s i then t.binding? i name else none).getD target) := by
  -- The chain is cut where the name is bound: the frames in front are passed, that one answers.
  obtain ⟨rest, hchain⟩ := ht.exists_chain_eq hs name
  have hlt : t.bindingScope s name < t.size := ht.bindingScope_lt hs name
  have hseen : t.sees s (t.bindingScope s name) := ht.sees_bindingScope s name
  have hpassed : ∀ i ∈ t.passed s name, i ≠ t.bindingScope s name := fun i hi => by
    simpa using List.mem_takeWhile_imp hi
  rw [lookup, chain_bind, hchain, List.findSome?_append, findSome?_bind_of_ne t s name target hpassed,
    List.findSome?_cons, sees_bind,
    binding?_bind, if_pos hseen, if_pos ⟨rfl, rfl, hlt⟩]
  cases (t.passed s name).findSome? fun i => if t.sees s i then t.binding? i name else none <;> rfl

/-- A name is read from where it is written, whatever is written, exactly if no frame that the read
sees in front of the written one binds the name. -/
theorem lookup_bind_bindingScope_iff {t : ScopeTree} (ht : t.Reachable) {s : Nat} (hs : s < t.size)
    (name : String) :
    (∀ target, (t.bind (t.bindingScope s name) name target).lookup s name = some target) ↔
      ∀ i ∈ t.passed s name, t.sees s i → t.binding? i name = none := by
  simp only [ht.rooted.lookup_bind_eq hs name, Option.some.injEq]
  constructor
  · intro h i hi hseen
    have hnone : ((t.passed s name).findSome? fun i =>
        if t.sees s i then t.binding? i name else none) = none := by
      cases hfound : (t.passed s name).findSome? fun i =>
          if t.sees s i then t.binding? i name else none with
      | none => rfl
      | some found =>
        -- What is found does not depend on what is written, so it cannot always be that.
        have h₁ := h (.builtin .empty)
        have h₂ := h (.imported .empty)
        rw [hfound] at h₁ h₂
        simp only [Option.getD_some] at h₁ h₂
        rw [h₁] at h₂
        cases h₂
    have := List.findSome?_eq_none_iff.1 hnone i hi
    simpa [hseen] using this
  · intro h target
    have hnone : ((t.passed s name).findSome? fun i =>
        if t.sees s i then t.binding? i name else none) = none := by
      refine List.findSome?_eq_none_iff.2 fun i hi => ?_
      split
      · rename_i hseen
        exact h i hi hseen
      · rfl
    rw [hnone]
    rfl

/-- A function `f` that binds `y`, in it a class that binds `x` and `y`, and in the class a method
that declares `x` global and `y` nonlocal. -/
def methodOfLocalClass : ScopeTree :=
  let t := (ofModule (.root "m") ⟨0, 90⟩).openFrame 1 .function ⟨["m", "f"]⟩ 0 ⟨0, 90⟩
  let t := (t.2.bind 1 "y" (.declared ⟨["m", "f", "y"]⟩)).openFrame 2 .class
    ⟨["m", "f", "C"]⟩ 1 ⟨20, 90⟩
  let t := ((t.2.bind 2 "x" (.declared ⟨["m", "f", "C", "x"]⟩)).bind 2 "y"
    (.declared ⟨["m", "f", "C", "y"]⟩)).openFrame 3 .function ⟨["m", "f", "C", "g"]⟩ 2 ⟨50, 90⟩
  (t.2.declareGlobal 3 "x").declareNonlocal 3 "y"

/-- The method writes past the class, which binds both names, and past the function too when it
writes the global name. It sees neither name in between, so it reads what it wrote. -/
theorem lookup_bind_bindingScope_method :
    let t := methodOfLocalClass
    t.Reachable ∧ 3 < t.size ∧
      t.passed 3 "x" = [3, 2, 1] ∧ (t.binding? 2 "x").isSome ∧
      (t.bind (t.bindingScope 3 "x") "x" (.declared ⟨["m", "x"]⟩)).lookup 3 "x" =
        some (.declared ⟨["m", "x"]⟩) ∧
      t.passed 3 "y" = [3, 2] ∧ (t.binding? 2 "y").isSome ∧
      (t.bind (t.bindingScope 3 "y") "y" (.imported ⟨["lib", "y"]⟩)).lookup 3 "y" =
        some (.imported ⟨["lib", "y"]⟩) := by
  intro t
  have ht : t.Reachable :=
    .declareNonlocal (.declareGlobal (.openFrame (.bind (.bind (.openFrame (.bind (.openFrame
      (.ofModule _ _) _ _ _ (by decide) _) _ _ _) _ _ _ (by decide) _) _ _ _) _ _ _) _ _ _
        (by decide) _) _ _) _ _
  have hlt : 3 < t.size := by decide
  -- Of the frames that are passed, the class binds the names, and the method does not see it.
  have hglobal : ∀ i ∈ t.passed 3 "x", t.sees 3 i → t.binding? i "x" = none := by decide +kernel
  have hnonlocal : ∀ i ∈ t.passed 3 "y", t.sees 3 i → t.binding? i "y" = none := by decide +kernel
  exact ⟨ht, hlt, by decide +kernel, by decide +kernel,
    (lookup_bind_bindingScope_iff ht hlt "x").2 hglobal _, by decide +kernel, by decide +kernel,
    (lookup_bind_bindingScope_iff ht hlt "y").2 hnonlocal _⟩

/-- A function `f` that binds `x`, around a function `g` that declares `x` global. -/
def shadowedGlobal : ScopeTree :=
  let t := (ofModule (.root "m") ⟨0, 80⟩).openFrame 1 .function ⟨["m", "f"]⟩ 0 ⟨0, 80⟩
  let t := (t.2.bind 1 "x" (.declared ⟨["m", "f", "x"]⟩)).openFrame 2 .function
    ⟨["m", "f", "g"]⟩ 1 ⟨20, 80⟩
  t.2.declareGlobal 2 "x"

/-- What `g` writes into the module is not what it reads: the read stops at the name that `f`
binds. -/
theorem exists_lookup_bind_bindingScope_ne :
    ¬∀ t : ScopeTree, t.Reachable → ∀ s < t.size, ∀ name target,
      (t.bind (t.bindingScope s name) name target).lookup s name = some target := by
  intro h
  have ht : shadowedGlobal.Reachable :=
    .declareGlobal (.openFrame (.bind (.openFrame (.ofModule _ _) _ _ _ (by decide) _) _ _ _) _ _ _
      (by decide) _) _ _
  have hread := h shadowedGlobal ht 2 (by decide) "x" (.declared ⟨["m", "x"]⟩)
  exact absurd hread (by decide +kernel)

end NameAtlas.Python.ScopeTree
