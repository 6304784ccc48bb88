import NameAtlas.Proofs.ScopeTree.Lookup

/-!
# Walks outwards

To walk outwards is to go from a frame to its parent until a frame has none (`Outward`); nothing in
the walk itself says that it ends. In a tree that was built it does, because the module has no
parent and every other frame stands behind its own, and the frames that it comes to are the chain
(`Reachable.outward_chain`). Reading a name, finding the frame to bind it in and finding the
enclosing function each take the first frame of this walk with some property (`IsFirst`), and a
binding changes only what is read from frames whose walks come to it (`exists_answeredAlong`).
-/

namespace NameAtlas.Python.ScopeTree

/-! ### The walk -/

/-- The walk from a frame of the tree outwards comes to just these frames, and ends. -/
inductive Outward (t : ScopeTree) : Nat → List Nat → Prop where
  /-- The walk ends at a frame without a parent. -/
  | last {i : Nat} (hi : i < t.size) (hparent : t.parentOf? i = none) : Outward t i [i]
  /-- The walk goes on to the parent. -/
  | step {i p : Nat} {l : List Nat} (hi : i < t.size) (hparent : t.parentOf? i = some p)
      (hrest : Outward t p l) : Outward t i (i :: l)

/-- There is one walk from a frame. -/
theorem Outward.unique {t : ScopeTree} {i : Nat} {l l' : List Nat} (h : t.Outward i l)
    (h' : t.Outward i l') : l = l' := by
  -- A frame has a parent or none, so both walks take the same step.
  induction h generalizing l' with
  | last _ hnone =>
    cases h' with
    | last _ _ => rfl
    | step _ hsome _ =>
      rw [hnone] at hsome
      cases hsome
  | step _ hsome _ ih =>
    cases h' with
    | last _ hnone =>
      rw [hsome] at hnone
      cases hnone
    | step _ hsome' hrest' =>
      rw [hsome] at hsome'
      cases hsome'
      rw [ih hrest']

/-- The module stays without a parent. -/
theorem Reachable.parentOf?_moduleScope {t : ScopeTree} (ht : t.Reachable) :
    t.parentOf? moduleScope = none := by
  -- The module is opened first and stays; later frames come behind it.
  induction ht with
  | ofModule module span => rfl
  | @openFrame t ht node kind owner parent _ span ih =>
    cases h : t.byNode.get? node with
    | some i => rwa [openFrame_eq_of_some h]
    | none =>
      have hne : moduleScope ≠ t.size := Nat.ne_of_lt ht.rooted.size_pos
      rwa [parentOf?_eq, scope?_openFrame_of_none h, if_neg hne, ← parentOf?_eq]
  | bind _ i name target ih => rwa [parentOf?_eq, scope?_bind, ← parentOf?_eq]
  | declareGlobal _ i name ih => rwa [parentOf?_eq, scope?_declareGlobal, ← parentOf?_eq]
  | declareNonlocal _ i name ih => rwa [parentOf?_eq, scope?_declareNonlocal, ← parentOf?_eq]

/-- The walk from a frame of the tree is its chain. -/
theorem Reachable.outward_chain {t : ScopeTree} (ht : t.Reachable) :
    ∀ i, i < t.size → t.Outward i (t.chain i) := by
  intro i
  induction i using Nat.strongRecOn with
  | ind i ih =>
    intro hi
    rw [chain]
    rcases Nat.eq_zero_or_pos i with rfl | hpos
    · have hnone : t.parentOf? 0 = none := ht.parentOf?_moduleScope
      rw [hnone]
      exact .last hi hnone
    · -- The parent stands before the frame, so the chain goes on wherever the walk does.
      obtain ⟨p, hparent, hp⟩ := ht.rooted.parent_lt i hpos hi
      simp only [hparent, hp, if_true]
      exact .step hi hparent (ih p hp (by omega))

/-- A chain starts at its own frame, and the others on it stand before that one. -/
theorem exists_chain_eq_cons (t : ScopeTree) (i : Nat) :
    ∃ outer, t.chain i = i :: outer ∧ ∀ j ∈ outer, j < i := by
  rw [chain]
  split
  · next p _ =>
    split
    · next hp => exact ⟨_, rfl, fun j hj => Nat.lt_of_le_of_lt (t.le_of_mem_chain p j hj) hp⟩
    · exact ⟨[], rfl, fun j hj => nomatch hj⟩
  · exact ⟨[], rfl, fun j hj => nomatch hj⟩

/-! ### What is found first -/

/-- In the list, `i` is the first with the property. -/
def IsFirst (P : Nat → Prop) (l : List Nat) (i : Nat) : Prop :=
  ∃ before after, l = before ++ i :: after ∧ P i ∧ ∀ j ∈ before, ¬P j

/-- A search finds the first with the property. -/
theorem find?_eq_some_iff_isFirst {P : Nat → Prop} [DecidablePred P] {l : List Nat} {i : Nat} :
    l.find? (fun j => P j) = some i ↔ IsFirst P l i := by
  rw [List.find?_eq_some_iff_append]
  constructor
  · rintro ⟨hi, before, after, hl, hbefore⟩
    exact ⟨before, after, hl, by simpa using hi, fun j hj => by simpa using hbefore j hj⟩
  · rintro ⟨before, after, hl, hi, hbefore⟩
    exact ⟨by simpa using hi, before, after, hl, fun j hj => by simpa using hbefore j hj⟩

/-- Only one can be the first. -/
theorem IsFirst.unique {P : Nat → Prop} [DecidablePred P] {l : List Nat} {i j : Nat}
    (hi : IsFirst P l i) (hj : IsFirst P l j) : i = j :=
  Option.some.inj <| (find?_eq_some_iff_isFirst.2 hi).symm.trans (find?_eq_some_iff_isFirst.2 hj)

/-- Frame `i` answers a read of the name made in frame `s`: it binds the name, and it is no class
body around `s`. -/
def Answers (t : ScopeTree) (s : Nat) (name : String) (i : Nat) : Prop :=
  (i = s ∨ t.kindOf i ≠ .class) ∧ (t.binding? i name).isSome

instance (t : ScopeTree) (s : Nat) (name : String) : DecidablePred (t.Answers s name) :=
  fun i => inferInstanceAs (Decidable ((i = s ∨ t.kindOf i ≠ .class) ∧ (t.binding? i name).isSome))

/-- A scope sees itself, and every scope but those of classes. -/
theorem sees_iff (t : ScopeTree) (s i : Nat) : t.sees s i ↔ i = s ∨ t.kindOf i ≠ .class := by
  simp [sees]

/-- A frame gives a read something exactly if it answers it. -/
theorem answers_iff (t : ScopeTree) (s : Nat) (name : String) (i : Nat) :
    t.Answers s name i ↔ (if t.sees s i then t.binding? i name else none) ≠ none := by
  rw [Answers, ← sees_iff, ← Option.isSome_iff_ne_none]
  split <;> simp_all

/-- A read gives what the first frame that answers it binds. -/
theorem lookup_of_isFirst {t : ScopeTree} {s : Nat} {name : String} {i : Nat}
    (h : IsFirst (t.Answers s name) (t.chain s) i) : t.lookup s name = t.binding? i name := by
  obtain ⟨before, after, hchain, hi, hbefore⟩ := h
  obtain ⟨target, htarget⟩ := Option.isSome_iff_exists.1 hi.2
  have hread : (if t.sees s i then t.binding? i name else none) = some target := by
    rw [if_pos ((t.sees_iff s i).2 hi.1), htarget]
  have hfound : ((t.chain s).findSome? fun j =>
      if t.sees s j then t.binding? j name else none) = some target :=
    List.findSome?_eq_some_iff.2 ⟨before, i, after, hchain, hread, fun j hj =>
      not_not.1 fun hne => hbefore j hj ((t.answers_iff s name j).2 hne)⟩
  rw [lookup, hfound, htarget]

/-- A read that no frame answers gives the built-in, if there is one. -/
theorem lookup_of_forall_not {t : ScopeTree} {s : Nat} {name : String}
    (h : ∀ i ∈ t.chain s, ¬t.Answers s name i) :
    t.lookup s name = if isBuiltin name then some (.builtin (.builtin name)) else none := by
  have hnone : ((t.chain s).findSome? fun j =>
      if t.sees s j then t.binding? j name else none) = none :=
    List.findSome?_eq_none_iff.2 fun j hj =>
      not_not.1 fun hne => h j hj ((t.answers_iff s name j).2 hne)
  rw [lookup, hnone]

/-- A name that is declared `nonlocal`, and not `global`, is bound in the nearest enclosing function
that binds it, or in the nearest one where none does. -/
theorem bindingScope_of_nonlocal {t : ScopeTree} {s : Nat} {name : String} {outer : List Nat}
    (hchain : t.chain s = s :: outer) (hglobal : t.declaresGlobal s name = false)
    (hnonlocal : t.declaresNonlocal s name = true) (hfunction : ∃ j ∈ outer, t.kindOf j = .function) :
    IsFirst (fun j => t.kindOf j = .function ∧ (t.binding? j name).isSome) outer
        (t.bindingScope s name) ∨
      (∀ j ∈ outer, t.kindOf j = .function → t.binding? j name = none) ∧
        IsFirst (fun j => t.kindOf j = .function) outer (t.bindingScope s name) := by
  have hfunctions : t.outerFunctions s = outer.filter t.isFunction := by
    rw [outerFunctions, hchain, List.tail_cons]
  have hscope : t.bindingScope s name =
      ((t.outerFunctions s).find? fun j => (t.binding? j name).isSome).getD
        ((t.outerFunctions s).head?.getD s) := by
    rw [bindingScope, hglobal, hnonlocal]
    cases (t.outerFunctions s).find? fun j => (t.binding? j name).isSome <;> rfl
  cases hfind : (t.outerFunctions s).find? fun j => (t.binding? j name).isSome with
  | some j =>
    left
    rw [hscope, hfind]
    rw [hfunctions, List.find?_filter] at hfind
    refine find?_eq_some_iff_isFirst.1 ?_
    simpa [isFunction] using hfind
  | none =>
    -- No enclosing function binds the name; the nearest one takes it, and there is one.
    right
    refine ⟨fun j hj hkind => ?_, ?_⟩
    · have hmem : j ∈ t.outerFunctions s := by
        rw [hfunctions]
        exact List.mem_filter.2 ⟨hj, by simpa [isFunction] using hkind⟩
      simpa using List.find?_eq_none.1 hfind j hmem
    · cases hhead : outer.find? t.isFunction with
      | none =>
        obtain ⟨j, hj, hkind⟩ := hfunction
        exact absurd hkind (by simpa [isFunction] using List.find?_eq_none.1 hhead j hj)
      | some j =>
        have hfirst : IsFirst (fun j => t.kindOf j = .function) outer j :=
          find?_eq_some_iff_isFirst.1 hhead
        have hj : t.bindingScope s name = j := by
          rw [hscope, hfind, hfunctions, List.head?_filter, hhead]
          rfl
        rwa [hj]

/-- Binding a name changes only reads of that name, and only those that see the frame. -/
theorem eq_of_lookup_bind_ne {t : ScopeTree} {s i : Nat} {name written : String}
    {target : NameTarget} (h : (t.bind i written target).lookup s name ≠ t.lookup s name) :
    written = name ∧ i ∈ t.chain s ∧ t.sees s i := by
  by_contra hnot
  refine h ?_
  -- If one of the three fails, the read gets from every frame of the chain what it got before.
  have hsame : ∀ j ∈ t.chain s,
      (if (t.bind i written target).sees s j then (t.bind i written target).binding? j name
        else none) = if t.sees s j then t.binding? j name else none := by
    intro j hj
    rw [sees_bind]
    split
    · next hseen =>
      have hother : ¬(j = i ∧ name = written ∧ i < t.size) := by
        rintro ⟨rfl, rfl, -⟩
        exact hnot ⟨rfl, hj, hseen⟩
      rw [binding?_bind, if_neg hother]
    · rfl
  rw [lookup, chain_bind, findSome?_congr hsame, lookup]

/-! ### What the walk answers -/

/-- What is asked about a name in frame `s` is answered by the walk outwards from there, which comes
to `s` itself and then to the frames of `outer`. -/
structure AnsweredAlong (t : ScopeTree) (s : Nat) (name : String) (outer : List Nat) : Prop where
  /-- The walk ends, and comes to these frames. -/
  outward : t.Outward s (s :: outer)
  /-- Those around the frame stand before it. -/
  outer_lt : ∀ j ∈ outer, j < s
  /-- A read gives what is bound in the first frame that answers it. -/
  lookup_first : ∀ i, IsFirst (t.Answers s name) (s :: outer) i →
    t.lookup s name = t.binding? i name
  /-- Where no frame answers, a read gives the built-in of this name, or nothing. -/
  lookup_builtin : (∀ i ∈ s :: outer, ¬t.Answers s name i) →
    t.lookup s name = if isBuiltin name then some (.builtin (.builtin name)) else none
  /-- A name is bound in the frame itself, in the module, or in a function around the frame. -/
  bindingScope_place : t.bindingScope s name = s ∨ t.bindingScope s name = moduleScope ∨
    t.bindingScope s name ∈ outer ∧ t.kindOf (t.bindingScope s name) = .function
  /-- A `nonlocal` name is bound in the nearest function around the frame that binds it, or, where
  none does, in the nearest one. -/
  bindingScope_nonlocal : t.declaresGlobal s name = false → t.declaresNonlocal s name = true →
    (∃ j ∈ outer, t.kindOf j = .function) →
      IsFirst (fun j => t.kindOf j = .function ∧ (t.binding? j name).isSome) outer
          (t.bindingScope s name) ∨
        (∀ j ∈ outer, t.kindOf j = .function → t.binding? j name = none) ∧
          IsFirst (fun j => t.kindOf j = .function) outer (t.bindingScope s name)
  /-- The enclosing function is the first function that the walk comes to. -/
  enclosingFunction_first : ∀ i, t.enclosingFunction? s = some i ↔
    IsFirst (fun j => t.kindOf j = .function) (s :: outer) i
  /-- Only a binding of this name changes what is read, and only one in the frame itself or in a
  frame around it that is no class body. -/
  lookup_bind : ∀ i written target,
    (t.bind i written target).lookup s name ≠ t.lookup s name →
      written = name ∧ (i = s ∨ i ∈ outer ∧ t.kindOf i ≠ .class)

/-- In a tree that was built every walk outwards ends, and answers what is asked about a name. -/
theorem exists_answeredAlong {t : ScopeTree} (ht : t.Reachable) {s : Nat} (hs : s < t.size)
    (name : String) : ∃ outer, t.AnsweredAlong s name outer := by
  obtain ⟨outer, hchain, hlt⟩ := t.exists_chain_eq_cons s
  -- The chain is the walk, so each answer is read off it.
  refine ⟨outer, ?_, hlt, fun i hi => ?_, fun hnone => ?_, ?_,
    bindingScope_of_nonlocal hchain, fun i => ?_, fun i written target hne => ?_⟩
  · rw [← hchain]
    exact ht.outward_chain s hs
  · rw [← hchain] at hi
    exact lookup_of_isFirst hi
  · rw [← hchain] at hnone
    exact lookup_of_forall_not hnone
  · rcases t.bindingScope_cases s name with hmodule | hfunction | hself
    · exact .inr (.inl hmodule)
    · rw [outerFunctions, hchain, List.tail_cons] at hfunction
      obtain ⟨hmem, hkind⟩ := List.mem_filter.1 hfunction
      exact .inr (.inr ⟨hmem, of_decide_eq_true hkind⟩)
    · exact .inl hself
  · rw [enclosingFunction?, hchain]
    exact find?_eq_some_iff_isFirst
  · obtain ⟨hname, hmem, hseen⟩ := eq_of_lookup_bind_ne hne
    rw [hchain] at hmem
    refine ⟨hname, ?_⟩
    rcases (t.sees_iff s i).1 hseen with rfl | hkind
    · exact .inl rfl
    · exact (List.mem_cons.1 hmem).imp_right fun houter => ⟨houter, hkind⟩

/-- A function `f` that binds `x`, in it a class that binds `x`, and in that a method that declares
`x` nonlocal. -/
def nonlocalInMethod : ScopeTree :=
  let t := ((ofModule (.root "m") ⟨0, 90⟩).openFrame 1 .function ⟨["m", "f"]⟩ 0 ⟨0, 90⟩).2
  let t := t.bind 1 "x" (.declared ⟨["m", "f", "x"]⟩)
  let t := (t.openFrame 2 .class ⟨["m", "f", "C"]⟩ 1 ⟨20, 90⟩).2
  let t := t.bind 2 "x" (.declared ⟨["m", "f", "C", "x"]⟩)
  let t := (t.openFrame 3 .function ⟨["m", "f", "C", "g"]⟩ 2 ⟨40, 90⟩).2
  t.declareNonlocal 3 "x"

/-- The method passes the class by, reading and binding. -/
theorem exists_answeredAlong_nonlocalInMethod :
    nonlocalInMethod.Reachable ∧ 3 < nonlocalInMethod.size ∧
      nonlocalInMethod.AnsweredAlong 3 "x" [2, 1, 0] ∧
      nonlocalInMethod.lookup 3 "x" = some (.declared ⟨["m", "f", "x"]⟩) ∧
      nonlocalInMethod.bindingScope 3 "x" = 1 := by
  -- The tree is built by opening three frames and binding two names, each inside a frame that is
  -- there.
  have ht : nonlocalInMethod.Reachable := by
    refine .declareNonlocal (.openFrame (.bind (.openFrame (.bind (.openFrame (.ofModule _ _) _ _ _
      ?_ _) _ _ _) _ _ _ ?_ _) _ _ _) _ _ _ ?_ _) _ _ <;> decide
  have hs : 3 < nonlocalInMethod.size := by decide
  have hwalk : nonlocalInMethod.Outward 3 [3, 2, 1, 0] := by
    refine .step ?_ ?_ (.step ?_ ?_ (.step ?_ ?_ (.last ?_ ?_))) <;> decide
  obtain ⟨outer, h⟩ := exists_answeredAlong ht hs "x"
  obtain rfl : outer = [2, 1, 0] := (List.cons.inj (h.outward.unique hwalk)).2
  have hread := h.lookup_first 1 ⟨[3, 2], [0], rfl, by decide, by decide⟩
  refine ⟨ht, hs, h, hread.trans (by decide), ?_⟩
  rcases h.bindingScope_nonlocal (by decide) (by decide) ⟨1, by decide, by decide⟩ with
    hbinds | ⟨hnone, -⟩
  · exact hbinds.unique ⟨[2], [0], rfl, by decide, by decide⟩
  · exact absurd (hnone 1 (by decide) (by decide)) (by decide)

end NameAtlas.Python.ScopeTree
