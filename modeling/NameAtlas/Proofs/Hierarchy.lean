import Mathlib.Data.List.Basic
import Mathlib.Logic.Relation
import NameAtlas.Hierarchy

/-!
# Walks over a class hierarchy

A visit keeps one stack for the whole walk. A class is put on it as often as it is met as a base,
and the repetitions are dropped when they come up. Plain recursion has no such stack: it goes
through the bases of a class before it returns to what stood beside the class, and all its calls
share the set of the classes met (`preorder`). The two list the same classes in the same order, as
the stack below the bases of a class is what the callers of the recursion still have to go through
(`visit_append`).

What is met is closed under bases (`mem_visit_or_of_extends`), so an ancestor is whatever is reached
along the bases of a class, apart from the class (`mem_ancestors_iff`).
-/

namespace NameAtlas.Hierarchy

/-- The class `c` extends its base `b`. -/
def Extends (bases : Table Fqn (List Fqn)) (c b : Fqn) : Prop := b ∈ basesOf bases c

/-- What is visited beforehand leaves less to use up. -/
theorem unused_append_le (met visited : List Fqn) (es : List (Fqn × List Fqn)) :
    unused (met ++ visited) es ≤ unused visited es := by
  induction met with
  | nil => exact Nat.le_refl _
  | cons c met ih => exact Nat.le_trans (unused_cons_le c _ es) ih

/-- The classes that plain recursion meets in a list of classes and above them, without those that
were visited before: each class is followed by what is met above it, and what was met up to there is
visited for the classes behind it. -/
def preorder (bases : Table Fqn (List Fqn)) (visited : List Fqn) : List Fqn → List Fqn
  | [] => []
  | c :: cs =>
    if c ∈ visited then preorder bases visited cs
    else
      let above := preorder bases (c :: visited) (basesOf bases c)
      c :: above ++ preorder bases (above ++ c :: visited) cs
termination_by cs => cs.length + unused visited bases.entries
decreasing_by
  · simp only [List.length_cons]; omega
  · rename_i h
    have := unused_cons_add_le h bases.entries
    simp only [basesOf, Table.get?, List.length_cons]
    omega
  · refine Nat.lt_of_le_of_lt (Nat.add_le_add_left (unused_append_le _ _ _) _) ?_
    have := unused_cons_le c visited bases.entries
    simp only [List.length_cons]
    omega

variable {bases : Table Fqn (List Fqn)}

/-! ### What is read of a hierarchy -/

/-- A visit of a hierarchy reads the bases of each class and nothing else of the table. -/
theorem visit_congr {bases' : Table Fqn (List Fqn)} (h : ∀ c, basesOf bases' c = basesOf bases c)
    (visited stack : List Fqn) : visit bases' visited stack = visit bases visited stack := by
  fun_induction visit bases visited stack with
  | case1 visited => rw [visit]
  | case2 visited next stack hnext ih =>
    rw [visit, if_pos hnext]
    exact ih
  | case3 visited next stack hnext ih =>
    rw [visit, if_neg hnext, h]
    exact congrArg (next :: ·) ih

section

variable {g h : Hierarchy}

/-- Hierarchies with the same bases have the same ancestors. -/
theorem ancestors_congr (hbases : ∀ c, basesOf g.bases c = basesOf h.bases c) (c : Fqn) :
    g.ancestors c = h.ancestors c := by
  rw [ancestors, ancestors, hbases, visit_congr hbases]

/-- Hierarchies with the same bases and names have the same members. -/
theorem resolveMember?_congr (hbases : ∀ c, basesOf g.bases c = basesOf h.bases c)
    (hdeclares : g.declares = h.declares) (c : Fqn) (name : String) :
    g.resolveMember? c name = h.resolveMember? c name := by
  rw [resolveMember?, resolveMember?, ancestors_congr hbases, hdeclares]

end

/-! ### The stack and the recursion -/

/-- A visit asks which classes were visited, not in which order. -/
theorem visit_congr_visited {visited visited' : List Fqn} (h : ∀ a, a ∈ visited' ↔ a ∈ visited)
    (stack : List Fqn) : visit bases visited' stack = visit bases visited stack := by
  fun_induction visit bases visited stack generalizing visited' with
  | case1 visited => rw [visit]
  | case2 visited next stack hnext ih => rw [visit, if_pos ((h next).2 hnext), ih h]
  | case3 visited next stack hnext ih =>
    have hcons : ∀ a, a ∈ next :: visited' ↔ a ∈ next :: visited := fun a => by
      rw [List.mem_cons, List.mem_cons, h]
    rw [visit, if_neg fun hmem => hnext ((h next).1 hmem), ih hcons]

/-- A visit meets the classes on top of the stack in the order of the recursion, and goes on with
the rest of the stack when they are done. -/
theorem visit_append (visited cs stack : List Fqn) :
    visit bases visited (cs ++ stack) =
      preorder bases visited cs ++ visit bases (preorder bases visited cs ++ visited) stack := by
  fun_induction preorder bases visited cs generalizing stack with
  | case1 visited => rfl
  | case2 visited c cs hc ih => rw [List.cons_append, visit, if_pos hc, ih]
  | case3 visited c cs hc above ihabove ihbehind =>
    -- The rest of the list is a part of the stack while the bases of `c` are gone through.
    rw [List.cons_append, visit, if_neg hc, ihabove, ihbehind]
    simp only [above, List.cons_append, List.append_assoc, List.cons.injEq,
      List.append_cancel_left_eq, true_and]
    refine visit_congr_visited (fun a => ?_) stack
    simp only [List.mem_append, List.mem_cons]
    tauto

/-- The search lists the classes in the order of the plain recursion. -/
theorem visit_eq_preorder (visited stack : List Fqn) :
    visit bases visited stack = preorder bases visited stack := by
  have h := @visit_append bases visited stack []
  rwa [List.append_nil, visit, List.append_nil] at h

/-! ### What a visit meets -/

/-- The search lists no class that was visited before. -/
theorem notMem_of_mem_visit {visited stack : List Fqn} {a : Fqn}
    (h : a ∈ visit bases visited stack) : a ∉ visited := by
  fun_induction visit bases visited stack with
  | case1 visited => exact absurd h List.not_mem_nil
  | case2 visited next stack hnext ih => exact ih h
  | case3 visited next stack hnext ih =>
    obtain rfl | h := List.mem_cons.1 h
    · exact hnext
    · exact fun hmem => ih h (List.mem_cons_of_mem next hmem)

/-- The search lists every class once. -/
theorem nodup_visit (visited stack : List Fqn) : (visit bases visited stack).Nodup := by
  fun_induction visit bases visited stack with
  | case1 visited => exact List.nodup_nil
  | case2 visited next stack hnext ih => exact ih
  | case3 visited next stack hnext ih =>
    exact List.nodup_cons.2 ⟨fun h => notMem_of_mem_visit h List.mem_cons_self, ih⟩

/-- What holds of the classes on the stack, and of the bases of whatever it holds of, holds of all
that a visit meets. -/
theorem forall_mem_visit {P : Fqn → Prop} (hbases : ∀ c, P c → ∀ b ∈ basesOf bases c, P b)
    (visited : List Fqn) {stack : List Fqn} (hstack : ∀ a ∈ stack, P a) :
    ∀ a ∈ visit bases visited stack, P a := by
  fun_induction visit bases visited stack with
  | case1 visited => exact hstack
  | case2 visited next stack hnext ih => exact ih (List.forall_mem_cons.1 hstack).2
  | case3 visited next stack hnext ih =>
    obtain ⟨hhead, htail⟩ := List.forall_mem_cons.1 hstack
    have hnew : ∀ a ∈ basesOf bases next ++ stack, P a :=
      List.forall_mem_append.2 ⟨hbases next hhead, htail⟩
    exact List.forall_mem_cons.2 ⟨hhead, ih hnew⟩

/-- Each class on the stack is met, if it was not visited before. -/
theorem mem_visited_or_visit {visited stack : List Fqn} {a : Fqn} (h : a ∈ stack) :
    a ∈ visited ∨ a ∈ visit bases visited stack := by
  -- The cases are those of the search: an empty stack, a class visited before, and a new one whose
  -- bases come in front.
  fun_induction visit bases visited stack with
  | case1 visited => exact absurd h List.not_mem_nil
  | case2 visited next stack hnext ih =>
    obtain rfl | h := List.mem_cons.1 h
    · exact .inl hnext
    · exact ih h
  | case3 visited next stack hnext ih =>
    obtain rfl | h := List.mem_cons.1 h
    · exact .inr List.mem_cons_self
    · have := ih (List.mem_append_right _ h)
      simp only [List.mem_cons] at this ⊢
      tauto

/-- Each base of a class that is met is met too, if it was not visited before. -/
theorem mem_visit_or_of_extends {visited stack : List Fqn} {a b : Fqn}
    (ha : a ∈ visit bases visited stack) (hab : Extends bases a b) :
    b ∈ visited ∨ b ∈ visit bases visited stack := by
  -- A class is listed when it is visited, and its bases are on the stack then.
  fun_induction visit bases visited stack with
  | case1 visited => exact absurd ha List.not_mem_nil
  | case2 visited next stack hnext ih => exact ih ha
  | case3 visited next stack hnext ih =>
    have : b ∈ next :: visited ∨
        b ∈ visit bases (next :: visited) (basesOf bases next ++ stack) := by
      obtain rfl | ha := List.mem_cons.1 ha
      · exact mem_visited_or_visit (List.mem_append_left _ hab)
      · exact ih ha
    simp only [List.mem_cons] at this ⊢
    tauto

/-! ### Ancestors and members -/

variable (h : Hierarchy) (c : Fqn)

/-- The ancestors of a class are those of the plain recursion from its bases. -/
theorem ancestors_eq_preorder : h.ancestors c = preorder h.bases [c] (basesOf h.bases c) :=
  visit_eq_preorder [c] _

/-- Every ancestor is listed once. -/
theorem nodup_ancestors : (h.ancestors c).Nodup := nodup_visit [c] _

/-- No class is among its own ancestors, not even in a cycle. -/
theorem notMem_ancestors : c ∉ h.ancestors c := fun hmem =>
  notMem_of_mem_visit hmem List.mem_cons_self

/-- The ancestors of a class are the other classes that are reached along bases. -/
theorem mem_ancestors_iff (a : Fqn) :
    a ∈ h.ancestors c ↔ a ≠ c ∧ Relation.TransGen (Extends h.bases) c a := by
  constructor
  · intro ha
    refine ⟨fun hac => notMem_ancestors h c (hac ▸ ha), ?_⟩
    exact forall_mem_visit (fun d hd b hb => hd.tail hb) [c] (fun b hb => .single hb) a ha
  · rintro ⟨hne, hreach⟩
    -- The class and its ancestors are closed under bases, on a cycle back to the class as well.
    have hclosed : a ∈ [c] ∨ a ∈ h.ancestors c := by
      clear hne
      induction hreach with
      | single hb => exact mem_visited_or_visit hb
      | tail _ hb ih =>
        obtain hc | ih := ih
        · obtain rfl := List.mem_singleton.1 hc
          exact mem_visited_or_visit hb
        · exact mem_visit_or_of_extends ih hb
    exact hclosed.resolve_left fun hc => hne (List.mem_singleton.1 hc)

/-- A member is found on the first class that declares it, from the class itself upwards. -/
theorem resolveMember?_eq_some_iff (name : String) (m : Fqn) :
    h.resolveMember? c name = some m ↔
      ∃ nearer a farther, c :: h.ancestors c = nearer ++ a :: farther ∧ m = a.child name ∧
        h.declares m = true ∧ ∀ b ∈ nearer, h.declares (b.child name) = false := by
  rw [resolveMember?, List.find?_map, Option.map_eq_some_iff]
  simp only [List.find?_eq_some_iff_append, Function.comp_apply, Bool.not_eq_true']
  constructor
  · rintro ⟨a, ⟨hdeclares, nearer, farther, hsplit, hnearer⟩, rfl⟩
    exact ⟨nearer, a, farther, hsplit, rfl, hdeclares, hnearer⟩
  · rintro ⟨nearer, a, farther, hsplit, rfl, hdeclares, hnearer⟩
    exact ⟨a, ⟨hdeclares, nearer, farther, hsplit, hnearer⟩, rfl⟩

/-- A member is not found exactly if neither the class nor an ancestor declares it. -/
theorem resolveMember?_eq_none_iff (name : String) :
    h.resolveMember? c name = none ↔
      ∀ a ∈ c :: h.ancestors c, h.declares (a.child name) = false := by
  rw [resolveMember?, List.find?_eq_none]
  simp only [List.forall_mem_map, Bool.not_eq_true]

/-- The walk over the classes above a class is that of plain recursion, on every table of bases: it
lists each class that is reached along bases once, and not the class itself. A member of the class
is the first one that is declared on the way. -/
theorem ancestors_preorder :
    h.ancestors c = preorder h.bases [c] (basesOf h.bases c) ∧
      (h.ancestors c).Nodup ∧ c ∉ h.ancestors c ∧
      (∀ a, a ∈ h.ancestors c ↔ a ≠ c ∧ Relation.TransGen (Extends h.bases) c a) ∧
      ∀ name,
        (∀ m, h.resolveMember? c name = some m ↔
          ∃ nearer a farther, c :: h.ancestors c = nearer ++ a :: farther ∧ m = a.child name ∧
            h.declares m = true ∧ ∀ b ∈ nearer, h.declares (b.child name) = false) ∧
        (h.resolveMember? c name = none ↔
          ∀ a ∈ c :: h.ancestors c, h.declares (a.child name) = false) :=
  ⟨ancestors_eq_preorder h c, nodup_ancestors h c, notMem_ancestors h c, mem_ancestors_iff h c,
    fun name => ⟨resolveMember?_eq_some_iff h c name, resolveMember?_eq_none_iff h c name⟩⟩

/-- The tip of a diamond is listed where it is met first, and the walk stops at the way back. -/
example :
    let bases : Table Fqn (List Fqn) :=
      ⟨[(⟨["m", "D"]⟩, [⟨["m", "B"]⟩, ⟨["m", "C"]⟩]), (⟨["m", "B"]⟩, [⟨["m", "A"]⟩]),
        (⟨["m", "C"]⟩, [⟨["m", "A"]⟩, ⟨["m", "D"]⟩])], by decide⟩
    ancestors ⟨bases, fun _ => false⟩ ⟨["m", "D"]⟩ =
      [⟨["m", "B"]⟩, ⟨["m", "A"]⟩, ⟨["m", "C"]⟩] := by
  cbv

end NameAtlas.Hierarchy
