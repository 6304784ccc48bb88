import NameAtlas.Proofs.Walk.Layout
import NameAtlas.Proofs.Walk.Operations

/-!
# The sites of a run

A walk opens the scope of a definition before it does anything in the body of it. So whatever
happens in a run happens at a site that has a scope by then (`Machine.Sited`). For the code of a
statement that follows the syntax (`compositional_sited`); the body of a function is read behind the
place where the function was queued, and was given its scope there (`sited_program`).
-/

namespace NameAtlas.Python

namespace Machine

variable (context : ImportContext)

/-- True if every action of a run that begins with `M` happens at a site that has a scope. -/
def Sited : List Action → Machine → Prop
  | [], _ => True
  | a :: rest, M => (∃ i, M.walk.scopes.Resolves a.site i) ∧ Sited rest (step context M a)

variable {context}

/-- Two runs, one after the other, are at sites with scopes if each of them is. -/
theorem Sited.append {P P' : List Action} {M : Machine} (h : Sited context P M)
    (h' : Sited context P' (run context P M)) : Sited context (P ++ P') M := by
  induction P generalizing M with
  | nil => exact h'
  | cons a rest ih => exact ⟨h.1, ih h.2 h'⟩

variable (context)

/-- The actions of a site with a scope are at a site with a scope. -/
theorem sited_actions {s : Site} {i : Nat} (ops : List Op) (M : Machine)
    (h : M.walk.scopes.Resolves s i) : Sited context (s.actions ops) M := by
  induction ops generalizing M with
  | nil => trivial
  | cons op rest ih => exact ⟨⟨i, h⟩, ih _ (h.mono (grows_perform context _ op M).scopes)⟩

/-- The bases of a class are read at the site of its body, which has a scope since `enterClass`. -/
theorem sited_classHead {s : Site} {i : Nat} (h : ClassHeader) (M : Machine)
    (hs : M.walk.scopes.Resolves s i) : Sited context (h.code s) M := by
  have hopen := isSome_byNode_run context (s.actions
    (.place h.node h.word :: typeParameterOps h.typeParameters ++ [.enterClass h])) M
    ⟨⟨s, .enterClass h⟩, List.mem_map_of_mem (by simp), rfl⟩
  obtain ⟨j, hj⟩ := Option.isSome_iff_exists.1 hopen
  exact (sited_actions context _ M hs).append (sited_actions context _ _ hj)

/-- Whether a run is at sites with scopes follows the syntax. -/
theorem compositional_sited : Compositional context (Sited context) where
  nil _ := trivial
  append h h' := h.append h'
  basic _ _ ops M h _ := sited_actions context ops M h
  function _ _ f M h := sited_actions context f.defineOps M h
  classBody _ _ header _ M h hbody :=
    ((sited_classHead context header M h).append hbody).append
      (sited_actions context _ _ (h.mono (grows_run context _ M).scopes))
  functionBody _ _ M h hbody :=
    ((sited_actions context _ M h).append hbody).append
      (sited_actions context _ _ (h.mono (grows_run context _ M).scopes))

/-- Whatever a walk does happens at a site that has a scope: the bodies in the queue are read in the
scopes that their functions were given. -/
theorem sited_program (m : Module) (k : Nat) :
    Sited context m.program (.ofWalk (Walk.walks context m k)) :=
  (compositional_sited context).program m k

end Machine

end NameAtlas.Python
