import NameAtlas.Proofs.Walk.Openings

/-!
# The order of a program

In the program of a module a function is met before its body is read, and the body begins before it
ends (`Module.ordered_program`). The functions in the code of the module are met there, and all
others in a body that is read earlier, because a body is queued behind the one that defines its
function (`Module.defined_bodies`).
-/

namespace NameAtlas.Python

/-- True if an action that ends a body comes behind actions that meet the function of the body and
begin it. -/
def Action.IsOrdered (done : List Action) (a : Action) : Prop :=
  a.op = .endBody →
    ⟨a.site, .beginBody⟩ ∈ done ∧ ∃ s f, ⟨s, .enterFunction f⟩ ∈ done ∧ f.site = a.site

/-- True if some actions are ordered when they are done behind others. -/
def Ordered (done : List Action) : List Action → Prop
  | [] => True
  | a :: rest => a.IsOrdered done ∧ Ordered (a :: done) rest

/-- Two runs, one after the other, are ordered if each of them is. -/
theorem Ordered.append {done P P' : List Action} (h : Ordered done P)
    (h' : Ordered (P.reverse ++ done) P') : Ordered done (P ++ P') := by
  induction P generalizing done with
  | nil => exact h'
  | cons a rest ih =>
    refine ⟨h.1, ih h.2 ?_⟩
    rw [List.reverse_cons, List.append_assoc] at h'
    exact h'

/-- Actions that end no body are ordered. -/
theorem ordered_of_ne_endBody {P : List Action} (h : ∀ a ∈ P, a.op ≠ .endBody)
    (done : List Action) : Ordered done P := by
  induction P generalizing done with
  | nil => trivial
  | cons a rest ih =>
    exact ⟨fun ha => absurd ha (h a List.mem_cons_self),
      ih (fun a' ha' => h a' (List.mem_cons_of_mem a ha')) _⟩

/-! ### The code of a statement -/

/-- Statements end no bodies. -/
theorem ne_endBody_codeOf (body : List Stmt) (s : Site) : ∀ a ∈ codeOf s body, a.op ≠ .endBody := by
  intro a ha hend
  have hfits : a.Fits (openingsOf s body) true false :=
    fits_codeOf body s (List.Subset.refl _) (fun _ => rfl) a ha
  rw [Action.Fits, hend] at hfits
  cases hfits

mutual

/-- Each function of a statement is entered in its code. -/
theorem exists_enterFunction_mem_code {f : FunctionBody} :
    ∀ (st : Stmt) (s : Site), f ∈ st.functions → ∃ s', ⟨s', .enterFunction f⟩ ∈ st.code s
  -- A function is defined in a block or class, or in the statement itself.
  | .block body, s, h => exists_enterFunction_mem_codeOf body s h
  | .caught value between target, s, h =>
    let ⟨s', hs'⟩ := exists_enterFunction_mem_codeOf between s h
    ⟨s', List.mem_append_left _ (List.mem_append_right _ hs')⟩
  | .function header body, s, h => by
    obtain rfl := List.mem_singleton.1 h
    exact ⟨s, List.mem_map_of_mem (by simp [FunctionBody.defineOps])⟩
  | .class header body, s, h =>
    let ⟨s', hs'⟩ := exists_enterFunction_mem_codeOf body (.body header.node) h
    ⟨s', List.mem_append_left _ (List.mem_append_right _ hs')⟩
  | .simple _, _, h | .imports _ _, _, h | .returns _, _, h | .globals _, _, h
  | .nonlocals _, _, h | .unsupported _ _, _, h => nomatch h

/-- Statements meet the functions that they define where they stand. -/
theorem exists_enterFunction_mem_codeOf {f : FunctionBody} :
    ∀ (body : List Stmt) (s : Site), f ∈ functionsOf body →
      ∃ s', ⟨s', .enterFunction f⟩ ∈ codeOf s body
  | [], _, h => nomatch h
  | st :: rest, s, h => by
    rcases List.mem_append.1 h with h | h
    · obtain ⟨s', hs'⟩ := exists_enterFunction_mem_code st s h
      exact ⟨s', List.mem_append_left _ hs'⟩
    · obtain ⟨s', hs'⟩ := exists_enterFunction_mem_codeOf rest s h
      exact ⟨s', List.mem_append_right _ hs'⟩

end

/-! ### The bodies of functions -/

/-- True if each of some functions is defined in the code of a module or in a function before it. -/
def Module.Defined (m : Module) (bodies : List FunctionBody) : Prop :=
  ∀ before f after, bodies = before ++ f :: after →
    f ∈ functionsOf m.body ∨ ∃ g ∈ before, f ∈ functionsOf g.body

/-- Functions may be added behind the ones that define them. -/
theorem Module.Defined.addNew {m : Module} {queued fs : List FunctionBody} (h : m.Defined queued)
    (hfs : ∀ f ∈ fs, f ∈ functionsOf m.body ∨ ∃ g ∈ queued, f ∈ functionsOf g.body) :
    m.Defined (Walk.addNew queued fs) := by
  -- The induction is on the functions that are added, for any queue so far.
  induction fs generalizing queued with
  | nil => exact h
  | cons f rest ih =>
    rw [Walk.addNew]
    split
    · exact ih h fun f' hf' => hfs f' (List.mem_cons_of_mem f hf')
    · refine ih (fun before f' after heq => ?_) fun f' hf' => ?_
      · rcases List.append_eq_append_iff.1 heq with ⟨more, hmore, htail⟩ | ⟨more, hmore, htail⟩
        · cases more with
          | nil =>
            obtain ⟨rfl, -⟩ := List.cons.inj htail
            rw [hmore, List.append_nil]
            exact hfs f List.mem_cons_self
          | cons g more =>
            have hnil := congrArg List.length htail
            simp at hnil
        · cases more with
          | nil =>
            obtain ⟨rfl, -⟩ := List.cons.inj htail
            rw [← List.append_nil before, ← hmore]
            exact hfs _ List.mem_cons_self
          | cons g more =>
            obtain ⟨rfl, -⟩ := List.cons.inj htail
            exact h before f' more hmore
      · rcases hfs f' (List.mem_cons_of_mem f hf') with hf' | ⟨g, hg, hf'⟩
        · exact .inl hf'
        · exact .inr ⟨g, List.mem_append_left _ hg, hf'⟩

/-- The body of a function is queued behind the code that defines the function. -/
theorem Module.defined_bodies (m : Module) : m.Defined m.bodies := by
  refine Walk.queued_runQueue_induction default (P := m.Defined) 0 _ (fun queued g hg h => ?_) ?_
  · exact h.addNew fun f hf => .inr ⟨g, hg, hf⟩
  · rw [Walk.queued_visitAll]
    have hnil : m.Defined [] := fun before f after heq => by simp at heq
    exact hnil.addNew fun f hf => .inl hf

/-- The body of a function is ordered behind the code that meets the function. -/
theorem ordered_functionCode (f : FunctionBody) {done : List Action}
    (h : ∃ s, ⟨s, .enterFunction f⟩ ∈ done) : Ordered done f.code := by
  obtain ⟨s, hs⟩ := h
  have hbegin : Ordered done (f.site.actions [.beginBody]) := ⟨fun h => Op.noConfusion h, trivial⟩
  have hbody := hbegin.append (ordered_of_ne_endBody (ne_endBody_codeOf f.body f.site) _)
  refine hbody.append ⟨fun _ => ⟨List.mem_append_left _ (List.mem_reverse.2 ?_), s, f,
    List.mem_append_right _ hs, rfl⟩, trivial⟩
  exact List.mem_append_left _ List.mem_cons_self

/-- The code of the bodies is ordered, whatever bodies are in front. -/
theorem ordered_bodies {m : Module} (before after : List FunctionBody)
    (h : m.bodies = before ++ after) :
    Ordered (m.code before).reverse (after.flatMap FunctionBody.code) := by
  -- The induction is on the bodies that are left; those in front have been done.
  induction after generalizing before with
  | nil => trivial
  | cons f after ih =>
    have hrest := ih (before ++ [f]) (by rw [h, List.append_assoc]; rfl)
    rw [Module.code, List.flatMap_append, List.flatMap_singleton, ← List.append_assoc,
      List.reverse_append] at hrest
    refine (ordered_functionCode f ?_).append hrest
    rcases m.defined_bodies before f after h with hf | ⟨g, hg, hf⟩
    · obtain ⟨s, hs⟩ := exists_enterFunction_mem_codeOf m.body .module hf
      exact ⟨s, List.mem_reverse.2 (List.mem_append_left _ hs)⟩
    · obtain ⟨s, hs⟩ := exists_enterFunction_mem_codeOf g.body g.site hf
      exact ⟨s, List.mem_reverse.2 (List.mem_append_right _ (List.mem_flatMap.2
        ⟨g, hg, List.mem_append_left _ (List.mem_append_right _ hs)⟩))⟩

/-- A walk over a module meets each function before it reads the body. -/
theorem Module.ordered_program (m : Module) : Ordered [] m.program := by
  refine (ordered_of_ne_endBody (ne_endBody_codeOf m.body .module) []).append ?_
  have hbodies := ordered_bodies (m := m) [] m.bodies rfl
  rw [Module.code, List.flatMap_nil, List.append_nil] at hbodies
  rw [List.append_nil]
  exact hbodies

end NameAtlas.Python
