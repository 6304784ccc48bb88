import NameAtlas.Proofs.Source.Tree

/-!
# Trees without layout

Comments and line continuations may stand between any two tokens, so a parser hangs them in wherever
they are found: as leaves that fill no field (`Node.isTrivia`). `Node.erase` takes some nodes out of
a tree and leaves all others as they are, with the bytes that they cover. Where only trivia is taken
out, the broken nodes of the tree stay (`syntaxErrors_erase`).
-/

namespace NameAtlas.Source

/-- True for a comment or a line continuation that fills no field and is written in the source. -/
def NodeInfo.isTrivia (i : NodeInfo) : Bool :=
  (i.kind = "comment" || i.kind = "line_continuation") && i.field = "" && !i.missing

namespace NodeInfo

variable {i : NodeInfo}

/-- Trivia are comments and line continuations. -/
theorem kind_of_isTrivia (h : i.isTrivia) : i.kind = "comment" ∨ i.kind = "line_continuation" := by
  simp only [isTrivia, Bool.and_eq_true, Bool.or_eq_true, decide_eq_true_eq] at h
  exact h.1.1

/-- Trivia stand in no field. -/
theorem field_of_isTrivia (h : i.isTrivia) : i.field = "" := by
  simp only [isTrivia, Bool.and_eq_true, decide_eq_true_eq] at h
  exact h.1.2

/-- Trivia are not broken. -/
theorem isBroken_of_isTrivia (h : i.isTrivia) : i.isBroken = false := by
  have hmissing : i.missing = false := by
    simp only [isTrivia, Bool.and_eq_true, Bool.not_eq_true'] at h
    exact h.2
  rcases kind_of_isTrivia h with hkind | hkind <;> simp [isBroken, isError, hkind, hmissing]

end NodeInfo

namespace Node

/-- True for trivia as a parser leaves it. -/
def isTrivia (n : Node) : Bool := n.info.isTrivia && n.children.isEmpty

/-- No broken syntax is found in trivia. -/
theorem syntaxErrors_of_isTrivia {n : Node} (h : n.isTrivia) : n.syntaxErrors = [] := by
  obtain ⟨info, children⟩ := n
  simp only [isTrivia, Node.info, Node.children, Bool.and_eq_true, List.isEmpty_iff] at h
  obtain ⟨htrivia, rfl⟩ := h
  simp [syntaxErrors, syntaxErrorsOf, NodeInfo.isBroken_of_isTrivia htrivia]

variable (drop : NodeInfo → Bool)

mutual

/-- The tree without the nodes below the root that `drop` picks. -/
def erase : Node → Node
  | .mk info children => .mk info (eraseIn children)

/-- Several trees without the nodes that `drop` picks. -/
def eraseIn : List Node → List Node
  | [] => []
  | n :: rest => if drop n.info then eraseIn rest else erase n :: eraseIn rest

end

/-- Erasing below a node keeps the node itself. -/
@[simp] theorem info_erase (n : Node) : (n.erase drop).info = n.info := by
  cases n
  rfl

variable {drop}

mutual

/-- Erasing trivia leaves what the search for broken syntax finds. -/
theorem syntaxErrors_erase : ∀ n : Node,
    (∀ t ∈ n.subtrees, ∀ c ∈ t.children, drop c.info → c.isTrivia) →
    (n.erase drop).syntaxErrors = n.syntaxErrors
  | .mk info children, h => by
    rw [erase, syntaxErrors, syntaxErrors,
      syntaxErrorsOf_eraseIn children (h _ (self_mem_subtrees _)) fun t ht =>
        h t (List.mem_cons_of_mem _ ht)]

/-- Erasing trivia from a list leaves what the search for broken syntax finds. -/
theorem syntaxErrorsOf_eraseIn : ∀ ns : List Node, (∀ n ∈ ns, drop n.info → n.isTrivia) →
    (∀ t ∈ subtreesOf ns, ∀ c ∈ t.children, drop c.info → c.isTrivia) →
    syntaxErrorsOf (eraseIn drop ns) = syntaxErrorsOf ns
  | [], _, _ => rfl
  | n :: rest, hroots, h => by
    have hrest := syntaxErrorsOf_eraseIn rest (fun m hm => hroots m (List.mem_cons_of_mem n hm))
      fun t ht => h t (List.mem_append_right _ ht)
    rw [eraseIn, syntaxErrorsOf]
    by_cases hdrop : drop n.info
    · rw [if_pos hdrop, syntaxErrors_of_isTrivia (hroots n List.mem_cons_self hdrop), hrest,
        List.nil_append]
    · rw [if_neg hdrop, syntaxErrorsOf, hrest,
        syntaxErrors_erase n fun t ht => h t (List.mem_append_left _ ht)]

end

end Node

end NameAtlas.Source
