import NameAtlas.Proofs.Analysis.WellFormed
import NameAtlas.Proofs.Reading.Coverage
import NameAtlas.Proofs.Reading.Statements
import NameAtlas.Proofs.Walk.Besides

/-!
# Unpacking a sequence into names

Where the sides of an assignment are sequences of one length, each value is evaluated and its target
bound before the next value is evaluated. So a target ends with the type that its value has behind
the pairs in front of it, unless what follows binds the name again; and that is the type that the
value has in front of the whole statement if the value keeps away from everything that is bound up
to there (`performAssignment_unpack`). A value that reads a target in front of it sees its new type:
`a, b = b, a` does not swap the types (`exists_unpack_ne`).
-/

namespace NameAtlas.Python

open Source

/-- Names with the values of the same places, as targets. -/
def namePairs (pairs : List (Word × Expr)) : List (Target × Expr) :=
  pairs.map fun pair => (.name pair.1, pair.2)

/-- The names that are bound where names get the values of the same places. -/
def boundByPairs (pairs : List (Word × Expr)) : List String :=
  pairs.flatMap fun pair => pair.2.bound ++ [pair.1.text]

/-- The names that an annotation binds. -/
def boundByHint : Option TypeHint → List String
  | some (.form _ reads) => boundIn reads
  | _ => []

/-! ### What the pairs in front change -/

/-- Pairs are assigned one list after the other. -/
theorem assignPairs_append (scope : Nat) (pairs pairs' : List (Target × Expr)) (w : Walk) :
    assignPairs scope (pairs ++ pairs') w = assignPairs scope pairs' (assignPairs scope pairs w) := by
  induction pairs generalizing w with
  | nil => rfl
  | cons pair rest ih => exact ih _

namespace Walk

variable {scope : Nat} {names : List String}

/-- Reading a hint changes the names that it binds, and no others. -/
theorem agreesBesides_readHint (w : Walk) {hint : Option TypeHint} (h : boundByHint hint ⊆ names) :
    w.AgreesBesides scope names (w.readHint scope hint).2 := by
  rcases hint with _ | ⟨form, reads⟩ | ⟨snippet, location⟩
  · exact .refl w
  · exact agreesBesides_evalParts reads w h
  · exact (AgreesBesides.refl w).congr rfl rfl rfl rfl

/-- Names that get values leave a walk that agrees with the one before besides what they bind. -/
theorem agreesBesides_assignPairs (w : Walk) {pairs : List (Word × Expr)}
    (h : boundByPairs pairs ⊆ names) :
    w.AgreesBesides scope names (assignPairs scope (namePairs pairs) w) := by
  induction pairs generalizing w with
  | nil => exact .refl w
  | cons pair rest ih =>
    obtain ⟨hpair, hrest⟩ := List.append_subset.1 h
    obtain ⟨hvalue, hword⟩ := List.append_subset.1 hpair
    have heval : w.AgreesBesides scope names (eval scope pair.2 w).2 :=
      agreesBesides_eval pair.2 w hvalue
    exact (heval.trans (.bindName_self _ (hword List.mem_cons_self) _)).trans (ih _ hrest)

end Walk

variable {scope : Nat}

/-- Names that get values stay bound at their places, and the last of a name has the type of its
value behind the pairs in front. -/
theorem typeOf_assignPairs (w : Walk) (front : List (Word × Expr)) {word : Word} (value : Expr)
    {rest : List (Word × Expr)} (hlast : word.text ∉ boundByPairs rest) :
    (assignPairs scope (namePairs (front ++ (word, value) :: rest)) w).symbols.typeOf
        (w.bindingPlace scope word.text).2 =
      (eval scope value (assignPairs scope (namePairs front) w)).1.type := by
  let before := assignPairs scope (namePairs front) w
  let bound := (eval scope value before).2.bindName scope word (eval scope value before).1.type
  have hbefore : w.AgreesBesides scope (boundByPairs front) before :=
    w.agreesBesides_assignPairs fun _ h => h
  have hvalue : before.AgreesBesides scope value.bound (eval scope value before).2 :=
    Walk.agreesBesides_eval value before fun _ h => h
  have hplace : (eval scope value before).2.bindingPlace scope word.text =
      w.bindingPlace scope word.text := (hvalue.places _).trans (hbefore.places _)
  have hrest : bound.AgreesBesides scope (boundByPairs rest)
      (assignPairs scope (namePairs rest) bound) := bound.agreesBesides_assignPairs fun _ h => h
  -- What follows binds other names, so it leaves the symbol alone.
  have hbears : ¬Bears (boundByPairs rest) (w.bindingPlace scope word.text).2 :=
    mt bears_child_iff.1 hlast
  have hassign : assignPairs scope (namePairs (front ++ (word, value) :: rest)) w =
      assignPairs scope (namePairs rest) bound := by
    rw [namePairs, List.map_append, assignPairs_append]
    rfl
  rw [hassign, hrest.types _ hbears, ← hplace]
  exact (SymbolTable.typeOf_declare _ _ _).trans (if_pos rfl)

/-- A value that keeps away from what the annotation and the pairs in front of it bind is the same as
in front of the statement. -/
theorem eval_assignPairs {w : Walk} {hint : Option TypeHint} {front : List (Word × Expr)}
    {value : Expr}
    (havoids : w.Avoids scope (boundByHint hint ++ boundByPairs front) value.words) :
    (eval scope value (assignPairs scope (namePairs front) (w.readHint scope hint).2)).1 =
      (eval scope value w).1 := by
  let names := boundByHint hint ++ boundByPairs front
  have hhint : w.AgreesBesides scope names (w.readHint scope hint).2 :=
    w.agreesBesides_readHint (List.subset_append_left _ _)
  have hfront : (w.readHint scope hint).2.AgreesBesides scope names
      (assignPairs scope (namePairs front) (w.readHint scope hint).2) :=
    (w.readHint scope hint).2.agreesBesides_assignPairs (List.subset_append_right _ _)
  exact ((hhint.trans hfront).eval value havoids).1

/-! ### Assignments of a tree -/

variable {source : SourceText} {n l r : Node} {values : List (Bool × Expr)}

/-- A node that assigns a sequence without unpacked values to as many names pairs them off. -/
theorem assignment_of_pattern (hl : n.children.find? (fun c => c.field = "left") = some l)
    (hr : n.children.find? (fun c => c.field = "right") = some r)
    (hkind : l.kind ∈ ["pattern_list", "tuple_pattern", "list_pattern"])
    (hnames : ∀ c ∈ (Part.ofNode source l).named, c.kind = "identifier")
    (hvalues : (Part.ofNode source r).meaning.sequence = some values)
    (hlength : (Part.ofNode source l).named.length = values.length)
    (hplain : ∀ v ∈ values, v.1 = false) :
    (Part.ofNode source n).meaning.assignment =
      .unpack ((Part.ofNode source n).hintField? "type")
        (namePairs (((Part.ofNode source l).named.map Part.word).zip (values.map Prod.snd))) := by
  have htargets : (Part.ofNode source l).named.map (fun c => c.meaning.target) =
      ((Part.ofNode source l).named.map Part.word).map Target.name := by
    rw [List.map_map]
    refine List.map_congr_left fun c hc => ?_
    have hname := hnames c hc
    rw [Part.named_ofNode] at hc
    obtain ⟨c, -, rfl⟩ := List.mem_map.1 hc
    rw [Part.target_ofNode, Part.toTarget, hname]
    rfl
  -- Without a star on either side there is one value for each target.
  have hpairs : Part.unpackPairs? (Part.ofNode source l) (Part.ofNode source r) =
      some (namePairs (((Part.ofNode source l).named.map Part.word).zip (values.map Prod.snd))) := by
    have hstarred : (Part.ofNode source l).named.any Part.isStarred = false := by
      rw [List.any_eq_false]
      intro c hc
      simp [Part.isStarred, hnames c hc]
    have hunpacked : values.any Prod.fst = false := by
      rw [List.any_eq_false]
      intro v hv
      simp [hplain v hv]
    rw [Part.unpackPairs?, Part.kind_ofNode, if_pos (by simpa [or_assoc] using hkind), hvalues]
    simp only [hlength, hstarred, hunpacked, htargets, namePairs, List.zip_map_left]
    rfl
  rw [Part.assignment_ofNode, Part.toAssignment, Part.field?_of_find? hl, Part.field?_of_find? hr]
  simp only [Option.bind_some, hpairs]

/-- Where a node assigns a sequence without unpacked values to as many names, the last target of a
name that is not bound again by what follows ends with the type that its value has behind the pairs
in front of it. That is the type that the value has in front of the statement if it keeps away from
what the annotation and these pairs bind. -/
theorem performAssignment_unpack (hl : n.children.find? (fun c => c.field = "left") = some l)
    (hr : n.children.find? (fun c => c.field = "right") = some r)
    (hkind : l.kind ∈ ["pattern_list", "tuple_pattern", "list_pattern"])
    (hnames : ∀ c ∈ (Part.ofNode source l).named, c.kind = "identifier")
    (hvalues : (Part.ofNode source r).meaning.sequence = some values)
    (hlength : (Part.ofNode source l).named.length = values.length)
    (hplain : ∀ v ∈ values, v.1 = false) (scope : Nat) (w : Walk)
    {front rest : List (Word × Expr)} {word : Word} {value : Expr}
    (hsplit : ((Part.ofNode source l).named.map Part.word).zip (values.map Prod.snd) =
      front ++ (word, value) :: rest) (hlast : word.text ∉ boundByPairs rest) :
    let hint := (Part.ofNode source n).hintField? "type"
    let before := assignPairs scope (namePairs front) (w.readHint scope hint).2
    let after := (performAssignment scope (Part.ofNode source n).meaning.assignment w).2
    after.bindingPlace scope word.text = w.bindingPlace scope word.text ∧
      after.symbols.typeOf (w.bindingPlace scope word.text).2 = (eval scope value before).1.type ∧
      (w.Avoids scope (boundByHint hint ++ boundByPairs front) value.words →
        after.symbols.typeOf (w.bindingPlace scope word.text).2 = (eval scope value w).1.type) := by
  intro hint before after
  have hhint : w.AgreesBesides scope (boundByHint hint) (w.readHint scope hint).2 :=
    w.agreesBesides_readHint fun _ h => h
  -- The hint and the pairs in front come before this value, and the pairs behind leave its name.
  have hafter : after = assignPairs scope (namePairs (front ++ (word, value) :: rest))
      (w.readHint scope hint).2 := by
    simp only [after, assignment_of_pattern hl hr hkind hnames hvalues hlength hplain, hsplit]
    rfl
  have hpairs : (w.readHint scope hint).2.AgreesBesides scope
      (boundByPairs (front ++ (word, value) :: rest)) after := by
    rw [hafter]
    exact (w.readHint scope hint).2.agreesBesides_assignPairs fun _ h => h
  have htype : after.symbols.typeOf (w.bindingPlace scope word.text).2 =
      (eval scope value before).1.type := by
    rw [hafter, ← hhint.places]
    exact typeOf_assignPairs _ front value hlast
  refine ⟨?_, htype, fun havoids => htype.trans (congrArg Evaluated.type ?_)⟩
  · exact (hpairs.places _).trans (hhint.places _)
  · exact eval_assignPairs havoids

/-- The node of a name. -/
def nameNode (id : Nat) (start stop : Nat) : Node := wholeNode id "identifier" "" start stop []

/-- The left side of an assignment to two names. -/
def twoNames (id start : Nat) : Node :=
  wholeNode id "pattern_list" "left" start (start + 4)
    [nameNode (id + 1) start (start + 1), nameNode (id + 2) (start + 3) (start + 4)]

/-- A walk over `a = 1` and `b = 's'`. -/
def boundNames : Walk :=
  Walk.walks ⟨.root "m", false⟩
    (.ofTree (.ofString "a = 1\nb = 's'\n")
      (wholeNode 0 "module" "" 0 14
        [wholeNode 1 "expression_statement" "" 0 5
          [wholeNode 2 "assignment" "" 0 5
            [wholeNode 3 "identifier" "left" 0 1 [], wholeNode 4 "integer" "right" 4 5 []]],
          wholeNode 5 "expression_statement" "" 6 13
            [wholeNode 6 "assignment" "" 6 13
              [wholeNode 7 "identifier" "left" 6 7 [], wholeNode 8 "string" "right" 10 13 []]]]))
    1

/-- Behind `c, d = 2, b` the second name has the type of the name that is not a target. -/
theorem performAssignment_unpack_apart :
    let n := wholeNode 9 "assignment" "" 14 25
      [twoNames 10 14, wholeNode 13 "expression_list" "right" 21 25
        [wholeNode 14 "integer" "" 21 22 [], nameNode 15 24 25]]
    let source : SourceText := .ofString "a = 1\nb = 's'\nc, d = 2, b\n"
    (performAssignment 0 (Part.ofNode source n).meaning.assignment boundNames).2.symbols.typeOf
      ⟨["m", "d"]⟩ = .primitive "str" := by
  intro n source
  let value : Expr := .name (Part.ofNode source (nameNode 15 24 25)).word
  have hsplit : ((Part.ofNode source (twoNames 10 14)).named.map Part.word).zip
      ([(false, .compound [] (.fixed (.primitive "int"))), (false, value)].map Prod.snd) =
        [(_, _)] ++ (_, _) :: [] := rfl
  have hunpack := performAssignment_unpack (n := n) (l := twoNames 10 14) (r := _) rfl rfl
    (by decide) (by decide +kernel) rfl rfl (by simp) 0 boundNames hsplit (by decide +kernel)
  have hplace : boundNames.bindingPlace 0 (Part.ofNode source (nameNode 12 17 18)).word.text =
      (0, ⟨["m", "d"]⟩) := by decide +kernel
  have hlookup : boundNames.scopes.lookup 0 (Part.ofNode source (nameNode 15 24 25)).word.text =
      some (.declared ⟨["m", "b"]⟩) := by decide +kernel
  have htype : (eval 0 value boundNames).1.type = .primitive "str" := by decide +kernel
  -- The value is a name that the pair in front does not bind.
  have havoids : boundNames.Avoids 0
      [(Part.ofNode source (nameNode 11 14 15)).word.text] value.words := by
    intro word hword
    obtain rfl := List.mem_singleton.1 hword
    refine ⟨by decide +kernel, fun f hf => ?_⟩
    obtain rfl := NameTarget.declared.inj (Option.some.inj (hlookup.symm.trans hf))
    simp only [Bears, List.mem_singleton, exists_eq_left]
    decide +kernel
  have hsame := hunpack.2.2 havoids
  rw [hplace, htype] at hsame
  exact hsame

/-- Behind `a, b = b, a` the second name does not have the type that the first one had before. -/
theorem exists_unpack_ne :
    ∃ (source : SourceText) (n : Node) (w : Walk) (first second : Word) (value other : Expr),
      first.text ≠ second.text ∧
        (Part.ofNode source n).meaning.assignment =
          .unpack none (namePairs [(first, value), (second, other)]) ∧
        (performAssignment 0 (Part.ofNode source n).meaning.assignment w).2.symbols.typeOf
          (w.bindingPlace 0 second.text).2 ≠ (eval 0 other w).1.type := by
  let n := wholeNode 9 "assignment" "" 14 25
    [twoNames 10 14, wholeNode 13 "expression_list" "right" 21 25
      [nameNode 14 21 22, nameNode 15 24 25]]
  refine ⟨.ofString "a = 1\nb = 's'\na, b = b, a\n", n, boundNames, _, _, _, _, ?_, rfl, ?_⟩
  · decide +kernel
  · decide +kernel

end NameAtlas.Python
