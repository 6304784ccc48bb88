import NameAtlas.Proofs.Reading.Trivia

/-!
# Trees without layout are read alike

The second half of what `Trivia` shows of the roles of a node: its definitions, imports and compound
statements. So a tree that passes over what is picked is read into the same parts without these
(`ofNode_erase`), and if nothing at the top of a file is picked, into the same module
(`Module.ofTree_erase`). For comments this is so in every tree (`passesOver_comments`).
-/

namespace NameAtlas

namespace Python

open Source

namespace Part

variable {drop : NodeInfo → Bool} {p : Part}

/-! ### Definitions -/

/-- Trivia do not change a parameter with a name. -/
theorem namedParameter_erase (p : Part) (name : Option Part) (hint : Option TypeHint)
    (default : Option Expr) :
    (p.erase drop).namedParameter (name.map (erase drop)) hint default =
      p.namedParameter name hint default := by
  simp only [namedParameter, info_erase, kind_erase, text_erase, location_erase, Option.filter_map,
    Function.comp_def]
  cases name.filter fun n => n.kind = "identifier" && !n.info.missing <;> simp

/-- Trivia do not change an argument of a class. -/
theorem classArgument_erase (p : Part) (hp : p.Clear drop) :
    (p.erase drop).classArgument = p.classArgument := by
  simp [classArgument, hp.exprField_erase]

/-- Trivia do not change the type parameters. -/
theorem typeParameters?_erase (hp : p.Clear drop) :
    (p.erase drop).typeParameters? = p.typeParameters? := by
  rw [typeParameters?, hp.map_field?_erase (by decide) (location_erase drop), typeParameters?]

namespace Clear

/-- Trivia do not change a parameter. -/
theorem parameter?_erase (hp : p.Clear drop) : (p.erase drop).parameter? = p.parameter? := by
  simp only [Part.parameter?, info_erase, kind_erase, text_erase, location_erase,
    hp.hintField?_erase (show "type" ≠ "" by decide)]
  by_cases hbroken : p.info.isBroken
  · simp [hbroken]
  · simp only [hbroken, Bool.false_eq_true, if_false]
    -- The cases are the kinds of parameters; the typed ones look at their first named child.
    split
    case h_1 => exact namedParameter_erase p (some p) none none
    case h_2 =>
      rw [hp.head?_named_erase (by rw [‹p.kind = _›]; decide)]
      cases p.named.head? with
      | none => rfl
      | some name =>
        have hnamed : (p.erase drop).namedParameter (some (name.erase drop)) (p.hintField? "type")
            none = p.namedParameter (some name) (p.hintField? "type") none :=
          namedParameter_erase p (some name) _ none
        simpa using congrArg (fun declared => if name.kind = "identifier" then declared else _) hnamed
    case h_3 | h_4 =>
      rw [hp.field?_erase (by decide), namedParameter_erase,
        hp.map_field?_erase (by decide) fun c => by rw [meaning_erase]]
    all_goals rfl

/-- What is read from the entries of a list in a field. -/
theorem entries_erase (hp : p.Clear drop) (hlists : holdsLists p.info) {name : String}
    (hname : name ∈ listFields) {β : Type} {f : List Part → List β}
    (hsame : ∀ c : Part, c.Clear drop → f (c.named.map (erase drop)) = f c.named) :
    (((p.erase drop).field? name).map fun c => f c.named) = (p.field? name).map fun c => f c.named := by
  have hne : name ≠ "" := by
    rintro rfl
    simp [listFields] at hname
  rw [hp.field?_erase hne, Option.map_map]
  cases hc : p.field? name with
  | none => rfl
  | some c =>
    have hnamed := (hp.keepsNamed_field hlists hc hname).named_erase
    simpa [hnamed] using hsame c (hp.of_field hc)

/-- Trivia do not change the parameters of a function. -/
theorem parameters_erase (hp : p.Clear drop) (hlists : holdsLists p.info) :
    (((p.erase drop).field? "parameters").map fun ps => ps.named.filterMap parameter?) =
      (p.field? "parameters").map fun ps => ps.named.filterMap parameter? := by
  refine hp.entries_erase hlists (by decide) (f := fun ps => ps.filterMap parameter?) fun c hc => ?_
  rw [List.filterMap_map]
  exact List.filterMap_congr fun d hd => (hc.of_named hd).parameter?_erase

/-- Trivia do not change the arguments of a class. -/
theorem arguments_erase (hp : p.Clear drop) (hlists : holdsLists p.info) :
    (((p.erase drop).field? "superclasses").map fun as => as.named.map classArgument) =
      (p.field? "superclasses").map fun as => as.named.map classArgument := by
  refine hp.entries_erase hlists (by decide) (f := fun as => as.map classArgument) fun c hc => ?_
  rw [List.map_map]
  exact List.map_congr_left fun d hd => classArgument_erase d (hc.of_named hd)

/-- Trivia do not change a function definition. -/
theorem functionStmt_erase (hp : p.Clear drop) (hlists : holdsLists p.info) :
    (p.erase drop).functionStmt = p.functionStmt := by
  simp only [Part.functionStmt, hp.field?_erase (show "name" ≠ "" by decide), info_erase,
    location_erase, typeParameters?_erase hp, hp.hintField?_erase (show "return_type" ≠ "" by decide),
    hp.parameters_erase hlists, hp.bodyField_erase hlists (show "body" ∈ listFields by decide)]
  cases p.field? "name" <;> simp

/-- Trivia do not change a class definition. -/
theorem classStmt_erase (hp : p.Clear drop) (hlists : holdsLists p.info) :
    (p.erase drop).classStmt = p.classStmt := by
  simp only [Part.classStmt, hp.field?_erase (show "name" ≠ "" by decide), info_erase,
    location_erase, typeParameters?_erase hp, hp.arguments_erase hlists,
    hp.bodyField_erase hlists (show "body" ∈ listFields by decide)]
  cases p.field? "name" <;> simp

/-- Trivia do not change the decorators. -/
theorem decorators_erase (hp : p.Clear drop) : (p.erase drop).decorators = p.decorators := by
  rw [Part.decorators, hp.filter_named_erase (by decide), List.filterMap_map, Part.decorators]
  refine List.filterMap_congr fun c hc => ?_
  obtain ⟨hc, hkind⟩ := List.mem_filter.1 hc
  have hkind : c.kind = "decorator" := of_decide_eq_true hkind
  have hhead := (hp.of_named hc).head?_named_erase (by rw [hkind]; decide)
  simp [hhead, Function.comp_def]

/-- Trivia do not change a decorated definition. -/
theorem decoratedStmt_erase (hp : p.Clear drop) :
    (p.erase drop).decoratedStmt = p.decoratedStmt := by
  simp only [Part.decoratedStmt, hp.decorators_erase, hp.field?_erase (show "definition" ≠ "" by decide)]
  cases p.field? "definition" <;> simp

end Clear

/-! ### Imports -/

namespace Clear

/-- Trivia do not change an import under another name. -/
theorem aliasedBinding?_erase (hp : p.Clear drop) (source : Option String) :
    aliasedBinding? source (p.erase drop) = aliasedBinding? source p := by
  simp only [aliasedBinding?, hp.field?_erase (show "name" ≠ "" by decide),
    hp.field?_erase (show "alias" ≠ "" by decide)]
  cases p.field? "name" <;> cases p.field? "alias" <;> simp

/-- Trivia do not change an import. -/
theorem importBinding?_erase (hp : p.Clear drop) :
    (p.erase drop).importBinding? = p.importBinding? := by
  simp only [Part.importBinding?, kind_erase, text_erase, hp.aliasedBinding?_erase]

/-- Trivia do not change a name that is imported from a module. -/
theorem fromBinding?_erase (hp : p.Clear drop) (source : Option String) :
    fromBinding? source (p.erase drop) = fromBinding? source p := by
  simp only [fromBinding?, kind_erase, text_erase, hp.aliasedBinding?_erase]

/-- Trivia do not change the names that are imported. -/
theorem names_erase (hp : p.Clear drop) {f : Part → Option ImportBinding}
    (hsame : ∀ c, c.Clear drop → f (c.erase drop) = f c) :
    ((p.erase drop).fields "name").filterMap f = (p.fields "name").filterMap f := by
  rw [hp.fields_erase (by decide), List.filterMap_map]
  exact List.filterMap_congr fun c hc => hsame c (hp.child (mem_children_of_fields hc))

/-- The star of an import is no trivia. -/
theorem any_isWildcard_erase (hp : p.Clear drop) :
    (p.erase drop).children.any isWildcard = p.children.any isWildcard := by
  have hwildcard : isWildcard ∘ erase drop = isWildcard := by
    funext c
    simp [isWildcard]
  -- A wildcard is no trivia, so it is not dropped.
  have hkept : ∀ c ∈ p.children, c.isWildcard → ¬drop c.info := by
    intro c hc hstar hdrop
    have hkind : c.info.kind = "wildcard_import" :=
      of_decide_eq_true (Bool.and_eq_true_iff.1 hstar).2
    rcases NodeInfo.kind_of_isTrivia (hp.isTrivia hc hdrop).1 with htrivia | htrivia
    all_goals simp [hkind] at htrivia
  rw [children_erase, List.any_map, hwildcard, Bool.eq_iff_iff, List.any_eq_true, List.any_eq_true]
  constructor
  · exact fun ⟨c, hc, hstar⟩ => ⟨c, (List.mem_filter.1 hc).1, hstar⟩
  · exact fun ⟨c, hc, hstar⟩ =>
      ⟨c, List.mem_filter.2 ⟨hc, by simpa using hkept c hc hstar⟩, hstar⟩

/-- Trivia do not change an `import` statement. -/
theorem importStmt_erase (hp : p.Clear drop) : (p.erase drop).importStmt = p.importStmt := by
  rw [Part.importStmt, hp.names_erase fun _ hc => hc.importBinding?_erase, Part.importStmt]

/-- Trivia do not change a `from` statement. -/
theorem importFromStmt_erase (hp : p.Clear drop) :
    (p.erase drop).importFromStmt = p.importFromStmt := by
  have hsource : ((p.erase drop).field? "module_name").map text =
      (p.field? "module_name").map text := hp.map_field?_erase (by decide) (text_erase drop)
  simp only [Part.importFromStmt, hp.any_isWildcard_erase, location_erase, hsource,
    hp.names_erase fun _ hc => hc.fromBinding?_erase _]

/-! ### Compound statements -/

/-- Trivia do not change what is read of a field. -/
theorem readField_erase (hp : p.Clear drop) {name : String} (hname : name ≠ "") :
    (p.erase drop).readField name = p.readField name := by
  rw [Part.readField, hp.exprField_erase hname, Part.readField]

/-- A branch is known by the field it fills, whatever its kind. -/
theorem alternative_erase (hp : p.Clear drop) (hfield : p.info.field = "alternative") :
    (p.erase drop).alternative = p.alternative := by
  have hlists : holdsLists p.info := by simp [holdsLists, hfield]
  simp only [Part.alternative, kind_erase, hp.readField_erase (show "condition" ≠ "" by decide),
    hp.bodyField_erase hlists (show "consequence" ∈ listFields by decide),
    hp.bodyField_erase hlists (show "body" ∈ listFields by decide)]

/-- Trivia do not change the alternatives. -/
theorem alternatives_erase (hp : p.Clear drop) :
    ((p.erase drop).fields "alternative").map Part.alternative =
      (p.fields "alternative").map Part.alternative := by
  rw [hp.fields_erase (by decide), List.map_map]
  refine List.map_congr_left fun c hc => ?_
  have hfield : c.info.field = "alternative" := of_decide_eq_true (List.mem_filter.1 hc).2
  exact (hp.child (mem_children_of_fields hc)).alternative_erase hfield

/-- Trivia do not change the code behind a loop. -/
theorem loopElse_erase (hp : p.Clear drop) : (p.erase drop).loopElse = p.loopElse := by
  rw [Part.loopElse, hp.field?_erase (by decide), Part.loopElse]
  cases hc : p.field? "alternative" with
  | none => rfl
  | some c =>
    have hfield : c.info.field = "alternative" := by simpa using List.find?_some hc
    have hbody : (c.erase drop).bodyField "body" = c.bodyField "body" :=
      (hp.of_field hc).bodyField_erase (by simp [holdsLists, hfield]) (by decide)
    simpa using hbody

/-- Trivia do not change the target of an alias. -/
theorem aliasTarget?_erase (hp : p.Clear drop) : (p.erase drop).aliasTarget? = p.aliasTarget? := by
  rw [Part.aliasTarget?, hp.field?_erase (by decide), Part.aliasTarget?]
  cases ha : p.field? "alias" with
  | none => rfl
  | some a =>
    simp only [Option.map_some, Option.bind_some, kind_erase, meaning_erase]
    split
    · next hkind =>
      exact (hp.of_field ha).map_head?_named_erase (by rw [hkind]; decide) fun c => by
        rw [meaning_erase]
    · rfl

/-- Trivia do not change what an `except` clause binds. -/
theorem caughtAs_erase (hp : p.Clear drop) (hkind : p.kind = "as_pattern") :
    (p.erase drop).caughtAs = p.caughtAs := by
  have hhead := hp.head?_parts_erase (by rw [hkind]; decide)
  simp only [Part.caughtAs, hp.aliasTarget?_erase]
  -- Only the first of the parts is read.
  cases hparts : p.parts <;> cases herased : (p.erase drop).parts <;>
    simp_all

/-- Trivia do not change the code of a part. -/
theorem body_erase (hp : p.Clear drop) (hkind : p.kind ∈ allReadKinds) :
    (p.erase drop).body = p.body := (hp.keepsNamed hkind).body_erase

/-- Trivia do not change an `except` clause. -/
theorem exceptStmt?_erase (hp : p.Clear drop) : (p.erase drop).exceptStmt? = p.exceptStmt? := by
  simp only [Part.exceptStmt?, kind_erase]
  split
  case h_1 => rw [hp.body_erase (by rw [‹p.kind = _›]; decide)]
  case h_2 => rw [hp.caughtAs_erase ‹_›]
  case h_3 => rfl

end Clear

/-- Trivia do not change the clauses of a `try` statement. -/
theorem exceptBody_erase {ps : List Part} (hps : ∀ c ∈ ps, c.Clear drop)
    (pending : Option (Expr × List Stmt)) :
    exceptBody pending (ps.map (erase drop)) = exceptBody pending ps := by
  induction ps generalizing pending with
  | nil => rfl
  | cons c rest ih =>
    have hc := (hps c List.mem_cons_self).exceptStmt?_erase
    have ih := ih fun d hd => hps d (List.mem_cons_of_mem c hd)
    rw [List.map_cons]
    cases hstmt : c.exceptStmt? <;> rcases pending with _ | ⟨value, between⟩ <;>
      simp only [exceptBody, hc, hstmt, meaning_erase, ih]

namespace Clear

/-- Trivia do not change the blocks. -/
theorem blocks_erase (hp : p.Clear drop) :
    (((p.erase drop).named.filter fun c => c.kind = "block").map fun b => Stmt.block b.body) =
      (p.named.filter fun c => c.kind = "block").map fun b => Stmt.block b.body := by
  rw [hp.filter_named_erase (by decide), List.map_map]
  refine List.map_congr_left fun c hc => ?_
  obtain ⟨hc, hkind⟩ := List.mem_filter.1 hc
  have hkind : c.kind = "block" := of_decide_eq_true hkind
  exact congrArg Stmt.block ((hp.of_named hc).body_erase (by rw [hkind]; decide))

/-- Trivia do not change a clause of a `try` statement. -/
theorem tryClause_erase (hp : p.Clear drop) : (p.erase drop).tryClause = p.tryClause := by
  simp only [Part.tryClause, kind_erase]
  -- Each kind of clause reads other children, all of which are left.
  split
  case h_1 => rw [hp.body_erase (by rw [‹p.kind = _›]; decide)]
  case h_2 | h_3 =>
    rw [(hp.keepsNamed (by rw [‹p.kind = _›]; decide)).named_erase,
      exceptBody_erase fun c hc => hp.of_named hc]
  case h_4 =>
    have hlists : holdsLists p.info := by
      have hkind : p.info.kind = "else_clause" := ‹p.kind = _›
      simp [holdsLists, listHolderKinds, hkind]
    rw [hp.bodyField_erase hlists (by decide)]
  case h_5 => rw [hp.blocks_erase]
  case h_6 => rfl

/-- Trivia do not change an item of a `with` statement. -/
theorem withItem_erase (hp : p.Clear drop) : (p.erase drop).withItem = p.withItem := by
  rw [Part.withItem, hp.field?_erase (by decide), Part.withItem]
  cases hv : p.field? "value" with
  | none => rfl
  | some v =>
    simp only [Option.map_some, kind_erase, meaning_erase]
    split
    · next hkind =>
      have hhead := (hp.of_field hv).head?_parts_erase (by rw [hkind]; decide)
      rw [List.take_one, List.take_one, hhead, (hp.of_field hv).aliasTarget?_erase]
    · rfl

/-- Trivia do not change the items of a `with` statement. -/
theorem withItems_erase (hp : p.Clear drop) : (p.erase drop).withItems = p.withItems := by
  rw [Part.withItems, hp.filter_named_erase (by decide), List.flatMap_map, Part.withItems]
  refine List.flatMap_congr fun c hc => ?_
  have hc := hp.of_named (List.mem_filter.1 hc).1
  refine flatMap_named_erase (fun d hd => (hc.of_named hd).withItem_erase) fun d hd hdrop => ?_
  -- A leaf has no value.
  have hleaf := (hc.isTrivia (mem_children_of_named hd) hdrop).2
  simp [Part.withItem, Part.field?, hleaf]

/-! ### Statements -/

/-- Trivia do not change what is made of the named children. -/
theorem map_named_erase {β : Type} {f : Part → β} (hp : p.Clear drop) (hkind : p.kind ∈ allReadKinds)
    (hsame : ∀ c ∈ p.named, f (c.erase drop) = f c) : (p.erase drop).named.map f = p.named.map f := by
  rw [(hp.keepsNamed hkind).named_erase, List.map_map]
  exact List.map_congr_left hsame

/-- Trivia do not change the statement of a part. -/
theorem toStmt_erase (hp : p.Clear drop) : (p.erase drop).toStmt = p.toStmt := by
  simp only [Part.toStmt, kind_erase, location_erase]
  split
  -- Simple statements, definitions and imports.
  case h_1 =>
    rw [hp.map_named_erase (by rw [‹p.kind = _›]; decide) fun c hc => (hp.of_named hc).toItem_erase]
  case h_2 => rw [hp.functionStmt_erase (holdsLists_of_kind (by rw [‹p.kind = _›]; decide))]
  case h_3 => rw [hp.classStmt_erase (holdsLists_of_kind (by rw [‹p.kind = _›]; decide))]
  case h_4 => rw [hp.decoratedStmt_erase]
  case h_5 => rw [hp.importStmt_erase]
  case h_6 => rw [hp.importFromStmt_erase]
  case h_11 => rw [hp.head?_parts_erase (by rw [‹p.kind = _›]; decide)]
  -- The blocks of compound statements are lists in fields.
  case h_12 =>
    have hlists := holdsLists_of_kind (p := p) (by rw [‹p.kind = _›]; decide)
    rw [hp.readField_erase (by decide), hp.bodyField_erase hlists (by decide), hp.alternatives_erase]
  case h_13 =>
    have hlists := holdsLists_of_kind (p := p) (by rw [‹p.kind = _›]; decide)
    rw [hp.readField_erase (by decide), hp.bodyField_erase hlists (by decide), hp.loopElse_erase]
  case h_14 =>
    have hlists := holdsLists_of_kind (p := p) (by rw [‹p.kind = _›]; decide)
    rw [hp.readField_erase (by decide), hp.bodyField_erase hlists (by decide), hp.loopElse_erase,
      hp.map_field?_erase (by decide) fun c => by rw [meaning_erase]]
  case h_15 =>
    rw [hp.map_named_erase (by rw [‹p.kind = _›]; decide) fun c hc =>
      (hp.of_named hc).tryClause_erase]
  case h_16 =>
    have hlists := holdsLists_of_kind (p := p) (by rw [‹p.kind = _›]; decide)
    rw [hp.withItems_erase, hp.bodyField_erase hlists (by decide)]
  -- Where all children are read, none of them is trivia.
  case h_17 | h_18 | h_19 => rw [hp.parts_erase (by rw [‹p.kind = _›]; decide)]
  case h_20 | h_21 =>
    rw [hp.map_named_erase (by rw [‹p.kind = _›]; decide) fun c _ => text_erase drop c]
  all_goals rfl

end Clear

/-! ### Reading a tree -/

section

variable {source : SourceText}

/-- The roles of a node are read off it before it has a meaning. -/
theorem ofChildren_eraseIn {info : NodeInfo} {children : List Part}
    (h : ∀ t ∈ (Node.mk info (nodes children)).subtrees, t.PassesOver drop) :
    ofChildren source info (eraseIn drop children) = (ofChildren source info children).erase drop := by
  let p : Part := .mk info (ofChildren source info children).word default children
  have hp : p.Clear drop := h
  -- A part is composed of what its children mean, so it is enough that each of its meanings stays.
  have hroles : ofChildren source info (eraseIn drop children) = .mk info p.word
      { expr := (p.erase drop).toExpr
        target := (p.erase drop).toTarget
        augmented := (p.erase drop).toAugmented
        interpolations := (p.erase drop).interpolations
        literalType := (p.erase drop).literalType?
        typeForm := (p.erase drop).toTypeForm
        hintReads := (p.erase drop).toHintReads
        isNone := (p.erase drop).toIsNone
        sequence := (p.erase drop).toSequence
        assignment := (p.erase drop).toAssignment
        stmt := (p.erase drop).toStmt } (eraseIn drop children) := rfl
  rw [hroles, hp.toExpr_erase, hp.toTarget_erase, hp.toAugmented_erase, hp.interpolations_erase,
    hp.literalType?_erase, hp.toTypeForm_erase, hp.toHintReads_erase, hp.toIsNone_erase,
    hp.toSequence_erase, hp.toAssignment_erase, hp.toStmt_erase]
  rfl

mutual

/-- A tree that passes over what is picked is read alike with and without it. -/
theorem ofNode_erase : ∀ n : Node, (∀ t ∈ n.subtrees, t.PassesOver drop) →
    ofNode source (n.erase drop) = (ofNode source n).erase drop
  | .mk info children, h => by
    rw [Node.erase, ofNode, ofNode,
      ofNodes_eraseIn children fun t ht => h t (List.mem_cons_of_mem _ ht)]
    exact ofChildren_eraseIn (by rwa [nodes_ofNodes])

/-- The parts of a list without trivia are the parts without trivia. -/
theorem ofNodes_eraseIn : ∀ ns : List Node, (∀ t ∈ Node.subtreesOf ns, t.PassesOver drop) →
    ofNodes source (Node.eraseIn drop ns) = eraseIn drop (ofNodes source ns)
  | [], _ => rfl
  | n :: rest, h => by
    have hrest := ofNodes_eraseIn rest fun t ht => h t (List.mem_append_right _ ht)
    rw [Node.eraseIn, ofNodes, eraseIn, info_ofNode]
    by_cases hdrop : drop n.info
    · rw [if_pos hdrop, if_pos hdrop, hrest]
    · rw [if_neg hdrop, if_neg hdrop, ofNodes, hrest,
        ofNode_erase n fun t ht => h t (List.mem_append_left _ ht)]

end

end

end Part

/-- A tree that passes over what is picked is the same module without it, if the statements of the
file are kept. -/
theorem Module.ofTree_erase {drop : NodeInfo → Bool} (source : SourceText) {tree : Node}
    (h : ∀ t ∈ tree.subtrees, t.PassesOver drop) (hroot : tree.KeepsListed drop) :
    Module.ofTree source (tree.erase drop) = Module.ofTree source tree := by
  have hbroken : (tree.erase drop).syntaxErrors = tree.syntaxErrors :=
    Node.syntaxErrors_erase tree fun t ht => (h t ht).trivia
  have hbody : (Part.ofNode source (tree.erase drop)).body = (Part.ofNode source tree).body := by
    rw [Part.ofNode_erase tree h]
    exact (Part.keepsNamed_iff.2 (by rwa [Part.node_ofNode])).body_erase
  have hlocation : (Part.ofNode source (tree.erase drop)).location =
      (Part.ofNode source tree).location := by
    rw [Part.ofNode_erase tree h, Part.location_erase]
  rw [Module.ofTree, Module.ofTree, hbroken, hbody, hlocation]

/-- True for comments. -/
def isComment (i : NodeInfo) : Bool := i.kind = "comment"

/-- No place among the children counts comments. -/
theorem keepsListed_comments (n : Node) : n.KeepsListed isComment := by
  intro c hc hcomment
  have hlisted : c.kind ≠ "comment" := by
    simpa using (Bool.and_eq_true_iff.1 (List.mem_filter.1 hc).2).2
  exact hlisted (of_decide_eq_true hcomment)

/-- Every node passes over comments, wherever they stand. -/
theorem passesOver_comments {n : Node}
    (h : ∀ c ∈ n.children, isComment c.info → c.isTrivia) : n.PassesOver isComment where
  trivia := h
  all _ := keepsListed_comments n
  first _ c hc :=
    keepsListed_comments n c (List.mem_of_mem_head? (Option.mem_toList.1 hc))
  lists _ c _ _ := keepsListed_comments c

end Python

end NameAtlas
