import NameAtlas.Proofs.Reading.Broken

/-!
# Broken code means nothing to the statements around it

The second half of what `Broken` shows of the roles of a node: its definitions, imports and compound
statements. So every part of a tree means the same as the mended part if the sound trees in it pass
over their broken children (`Part.all_mends`), and a file is read into a module that is walked over
like the module of the mended tree (`Module.alike_mend`).
-/

namespace NameAtlas

namespace Python

open Source

namespace Part

variable {p c : Part}

namespace MendsBelow

variable (hp : p.MendsBelow)

include hp

/-! ### Items and blocks -/

/-- Mending a part gives the same item. -/
theorem toItem_same (hsame : p.SameAsMended) : p.toItem.Same p.mend.toItem := by
  simp only [Part.toItem, kind_mend]
  split
  case h_1 hkind => exact .assign (hsame.assignment hkind)
  case h_2 =>
    have htarget := hp.rel_field (show "left" ≠ "" by decide) (Target.SameAugmented.refl .absent)
      fun c hc => (hp.field (by decide) hc).2.augmented
    exact .augment htarget (hp.exprField (by decide))
  case h_3 => exact .read hsame.expr

/-- Mending an expression statement gives the same items. -/
theorem items_same (hkind : p.kind = "expression_statement") :
    SameItems (p.named.map toItem) (p.mend.named.map toItem) := by
  have hplace : p.kind ∈ allReadKinds := by rw [hkind]; decide
  rw [named_mend]
  refine .of_sifted (sifted_mend (fun c hc hbroken => ?_) fun c hc hkept => ?_)
  · have herror := hp.isError hplace hc hbroken
    simp [Part.toItem, herror, (hp.composed (mem_children_of_named hc)).expr_of_error herror]
  · obtain ⟨hbelow, hsame⟩ := hp.named hc hkept
    exact hbelow.toItem_same hsame

omit hp in
/-- Among statements none of which is missing, code that cannot be placed is an empty block. -/
theorem statements_same {f : Part → Stmt} (hkeeps : p.node.KeepsMissing)
    (herror : ∀ c ∈ p.named, c.kind = "ERROR" → f c = .block [])
    (hsame : ∀ c ∈ p.named, ¬c.info.isBroken → Alike [f c] [f c.mend]) :
    Alike (p.named.map f) (p.mend.named.map f) := by
  rw [named_mend]
  exact .of_sifted (sifted_mend
    (fun c hc hbroken => herror c hc (kind_of_keepsMissing hkeeps hc hbroken)) hsame)

/-- Mending a part whose broken children are missing gives the same block. -/
theorem body_same (hkeeps : p.node.KeepsMissing) : Alike p.body p.mend.body :=
  statements_same hkeeps
    (fun _ hc hkind => (hp.composed (mem_children_of_named hc)).stmt_of_error hkind)
    fun _ hc hkept => (hp.named hc hkept).2.stmt

/-- Mending a block gives the same statement. -/
theorem block_same (hkind : p.kind = "block") : Alike [.block p.body] [.block p.mend.body] :=
  .block (hp.body_same (hp.passes.all (by rw [kind_node, hkind]; decide))) .nil

/-- The block in a field has only missing nodes among its broken children. -/
theorem keepsMissing_field (hlists : holdsLists p.info) {name : String}
    (hc : p.field? name = some c) (hname : name ∈ bodyFields) : c.node.KeepsMissing := by
  have hfield : c.info.field = name := by simpa using List.find?_some hc
  exact hp.passes.lists (by rwa [info_node]) c.node (mem_node (mem_children_of_field? hc))
    (by rwa [field_node, hfield])

/-- Mending gives the same block in a field. -/
theorem bodyField_same (hlists : holdsLists p.info) {name : String} (hname : name ∈ bodyFields) :
    Alike (p.bodyField name) (p.mend.bodyField name) := by
  have hne : name ≠ "" := by
    rintro rfl
    simp [bodyFields] at hname
  exact hp.rel_field hne .nil fun c hc =>
    (hp.field hne hc).1.body_same (hp.keepsMissing_field hlists hc hname)

omit hp in
/-- Statements that are alike one by one. -/
theorem alike_map {l : List Part} {f : Part → Stmt} (h : ∀ c ∈ l, Alike [f c] [f c.mend]) :
    Alike (l.map f) ((l.map mend).map f) := by
  induction l with
  | nil => exact .nil
  | cons c rest ih =>
    exact .cons (h c List.mem_cons_self) (ih fun d hd => h d (List.mem_cons_of_mem c hd))

/-! ### Definitions -/

omit hp in
/-- Mending gives the same parameter for the same name, hint and default. -/
theorem namedParameter_same (name : Option Part) {hint hint' : Option TypeHint}
    {default default' : Option Expr} (hhint : SameHint hint hint')
    (hdefault : SameReads default.toList default'.toList) :
    Option.Rel Parameter.Same (p.namedParameter name hint default)
      (p.mend.namedParameter (name.map mend) hint' default') := by
  simp only [Part.namedParameter, info_mend, kind_mend, text_mend, location_mend, Option.filter_map,
    Function.comp_def]
  -- A name that is missing or no identifier is not taken, and the parameter is reported.
  cases name.filter fun n => n.kind = "identifier" && !n.info.missing with
  | some n =>
    rw [Option.map_some]
    dsimp only
    rw [word_mend]
    exact .some (.named n.word hhint hdefault)
  | none =>
    rw [Option.map_none]
    dsimp only
    split
    · exact .none
    · exact .some (.unsupported _ _ _)

/-- Mending gives the same parameter. -/
theorem parameter?_same : Option.Rel Parameter.Same p.parameter? p.mend.parameter? := by
  simp only [Part.parameter?, info_mend, kind_mend, text_mend, location_mend]
  split
  · exact .none
  -- What has no name is reported, unless it is marked.
  have hreport (shape : String) : Option.Rel Parameter.Same
      (if p.info.malformed then none
        else some (.unsupported shape (Text.snippet p.text) p.location))
      (if p.info.malformed then none
        else some (.unsupported shape (Text.snippet p.text) p.location)) := by
    split
    · exact .none
    · exact .some (.unsupported _ _ _)
  split
  case h_1 => exact namedParameter_same (some p) (.refl none) (.refl [])
  case h_2 hkind =>
    rw [hp.head?_named (by rw [hkind]; decide)]
    cases p.named.head? with
    | none => exact hreport _
    | some name =>
      simp only [Option.map_some, kind_mend]
      split
      · exact namedParameter_same (some name) (hp.hintField?_same (by decide)) (.refl [])
      · exact hreport _
  case h_3 | h_4 =>
    rw [hp.field?_mend (show "name" ≠ "" by decide), hp.field?_mend (show "value" ≠ "" by decide)]
    refine namedParameter_same _ (hp.hintField?_same (by decide)) ?_
    cases hc : p.field? "value" with
    | none => exact .refl []
    | some c => exact .singleton (hp.field (by decide) hc).2.expr
  case h_5 | h_6 => exact .none
  case h_7 => exact hreport _

/-- Broken parameters declare nothing. -/
theorem parameters_same :
    List.Forall₂ Parameter.Same (p.named.filterMap parameter?)
      (p.mend.named.filterMap parameter?) := by
  -- The induction is on the children; broken ones declare no parameter and are left out.
  have hkept : ∀ c ∈ p.named, ¬c.info.isBroken → c.MendsBelow := fun c hc h => (hp.named hc h).1
  rw [named_mend]
  generalize p.named = cs at hkept
  induction cs with
  | nil => exact .nil
  | cons c rest ih =>
    have ih := ih fun d hd => hkept d (List.mem_cons_of_mem c hd)
    by_cases hbroken : c.info.isBroken
    · have hnone : c.parameter? = none := if_pos hbroken
      rw [List.filter_cons_of_neg (by simpa using hbroken), List.filterMap_cons_none hnone]
      exact ih
    · have hc := (hkept c List.mem_cons_self hbroken).parameter?_same
      rw [List.filter_cons_of_pos (by simpa using hbroken), List.map_cons, List.filterMap_cons,
        List.filterMap_cons]
      generalize c.parameter? = declared, c.mend.parameter? = declared' at hc
      cases hc with
      | none => exact ih
      | some hc => exact .cons hc ih

omit hp in
/-- Mending leaves the type parameters. -/
theorem typeParameters?_mend (hp : p.MendsBelow) : p.mend.typeParameters? = p.typeParameters? := by
  rw [Part.typeParameters?, hp.field?_mend (by decide), Option.map_map, Part.typeParameters?]
  simp [Function.comp_def]

/-- Mending gives the same function. -/
theorem functionStmt_same (hlists : holdsLists p.info) :
    Alike [p.functionStmt] [p.mend.functionStmt] := by
  simp only [Part.functionStmt]
  rw [hp.field?_mend (show "name" ≠ "" by decide)]
  cases p.field? "name" with
  | none => exact .block .nil .nil
  | some name =>
    refine .function ⟨?_, hp.hintField?_same (by decide), ?_⟩
      (hp.bodyField_same hlists (by decide)) .nil
    · simp [typeParameters?_mend hp]
    · exact hp.rel_field (by decide) .nil fun c hc => (hp.field (by decide) hc).1.parameters_same

/-- Mending gives the same thing that is given to a class. -/
theorem classArgument_same (hsame : p.SameAsMended) :
    p.classArgument.Same p.mend.classArgument := by
  simp only [Part.classArgument, kind_mend]
  split
  · exact .keyword (hp.exprField (by decide))
  · exact .base hsame.expr

/-- Mending gives the same class. -/
theorem classStmt_same (hlists : holdsLists p.info) : Alike [p.classStmt] [p.mend.classStmt] := by
  simp only [Part.classStmt]
  rw [hp.field?_mend (show "name" ≠ "" by decide)]
  cases p.field? "name" with
  | none => exact .block .nil .nil
  | some name =>
    refine .class ⟨?_, ?_⟩ (hp.bodyField_same hlists (by decide)) .nil
    · simp [typeParameters?_mend hp]
    · refine hp.rel_field (by decide) .nil fun c hc => ?_
      have hkeeps := hp.keepsMissing_field hlists hc (by decide)
      have hbelow := (hp.field (by decide) hc).1
      rw [named_mend]
      -- A broken argument is an error node and names nothing.
      refine sifted_mend (fun d hd hbroken => ?_) fun d hd hkept => ?_
      · have herror := kind_of_keepsMissing hkeeps hd hbroken
        simp [Part.classArgument, herror,
          (hbelow.composed (mem_children_of_named hd)).expr_of_error herror]
      · obtain ⟨hd, hsame⟩ := hbelow.named hd hkept
        exact hd.classArgument_same hsame

/-- Decorators with texts that are equal and expressions that are the same. -/
theorem decorators_same (hkind : p.kind = "decorated_definition") :
    List.Forall₂ (fun d d' : String × Expr => d'.1 = d.1 ∧ d.2.Same d'.2) p.decorators
      p.mend.decorators := by
  -- Decorators are read by their kind, so none of them is broken.
  have hread : (p.kind, "decorator") ∈ readKinds := by rw [hkind]; decide
  rw [Part.decorators, Part.decorators, hp.filter_named_mend hread]
  have hbelow : ∀ c ∈ p.named.filter (fun c => c.kind = "decorator"),
      c.MendsBelow ∧ c.kind = "decorator" := fun c hc => hp.of_mem_filter hread hc
  generalize p.named.filter (fun c => c.kind = "decorator") = cs at hbelow
  induction cs with
  | nil => exact .nil
  | cons c rest ih =>
    have ih := ih fun d hd => hbelow d (List.mem_cons_of_mem c hd)
    obtain ⟨hc, hdecorator⟩ := hbelow c List.mem_cons_self
    have hhead : c.kind ∈ headReadKinds := by rw [hdecorator]; decide
    rw [List.map_cons, List.filterMap_cons, List.filterMap_cons, hc.head?_named hhead]
    cases he : c.named.head? with
    | none => exact ih
    | some e => exact .cons ⟨text_mend e, (hc.head hhead he).2.expr⟩ ih

omit hp in
/-- Statements that are alike stay alike if they are made static. -/
theorem markStatic_same {s s' : Stmt} (h : Alike [s] [s']) :
    Alike [markStatic s] [markStatic s'] := by
  cases h with
  | skip h => cases h
  | leaf hs h =>
    cases s with
    | function => cases hs
    | _ => exact .leaf hs h
  | function hheader hbody h =>
    refine .function ⟨?_, hheader.returns, hheader.parameters⟩ hbody h
    rw [hheader.rest]
  | _ => constructor <;> assumption

/-- Mending gives the same decorated definition. -/
theorem decoratedStmt_same (hkind : p.kind = "decorated_definition") :
    Alike [p.decoratedStmt] [p.mend.decoratedStmt] := by
  have hdecorators := hp.decorators_same hkind
  simp only [Part.decoratedStmt]
  generalize p.decorators = ds, p.mend.decorators = ds' at hdecorators
  have hitems : Sifted (· = Item.read .absent) Item.Same (ds.map fun d => .read d.2)
      (ds'.map fun d => .read d.2) := by
    induction hdecorators with
    | nil => exact .nil
    | cons hd _ ih => exact .cons (.read hd.2) ih
  have hstatic : (ds'.any fun d => isStaticDecorator d.1) =
      ds.any fun d => isStaticDecorator d.1 := by
    clear hitems
    induction hdecorators with
    | nil => rfl
    | cons hd _ ih => rw [List.any_cons, List.any_cons, hd.1, ih]
  -- The decorators agree in their texts, so the same definitions are made static.
  refine .block (.simple (.of_sifted hitems) ?_) .nil
  rw [hp.field?_mend (by decide), hstatic]
  cases hd : p.field? "definition" with
  | none => exact .nil
  | some d =>
    have hstmt := (hp.field (by decide) hd).2.stmt
    simp only [Option.map_some]
    split
    · exact markStatic_same hstmt
    · exact hstmt

/-! ### Imports -/

/-- Mending leaves a name that is imported under an alias. -/
theorem aliasedBinding?_mend (source : Option String) :
    aliasedBinding? source p.mend = aliasedBinding? source p := by
  simp only [aliasedBinding?, hp.field?_mend (show "name" ≠ "" by decide),
    hp.field?_mend (show "alias" ≠ "" by decide)]
  cases p.field? "name" <;> cases p.field? "alias" <;> simp

/-- Mending leaves a name that is imported. -/
theorem importBinding?_mend : p.mend.importBinding? = p.importBinding? := by
  simp only [Part.importBinding?, kind_mend, text_mend, hp.aliasedBinding?_mend]

/-- Mending leaves a name that is imported from a module. -/
theorem fromBinding?_mend (source : Option String) :
    fromBinding? source p.mend = fromBinding? source p := by
  simp only [fromBinding?, kind_mend, text_mend, hp.aliasedBinding?_mend]

/-- Mending leaves whatever is read of the names, if it is the same for each. -/
theorem names_mend {f : Part → Option ImportBinding}
    (hsame : ∀ c : Part, c.MendsBelow → f c.mend = f c) :
    (p.mend.fields "name").filterMap f = (p.fields "name").filterMap f := by
  rw [hp.fields_mend (by decide), List.filterMap_map]
  refine List.filterMap_congr fun c hc => hsame c ?_
  obtain ⟨hc, hfield⟩ := List.mem_filter.1 hc
  have hfield : c.info.field = "name" := of_decide_eq_true hfield
  exact (hp.child hc (hp.kept_of_field hc (by rw [hfield]; decide))).1

/-- The star of an import is not broken. -/
theorem any_isWildcard_mend (hkind : p.kind = "import_from_statement") :
    p.mend.children.any isWildcard = p.children.any isWildcard := by
  have hwildcard : isWildcard ∘ mend = isWildcard := by
    funext c
    simp [isWildcard]
  -- A wildcard is read by its kind, so it is not broken.
  have hkept : ∀ c ∈ p.children, c.isWildcard → ¬c.info.isBroken := by
    intro c hc hstar hbroken
    have hstar : c.kind = "wildcard_import" :=
      of_decide_eq_true (Bool.and_eq_true_iff.1 hstar).2
    exact hp.kept_of_kind hc (by rw [hkind, hstar]; decide) hbroken
  rw [children_mend, List.any_map, hwildcard, Bool.eq_iff_iff, List.any_eq_true, List.any_eq_true]
  constructor
  · exact fun ⟨c, hc, hstar⟩ => ⟨c, (List.mem_filter.1 hc).1, hstar⟩
  · exact fun ⟨c, hc, hstar⟩ =>
      ⟨c, List.mem_filter.2 ⟨hc, by simpa using hkept c hc hstar⟩, hstar⟩

/-- Mending leaves an `import` statement. -/
theorem importStmt_mend : p.mend.importStmt = p.importStmt := by
  rw [Part.importStmt, hp.names_mend fun _ hc => hc.importBinding?_mend, Part.importStmt]

/-- Mending leaves a `from` statement. -/
theorem importFromStmt_mend (hkind : p.kind = "import_from_statement") :
    p.mend.importFromStmt = p.importFromStmt := by
  have hsource : (p.mend.field? "module_name").map text = (p.field? "module_name").map text := by
    rw [hp.field?_mend (by decide), Option.map_map]
    simp [Function.comp_def]
  simp only [Part.importFromStmt, hp.any_isWildcard_mend hkind, location_mend, hsource,
    hp.names_mend fun _ hc => hc.fromBinding?_mend _]

/-! ### Compound statements -/

/-- What is read in a field may be mended in front of blocks that are alike. -/
theorem readField_same {name : String} (hname : name ≠ "") {b b' : List Stmt} (h : Alike b b') :
    Alike (p.readField name :: b) (p.mend.readField name :: b') :=
  .simple (.of_sifted (.cons (.read (hp.exprField hname)) .nil)) h

/-- A branch is known by the field it fills, whatever its kind. -/
theorem alternative_same (hfield : p.info.field = "alternative") :
    Alike [p.alternative] [p.mend.alternative] := by
  have hlists : holdsLists p.info := by simp [holdsLists, hfield]
  simp only [Part.alternative, kind_mend]
  split
  · exact .block (hp.readField_same (by decide) (hp.bodyField_same hlists (by decide))) .nil
  · exact .block (hp.bodyField_same hlists (by decide)) .nil

/-- Mending gives the same alternatives. -/
theorem alternatives_same :
    Alike ((p.fields "alternative").map alternative)
      ((p.mend.fields "alternative").map alternative) := by
  rw [hp.fields_mend (by decide)]
  refine alike_map fun c hc => ?_
  obtain ⟨hc, hfield⟩ := List.mem_filter.1 hc
  have hfield : c.info.field = "alternative" := of_decide_eq_true hfield
  exact (hp.child hc (hp.kept_of_field hc (by rw [hfield]; decide))).1.alternative_same hfield

/-- Mending gives the same code behind a loop. -/
theorem loopElse_same : Alike p.loopElse p.mend.loopElse :=
  hp.rel_field (by decide) .nil fun c hc => by
    have hfield : c.info.field = "alternative" := by simpa using List.find?_some hc
    exact (hp.field (by decide) hc).1.bodyField_same (by simp [holdsLists, hfield]) (by decide)

/-- Mending gives the same target of an alias. -/
theorem aliasTarget?_same : Option.Rel Target.Same p.aliasTarget? p.mend.aliasTarget? := by
  simp only [Part.aliasTarget?]
  rw [hp.field?_mend (by decide)]
  cases ha : p.field? "alias" with
  | none => exact .none
  | some a =>
    obtain ⟨hbelow, hsame⟩ := hp.field (by decide) ha
    simp only [Option.map_some, Option.bind_some, kind_mend]
    split
    · next hkind =>
      -- An alias in a pattern is the first named child of the node around it.
      have hhead : a.kind ∈ headReadKinds := by rw [hkind]; decide
      rw [hbelow.head?_named hhead]
      cases hc : a.named.head? with
      | none => exact .none
      | some c => exact .some (hbelow.head hhead hc).2.target
    · exact .some hsame.target

omit hp in
/-- A target that is bound if it is there. -/
theorem sifted_bind {t t' : Option Target} (h : Option.Rel Target.Same t t') :
    Sifted (· = Item.read .absent) Item.Same (t.toList.map .bind) (t'.toList.map .bind) := by
  cases h with
  | none => exact .nil
  | some h => exact .cons (.bind h) .nil

/-- The first part is there with and without the broken ones. -/
theorem head?_parts (hkind : p.kind ∈ headReadKinds) :
    Option.Rel Expr.Same p.parts.head? p.mend.parts.head? := by
  rw [Part.parts, List.head?_map, Part.parts, List.head?_map, hp.head?_named hkind]
  cases hc : p.named.head? with
  | none => exact .none
  | some c => exact .some (hp.head hkind hc).2.expr

/-- Mending gives the same statement for what is caught. -/
theorem caughtAs_same (hkind : p.kind = "as_pattern") : Alike [p.caughtAs] [p.mend.caughtAs] := by
  have hhead := hp.head?_parts (by rw [hkind]; decide)
  simp only [Part.caughtAs]
  -- Only the first of the parts is read.
  generalize p.parts = es, p.mend.parts = es' at hhead
  rcases es with _ | ⟨e, es⟩ <;> rcases es' with _ | ⟨e', es'⟩
  · exact .simple (.of_sifted (sifted_bind hp.aliasTarget?_same)) .nil
  · cases hhead
  · cases hhead
  · cases hhead with
    | some he => exact .caught he .nil hp.aliasTarget?_same .nil

/-- Mending gives the same part of an `except` clause. -/
theorem exceptStmt?_same :
    Option.Rel (fun s s' => Alike [s] [s']) p.exceptStmt? p.mend.exceptStmt? := by
  simp only [Part.exceptStmt?, kind_mend]
  split
  case h_1 hkind => exact .some (hp.block_same hkind)
  case h_2 hkind => exact .some (hp.caughtAs_same hkind)
  case h_3 => exact .none

omit hp in
/-- The statements of an `except` clause of which no child is broken. -/
theorem exceptBody_same {ps : List Part} (hps : ∀ c ∈ ps, c.MendsBelow ∧ c.SameAsMended)
    {pending pending' : Option (Expr × List Stmt)}
    (hpending : Option.Rel (fun x x' => x.1.Same x'.1 ∧ Alike x.2 x'.2) pending pending') :
    Alike (exceptBody pending ps) (exceptBody pending' (ps.map mend)) := by
  -- The induction is on the parts that are left, for any exceptions that wait and are alike.
  induction ps generalizing pending pending' with
  | nil =>
    cases hpending with
    | none => exact .nil
    | some h => exact .caught h.1 h.2 .none .nil
  | cons c rest ih =>
    obtain ⟨hbelow, hsame⟩ := hps c List.mem_cons_self
    have ih {pending pending'} :=
      @ih (fun d hd => hps d (List.mem_cons_of_mem c hd)) pending pending'
    have hstmt := hbelow.exceptStmt?_same
    rw [List.map_cons]
    cases hpending with
    | none =>
      simp only [exceptBody]
      generalize c.exceptStmt? = s, c.mend.exceptStmt? = s' at hstmt
      cases hstmt with
      | none => exact ih (.some ⟨hsame.expr, .nil⟩)
      | some hs => exact .cons hs (ih .none)
    | some h =>
      simp only [exceptBody]
      generalize c.exceptStmt? = s, c.mend.exceptStmt? = s' at hstmt
      cases hstmt with
      | none => exact .caught h.1 h.2 (.some hsame.target) (ih .none)
      | some hs => exact ih (.some ⟨h.1, h.2.append hs⟩)

/-- The blocks of a `finally` clause. -/
theorem blocks_same (hkind : p.kind = "finally_clause") :
    Alike ((p.named.filter fun c => c.kind = "block").map fun b => .block b.body)
      ((p.mend.named.filter fun c => c.kind = "block").map fun b => .block b.body) := by
  have hread : (p.kind, "block") ∈ readKinds := by rw [hkind]; decide
  rw [hp.filter_named_mend hread]
  refine alike_map fun c hc => ?_
  obtain ⟨hbelow, hblock⟩ := hp.of_mem_filter hread hc
  exact hbelow.block_same hblock

/-- Mending gives the same clause of a `try` statement. -/
theorem tryClause_same : Alike [p.tryClause] [p.mend.tryClause] := by
  simp only [Part.tryClause, kind_mend]
  split
  case h_1 hkind => exact hp.block_same hkind
  case h_2 hkind | h_3 hkind =>
    -- No named child of a clause for exceptions is broken, so mending drops none.
    have hkeeps := hp.keepsNamed (by rw [hkind]; decide)
    rw [hkeeps.named_mend]
    exact .block (exceptBody_same (fun c hc => hp.named hc (hkeeps c hc)) .none) .nil
  case h_4 hkind =>
    have hlists : holdsLists p.info := by
      have hkind : p.info.kind = "else_clause" := hkind
      simp [holdsLists, listHolderKinds, hkind]
    exact .block (hp.bodyField_same hlists (by decide)) .nil
  case h_5 hkind => exact .block (hp.blocks_same hkind) .nil
  case h_6 => exact .block .nil .nil

/-- Mending drops nothing from an item of a `with` statement but what reads nothing. -/
theorem withItem_sifted : Sifted (· = Item.read .absent) Item.Same p.withItem p.mend.withItem := by
  simp only [Part.withItem]
  rw [hp.field?_mend (by decide)]
  cases hv : p.field? "value" with
  | none => exact .nil
  | some v =>
    obtain ⟨hbelow, hsame⟩ := hp.field (by decide) hv
    simp only [Option.map_some, kind_mend]
    split
    · next hkind =>
      have hhead := hbelow.head?_parts (by rw [hkind]; decide)
      -- What is matched is read and the alias is bound; mending keeps both.
      refine .append ?_ (sifted_bind hbelow.aliasTarget?_same)
      rw [List.take_one, List.take_one]
      generalize v.parts.head? = e, v.mend.parts.head? = e' at hhead
      cases hhead with
      | none => exact .nil
      | some he => exact .cons (.read he) .nil
    · exact .cons (.read hsame.expr) .nil

/-- The items of a clause; what is broken has no value. -/
theorem clause_sifted : Sifted (· = Item.read .absent) Item.Same (p.named.flatMap withItem)
    (p.mend.named.flatMap withItem) := by
  rw [named_mend]
  refine sifted_flatMap (fun c hc hbroken => ?_) fun c hc hkept =>
    (hp.named hc hkept).1.withItem_sifted
  -- Nothing below a broken node is in a field, so it has no value.
  have hvalue : c.field? "value" = none := by
    rw [Part.field?, List.find?_eq_none]
    intro d hd hfield
    have hfield : d.info.field = "value" := of_decide_eq_true hfield
    have hsealed := hp.passes.sealed c.node (mem_node (mem_children_of_named hc))
      (by rwa [info_node]) d.node (mem_node hd)
    rw [field_node, hfield] at hsealed
    exact absurd hsealed (by decide)
  rw [Part.withItem, hvalue]
  exact .nil

/-- Mending drops nothing from the items of a `with` statement but what reads nothing. -/
theorem withItems_sifted (hkind : p.kind = "with_statement") :
    Sifted (· = Item.read .absent) Item.Same p.withItems p.mend.withItems := by
  have hread : (p.kind, "with_clause") ∈ readKinds := by rw [hkind]; decide
  rw [Part.withItems, Part.withItems, hp.filter_named_mend hread, List.flatMap_map]
  have hbelow : ∀ c ∈ p.named.filter (fun c => c.kind = "with_clause"), c.MendsBelow :=
    fun c hc => (hp.of_mem_filter hread hc).1
  generalize p.named.filter (fun c => c.kind = "with_clause") = cs at hbelow
  induction cs with
  | nil => exact .nil
  | cons c rest ih =>
    exact (hbelow c List.mem_cons_self).clause_sifted.append
      (ih fun d hd => hbelow d (List.mem_cons_of_mem c hd))

/-! ### Statements -/

/-- Mending gives the same statement. -/
theorem toStmt_same : Alike [p.toStmt] [p.mend.toStmt] := by
  simp only [Part.toStmt, kind_mend, location_mend]
  split
  -- Simple statements, definitions and imports.
  case h_1 hkind => exact .simple (hp.items_same hkind) .nil
  case h_2 hkind => exact hp.functionStmt_same (holdsLists_of_kind (by rw [hkind]; decide))
  case h_3 hkind => exact hp.classStmt_same (holdsLists_of_kind (by rw [hkind]; decide))
  case h_4 hkind => exact hp.decoratedStmt_same hkind
  case h_5 =>
    rw [hp.importStmt_mend]
    exact .leaf rfl .nil
  case h_6 hkind =>
    rw [hp.importFromStmt_mend hkind]
    exact .leaf rfl .nil
  case h_7 | h_8 | h_9 | h_10 => exact .block .nil .nil
  case h_11 hkind =>
    have hhead := hp.head?_parts (by rw [hkind]; decide)
    generalize p.parts.head? = e, p.mend.parts.head? = e' at hhead
    cases hhead with
    | none => exact .leaf rfl .nil
    | some he => exact .returns he .nil
  -- The blocks of compound statements are lists in fields.
  case h_12 hkind =>
    have hlists := holdsLists_of_kind (p := p) (by rw [hkind]; decide)
    exact .block (hp.readField_same (by decide)
      (.block (hp.bodyField_same hlists (by decide)) hp.alternatives_same)) .nil
  case h_13 hkind =>
    have hlists := holdsLists_of_kind (p := p) (by rw [hkind]; decide)
    exact .block (hp.readField_same (by decide)
      (.block (hp.bodyField_same hlists (by decide)) (.block hp.loopElse_same .nil))) .nil
  case h_14 hkind =>
    have hlists := holdsLists_of_kind (p := p) (by rw [hkind]; decide)
    have htarget : SameItems (((p.field? "left").map fun c => Item.bind c.meaning.target).toList)
        (((p.mend.field? "left").map fun c => Item.bind c.meaning.target).toList) := by
      rw [hp.field?_mend (by decide)]
      cases hc : p.field? "left" with
      | none => exact .of_sifted .nil
      | some c => exact .of_sifted (.cons (.bind (hp.field (by decide) hc).2.target) .nil)
    exact .block (hp.readField_same (by decide) (.simple htarget
      (.block (hp.bodyField_same hlists (by decide)) (.block hp.loopElse_same .nil)))) .nil
  case h_15 hkind =>
    refine .block (statements_same (hp.passes.all (by rw [kind_node, hkind]; decide)) ?_ ?_) .nil
    · exact fun c _ herror => by simp [Part.tryClause, herror]
    · exact fun c hc hkept => (hp.named hc hkept).1.tryClause_same
  case h_16 hkind =>
    have hlists := holdsLists_of_kind (p := p) (by rw [hkind]; decide)
    exact .block (.simple (.of_sifted (hp.withItems_sifted hkind))
      (.block (hp.bodyField_same hlists (by decide)) .nil)) .nil
  case h_17 hkind | h_18 hkind | h_19 hkind =>
    have hparts := hp.sifted_exprs (by rw [hkind]; decide) (List.Subset.refl p.named)
    rw [← named_mend] at hparts
    exact .simple (.of_sifted (hparts.map (fun _ habsent => congrArg Item.read habsent) .read)) .nil
  -- Names are counted.
  case h_20 hkind | h_21 hkind =>
    rw [(hp.keepsNamed (by rw [hkind]; decide)).named_mend, List.map_map]
    simpa [Function.comp_def] using Alike.leaf rfl .nil
  case h_22 => exact .block .nil .nil
  case h_23 => exact .leaf rfl .nil

/-- What follows from the children is the same in the mended part. -/
theorem sameAsMended (h : p.Composed) : p.SameAsMended := by
  -- A part is composed of what its children mean, so each meaning is compared on its own.
  have hmended := composed_mend p
  constructor <;> rw [h.meaning, hmended.meaning]
  case expr => exact hp.toExpr_same
  case target => exact hp.toTarget_same
  case augmented => exact hp.toAugmented_same
  case interpolations =>
    exact fun hkind => hp.sifted_interpolations (.inl hkind)
  case literalType => exact hp.literalType?_mend
  case typeForm => exact hp.toTypeForm_mend
  case hintReads => exact hp.toHintReads_same
  case isNone => exact hp.toIsNone_mend
  case sequence => exact hp.toSequence_same
  case assignment => exact hp.toAssignment_same
  case stmt => exact hp.toStmt_same

end MendsBelow

/-! ### Reading a tree -/

/-- Every part of a tree means the same as the mended part if it is sound. -/
theorem all_mends (source : SourceText) (tree : Node) : (ofNode source tree).All Mends := by
  refine all_ofNode (fun info children hchildren => ?_) tree
  have hcomposed : (ofChildren source info children).Composed := rfl
  exact ⟨hcomposed, fun hsound => MendsBelow.sameAsMended ⟨hsound, hchildren⟩ hcomposed⟩

end Part

/-- A file is read into a module like that of the mended tree, if the broken nodes at its top are
code that cannot be placed. -/
theorem Module.alike_mend (source : SourceText) {tree : Node}
    (h : ∀ t ∈ tree.sound, t.PassesBroken) (hroot : tree.KeepsMissing) :
    Module.Alike (Module.ofTree source tree) (Module.ofTree source tree.mend) := by
  have hroot' : (Part.ofNode source tree).node.KeepsMissing := by rwa [Part.node_ofNode]
  have hbelow : (Part.ofNode source tree).MendsBelow := by
    refine ⟨?_, fun c hc => (Part.all_mends source tree).child hc⟩
    rwa [Part.Sound, Part.node_ofNode]
  refine ⟨?_, ?_⟩
  · simp [Module.ofTree, Part.ofNode_mend]
  · simpa [Module.ofTree, Part.ofNode_mend] using hbelow.body_same hroot'

end Python

end NameAtlas
