import NameAtlas.Proofs.Reading.Words
import NameAtlas.Proofs.Walk.Passes

/-!
# The definitions of a module

Each class and function of a module opens one scope, which is known from the code: the site where
it is defined, its node, its name and its span (`Opening`). What a walk does fits to these openings
(`Module.fits_program`): what it opens is one of them, and begins where the opening stands. Most
operations open nothing; for those that read and assign, `PlainAll` says also which words they refer
to.
-/

namespace NameAtlas.Python

/-- A scope as the code of a module defines it. -/
structure Opening where
  /-- Where the definition stands. -/
  site : Site
  /-- The node of the definition. -/
  node : Nat
  /-- What is defined. -/
  kind : ScopeKind
  /-- The name that it gets. -/
  name : String
  /-- The bytes of the definition. -/
  span : Span
  deriving DecidableEq, Repr, Inhabited

/-- The scope of a function that is defined at a site. -/
def FunctionHeader.opening (s : Site) (h : FunctionHeader) : Opening :=
  ⟨s, h.node, .function, h.word.text, h.span⟩

/-- The scope of a class that is defined at a site. -/
def ClassHeader.opening (s : Site) (h : ClassHeader) : Opening :=
  ⟨s, h.node, .class, h.word.text, h.span⟩

mutual

/-- The scopes that a statement at a site defines, those inside other ones included. -/
def Stmt.openings (s : Site) : Stmt → List Opening
  | .function header body => header.opening s :: openingsOf (.body header.node) body
  | .class header body => header.opening s :: openingsOf (.body header.node) body
  | .block body | .caught _ body _ => openingsOf s body
  | _ => []

/-- The scopes that some statements define. -/
def openingsOf (s : Site) : List Stmt → List Opening
  | [] => []
  | st :: rest => st.openings s ++ openingsOf s rest

end

/-- The scopes that the code of a module defines. -/
def Module.openings (m : Module) : List Opening := openingsOf .module m.body

mutual

/-- The nodes of the scopes that a statement defines are those of its definitions. -/
theorem Stmt.map_openings (s : Site) :
    ∀ st : Stmt, (st.openings s).map Opening.node = st.definitions
  | .function header body | .class header body =>
    congrArg (header.node :: ·) (map_openingsOf (.body header.node) body)
  | .block body | .caught _ body _ => map_openingsOf s body
  | .simple _ | .imports _ _ | .returns _ | .globals _ | .nonlocals _ | .unsupported _ _ => rfl

/-- The nodes of the scopes are those of the definitions. -/
theorem map_openingsOf (s : Site) :
    ∀ body : List Stmt, (openingsOf s body).map Opening.node = definitionsOf body
  | [] => rfl
  | st :: rest => by
    rw [openingsOf, definitionsOf, List.map_append, Stmt.map_openings s st, map_openingsOf s rest]

end

/-- If no two definitions have one node, a scope is known by its node. -/
theorem Module.opening_eq {m : Module} (hm : (definitionsOf m.body).Nodup) {o o' : Opening}
    (ho : o ∈ m.openings) (ho' : o' ∈ m.openings) (h : o.node = o'.node) : o = o' :=
  List.inj_on_of_nodup_map (by rwa [Module.openings, map_openingsOf]) ho ho' h

mutual

/-- The scopes that the body of a function in a statement defines are among those of the
statement. -/
theorem Stmt.openings_of_mem_allFunctions {f : FunctionBody} :
    ∀ (st : Stmt) (s : Site), f ∈ st.allFunctions → openingsOf f.site f.body ⊆ st.openings s
  | .function header body, s, h => by
    rcases List.mem_cons.1 h with rfl | h
    · exact List.subset_cons_self _ _
    · exact fun o ho => List.mem_cons_of_mem _
        (openingsOf_of_mem_allFunctionsOf body (.body header.node) h ho)
  | .class header body, s, h => fun o ho =>
    List.mem_cons_of_mem _ (openingsOf_of_mem_allFunctionsOf body (.body header.node) h ho)
  | .block body, s, h | .caught _ body _, s, h => openingsOf_of_mem_allFunctionsOf body s h
  | .simple _, _, h | .imports _ _, _, h | .returns _, _, h | .globals _, _, h
  | .nonlocals _, _, h | .unsupported _ _, _, h => nomatch h

/-- The scopes that a function in some statements defines are among those of the statements. -/
theorem openingsOf_of_mem_allFunctionsOf {f : FunctionBody} :
    ∀ (body : List Stmt) (s : Site), f ∈ allFunctionsOf body →
      openingsOf f.site f.body ⊆ openingsOf s body
  | [], _, h => nomatch h
  | st :: rest, s, h => by
    rcases List.mem_append.1 h with h | h
    · exact fun o ho => List.mem_append_left _ (Stmt.openings_of_mem_allFunctions st s h ho)
    · exact fun o ho => List.mem_append_right _ (openingsOf_of_mem_allFunctionsOf rest s h ho)

end

/-! ### Plain operations -/

/-- The word that an operation refers to. -/
def Op.word? : Op → Option Word
  | .readName word | .readMember word | .assignMember word | .keepMember word => some word
  | _ => none

/-- True for operations that define no class or function, declare no name `global` or `nonlocal` and
neither begin nor end a body. -/
def Op.isPlain : Op → Bool
  | .place .. | .enterFunction _ | .enterClass _ | .declareGlobal _ | .declareNonlocal _
  | .beginBody | .endBody => false
  | _ => true

/-- True if some operations are plain and refer to nothing but some words. -/
def PlainAll (words : List Word) (ops : List Op) : Prop :=
  ∀ op ∈ ops, op.isPlain ∧ ∀ w, op.word? = some w → w ∈ words

namespace PlainAll

variable {words words' : List Word} {ops ops' : List Op}

/-- No operations are plain. -/
theorem nil : PlainAll words [] := fun _ h => nomatch h

/-- An operation that refers to nothing. -/
theorem silent {op : Op} (h : op.isPlain) (hword : op.word? = none) : PlainAll words [op] :=
  List.forall_mem_singleton.2 ⟨h, fun w hw => by rw [hword] at hw; cases hw⟩

/-- An operation that refers to a word. -/
theorem word {op : Op} {w : Word} (h : op.isPlain) (hword : op.word? = some w) :
    PlainAll [w] [op] :=
  List.forall_mem_singleton.2 ⟨h, fun w' hw => by
    rw [hword] at hw
    exact List.mem_singleton.2 (Option.some.inj hw).symm⟩

/-- Two lists of plain operations are plain. -/
theorem append (h : PlainAll words ops) (h' : PlainAll words ops') : PlainAll words (ops ++ ops') :=
  List.forall_mem_append.2 ⟨h, h'⟩

/-- Operations one after the other refer to the words of both. -/
theorem append_words (h : PlainAll words ops) (h' : PlainAll words' ops') :
    PlainAll (words ++ words') (ops ++ ops') :=
  append (fun op hop => ⟨(h op hop).1, fun w hw => List.mem_append_left _ ((h op hop).2 w hw)⟩)
    fun op hop => ⟨(h' op hop).1, fun w hw => List.mem_append_right _ ((h' op hop).2 w hw)⟩

/-- The operations of some things are plain if those of each are. -/
theorem flatMap {α : Type} {l : List α} {g : α → List Op} {v : α → List Word}
    (h : ∀ a ∈ l, PlainAll (v a) (g a)) : PlainAll (l.flatMap v) (l.flatMap g) := by
  induction l with
  | nil => exact nil
  | cons a rest ih =>
    rw [List.flatMap_cons, List.flatMap_cons]
    exact append_words (h a List.mem_cons_self) (ih fun a' ha' => h a' (List.mem_cons_of_mem a ha'))

end PlainAll

mutual

/-- The operations of an expression are plain. -/
theorem Expr.plain_ops : ∀ e : Expr, PlainAll e.words e.ops
  | .name _ => .word rfl rfl
  | .attribute object _ => .append_words object.plain_ops (.word rfl rfl)
  | .call callee _ arguments =>
    .append (.append_words callee.plain_ops (plain_partsOps arguments))
      (.append (.silent rfl rfl) (.silent rfl rfl))
  | .compound parts _ => .append (plain_partsOps parts) (.silent rfl rfl)
  | .walrus value _ => .append value.plain_ops (.append (.silent rfl rfl) (.silent rfl rfl))
  | .unsupported _ _ => .append (.silent rfl rfl) (.silent rfl rfl)

/-- Evaluating expressions refers to the words in them. -/
theorem plain_partsOps : ∀ es : List Expr, PlainAll (wordsOf es) (partsOps es)
  | [] => .silent rfl rfl
  | e :: rest =>
    .append (.append_words (.append e.plain_ops (.silent rfl rfl)) (plain_partsOps rest))
      (.silent rfl rfl)

end

/-- The operations of an expression that is read are plain. -/
theorem Expr.plain_readOps (e : Expr) : PlainAll e.words e.readOps :=
  .append e.plain_ops (.silent rfl rfl)

/-- The operations of a hint are plain. -/
theorem plain_hintOps (hint : Option TypeHint) : PlainAll (hintWords hint) (hintOps hint) := by
  rcases hint with _ | ⟨form, reads⟩ | _
  · exact .silent rfl rfl
  · exact .append (.append (.silent rfl rfl) (plain_partsOps reads)) (.silent rfl rfl)
  · exact .append (.silent rfl rfl) (.silent rfl rfl)

mutual

/-- The operations of a target are plain. -/
theorem Target.plain_assignOps : ∀ t : Target, PlainAll t.words t.assignOps
  | .name _ => .silent rfl rfl
  | .attribute object _ => .append_words object.plain_ops (.word rfl rfl)
  | .element read => read.plain_readOps
  | .pattern targets =>
    .append (.append (.silent rfl rfl) (plain_assignEachOps targets)) (.silent rfl rfl)
  | .unsupported _ _ => .silent rfl rfl

/-- The operations of some targets are plain. -/
theorem plain_assignEachOps : ∀ ts : List Target, PlainAll (targetWords ts) (assignEachOps ts)
  | [] => .nil
  | t :: rest => .append_words t.plain_assignOps (plain_assignEachOps rest)

end

/-- The operations of a target with an operator are plain. -/
theorem Target.plain_augmentOps : ∀ t : Target, PlainAll t.words t.augmentOps
  | .name _ => .append (.word rfl rfl) (.append (.silent rfl rfl) (.silent rfl rfl))
  | .attribute object _ => .append_words object.plain_ops (.word rfl rfl)
  | .element read => read.plain_readOps
  | .pattern _ => .nil
  | .unsupported _ _ => .silent rfl rfl

/-- The operations of pairs are plain. -/
theorem plain_pairsOps : ∀ pairs : List (Target × Expr), PlainAll (pairWords pairs) (pairsOps pairs)
  | [] => .nil
  | (target, value) :: rest =>
    .append_words (.append (.append_words value.plain_ops target.plain_assignOps) (.silent rfl rfl))
      (plain_pairsOps rest)

/-- The operations of an assignment are plain. -/
theorem Assignment.plain_ops : ∀ a : Assignment, PlainAll a.words a.ops
  | .plain hint target value =>
    .append_words (.append (.append_words (plain_hintOps hint) value.plain_ops) (.silent rfl rfl))
      target.plain_assignOps
  | .unpack hint pairs =>
    .append (.append_words (.append (plain_hintOps hint) (.silent rfl rfl)) (plain_pairsOps pairs))
      (.silent rfl rfl)
  | .chained hint target value =>
    .append_words (.append (.append_words (plain_hintOps hint) value.plain_ops) (.silent rfl rfl))
      target.plain_assignOps

/-- The operations of an item are plain. -/
theorem Item.plain_ops : ∀ item : Item, PlainAll item.words item.ops
  | .read value => value.plain_readOps
  | .assign assignment => .append assignment.plain_ops (.silent rfl rfl)
  | .augment target value => .append_words value.plain_readOps target.plain_augmentOps
  | .bind target => .append (.append (.silent rfl rfl) target.plain_assignOps) (.silent rfl rfl)

/-- The operations of type parameters are plain, whatever the words. -/
theorem plain_typeParameterOps (location : Option Location) (words : List Word) :
    PlainAll words (typeParameterOps location) := by
  cases location
  · exact .nil
  · exact .silent rfl rfl

/-- The operations of a default are plain. -/
theorem plain_defaultOps (default : Option Expr) :
    PlainAll (defaultWords default) (defaultOps default) := by
  cases default with
  | none => exact .nil
  | some e => exact e.plain_readOps

/-- The operations of a parameter are plain. -/
theorem Parameter.plain_ops : ∀ p : Parameter, PlainAll p.words p.ops
  | .named _ hint default =>
    .append (.append_words (plain_hintOps hint) (plain_defaultOps default)) (.silent rfl rfl)
  | .unsupported _ _ _ => .silent rfl rfl

/-- The operations of what a class is given are plain. -/
theorem ClassArgument.plain_ops : ∀ a : ClassArgument, PlainAll a.words a.ops
  | .keyword value => value.plain_readOps
  | .base value => .append value.plain_ops (.silent rfl rfl)

/-- The operations around what is caught are plain. -/
theorem plain_caughtOps (value : Expr) (target : Option Target) :
    PlainAll (caughtWords value target) (value.ops ++ [.instantiate]) ∧
      PlainAll (caughtWords value target) (caughtOps target ++ [.discard]) := by
  cases target with
  | none => exact ⟨.append value.plain_ops (.silent rfl rfl), .silent rfl rfl⟩
  | some target =>
    refine ⟨.append ?_ (.silent rfl rfl), .append ?_ (.silent rfl rfl)⟩
    · exact fun op hop => ⟨(value.plain_ops op hop).1, fun w hw =>
        List.mem_append_left _ ((value.plain_ops op hop).2 w hw)⟩
    · exact fun op hop => ⟨(target.plain_assignOps op hop).1, fun w hw =>
        List.mem_append_right _ ((target.plain_assignOps op hop).2 w hw)⟩

/-- The operations of imports are plain. -/
theorem plain_imports (wildcard : Option Location) (bindings : List ImportBinding) :
    PlainAll [] (wildcardOps wildcard ++ bindings.map .bindImport) := by
  refine .append ?_ fun op hop => ?_
  · cases wildcard
    · exact .nil
    · exact .silent rfl rfl
  · obtain ⟨b, -, rfl⟩ := List.mem_map.1 hop
    exact ⟨rfl, fun w hw => nomatch hw⟩

/-! ### What a walk opens and declares -/

/-- True if what an action opens is one of some scopes, defined at the site of the action, and if it
declares names `global` or `nonlocal`, and begins and ends bodies, only where that is allowed. -/
def Action.Fits (S : List Opening) (declares bodies : Bool) (a : Action) : Prop :=
  match a.op with
  | .place node word => ∃ o ∈ S, o.site = a.site ∧ o.node = node ∧ o.name = word.text
  | .enterFunction f => f.header.opening a.site ∈ S
  | .enterClass h => h.opening a.site ∈ S
  | .declareGlobal _ | .declareNonlocal _ => declares
  | .beginBody | .endBody => bodies
  | _ => True

section Fits

variable {S : List Opening} {declares bodies : Bool}

/-- Plain operations fit any definitions. -/
theorem fits_of_plain {s : Site} {v : List Word} {ops : List Op} (h : PlainAll v ops) :
    ∀ a ∈ s.actions ops, a.Fits S declares bodies := by
  intro a ha
  obtain ⟨op, hop, rfl⟩ := List.mem_map.1 ha
  have hplain := (h op hop).1
  cases op <;> simp_all [Op.isPlain, Action.Fits]

/-- The definition of a function fits if its scope is among those defined. -/
theorem fits_defineOps {s : Site} {f : FunctionBody} (h : f.header.opening s ∈ S) :
    ∀ a ∈ s.actions f.defineOps, a.Fits S declares bodies := by
  have hhints : ∀ a ∈ s.actions (typeParameterOps f.header.typeParameters ++
      hintOps f.header.returns), a.Fits S declares bodies :=
    fits_of_plain (.append_words (plain_typeParameterOps _ []) (plain_hintOps _))
  have hparameters : ∀ a ∈ s.actions (f.header.parameters.flatMap Parameter.ops ++
      [.leaveFunction]), a.Fits S declares bodies :=
    fits_of_plain (.append (.flatMap fun p _ => p.plain_ops) (.silent rfl rfl))
  have hplace : (⟨s, .place f.header.node f.header.word⟩ : Action).Fits S declares bodies :=
    ⟨_, h, rfl, rfl, rfl⟩
  rw [f.actions_defineOps]
  exact List.forall_mem_append.2 ⟨List.forall_mem_cons.2 ⟨hplace, hhints⟩,
    List.forall_mem_cons.2 ⟨h, hparameters⟩⟩

/-- The head of a class fits if its scope is among those defined. -/
theorem fits_classHead {s : Site} {h : ClassHeader} (hopening : h.opening s ∈ S) :
    ∀ a ∈ h.code s, a.Fits S declares bodies := by
  have harguments : ∀ a ∈ Site.actions (.body h.node)
      (h.arguments.flatMap ClassArgument.ops ++ [.setBases]), a.Fits S declares bodies :=
    fits_of_plain (.append (.flatMap fun a _ => a.plain_ops) (.silent rfl rfl))
  have hplace : (⟨s, .place h.node h.word⟩ : Action).Fits S declares bodies :=
    ⟨_, hopening, rfl, rfl, rfl⟩
  rw [h.code_eq]
  exact List.forall_mem_append.2
    ⟨List.forall_mem_cons.2 ⟨hplace, fits_of_plain (plain_typeParameterOps h.typeParameters [])⟩,
      List.forall_mem_cons.2 ⟨hopening, harguments⟩⟩

mutual

/-- The code of a statement fits the scopes that it defines. -/
theorem fits_code :
    ∀ (st : Stmt) (s : Site), st.openings s ⊆ S → (st.declaresScope → declares) →
      ∀ a ∈ st.code s, a.Fits S declares bodies
  | .simple items, s, _, _ => fits_of_plain (.flatMap fun item _ => item.plain_ops)
  | .block body, s, hS, hd => fits_codeOf body s hS hd
  | .caught value between target, s, hS, hd =>
    List.forall_mem_append.2 ⟨List.forall_mem_append.2
      ⟨fits_of_plain (plain_caughtOps value target).1, fits_codeOf between s hS hd⟩,
      fits_of_plain (plain_caughtOps value target).2⟩
  | .function header body, s, hS, _ => fits_defineOps (hS List.mem_cons_self)
  | .class header body, s, hS, hd =>
    List.forall_mem_append.2 ⟨List.forall_mem_append.2
      ⟨fits_classHead (hS List.mem_cons_self),
        fits_codeOf body (.body header.node) (fun o ho => hS (List.mem_cons_of_mem _ ho)) hd⟩,
      fits_of_plain (v := []) (.silent rfl rfl)⟩
  | .imports wildcard bindings, s, _, _ => fits_of_plain (plain_imports wildcard bindings)
  | .returns (some value), s, _, _ => fits_of_plain (.append value.plain_ops (.silent rfl rfl))
  | .returns none, s, _, _ =>
    fits_of_plain (v := []) (.append (.silent rfl rfl) (.silent rfl rfl))
  -- A scope of names is declared, and the statement says so.
  | .globals names, s, _, hd | .nonlocals names, s, _, hd => by
    intro a ha
    obtain ⟨op, hop, rfl⟩ := List.mem_map.1 ha
    obtain ⟨name, -, rfl⟩ := List.mem_map.1 hop
    exact hd rfl
  | .unsupported _ _, s, _, _ => fits_of_plain (v := []) (.silent rfl rfl)

/-- The code of a block fits the scopes that it defines. -/
theorem fits_codeOf :
    ∀ (body : List Stmt) (s : Site), openingsOf s body ⊆ S → (declaresScopeIn body → declares) →
      ∀ a ∈ codeOf s body, a.Fits S declares bodies
  | [], _, _, _ => fun _ h => nomatch h
  | st :: rest, s, hS, hd =>
    List.forall_mem_append.2
      ⟨fits_code st s (fun o ho => hS (List.mem_append_left _ ho))
        fun h => hd (by rw [declaresScopeIn, h, Bool.true_or]),
      fits_codeOf rest s (fun o ho => hS (List.mem_append_right _ ho))
        fun h => hd (by rw [declaresScopeIn, h, Bool.or_true])⟩

end

end Fits

mutual

/-- A statement declares scopes of names if a function in it does. -/
theorem Stmt.declaresScope_of_mem_allFunctions {f : FunctionBody} (hf : declaresScopeIn f.body) :
    ∀ st : Stmt, f ∈ st.allFunctions → st.declaresScope
  | .function header body, h => by
    rcases List.mem_cons.1 h with rfl | h
    · exact hf
    · exact declaresScopeIn_of_mem_allFunctionsOf hf body h
  | .class _ body, h | .block body, h | .caught _ body _, h =>
    declaresScopeIn_of_mem_allFunctionsOf hf body h
  | .simple _, h | .imports _ _, h | .returns _, h | .globals _, h | .nonlocals _, h
  | .unsupported _ _, h => nomatch h

/-- What a function declares `global` or `nonlocal` is declared in the code around it. -/
theorem declaresScopeIn_of_mem_allFunctionsOf {f : FunctionBody} (hf : declaresScopeIn f.body) :
    ∀ body : List Stmt, f ∈ allFunctionsOf body → declaresScopeIn body
  | [], h => nomatch h
  | st :: rest, h => by
    rw [declaresScopeIn, Bool.or_eq_true]
    exact (List.mem_append.1 h).imp (Stmt.declaresScope_of_mem_allFunctions hf st)
      (declaresScopeIn_of_mem_allFunctionsOf hf rest)

end

/-- A walk over a module opens the scopes that the code defines, each where it is defined, and
declares names `global` or `nonlocal` only if the code does. -/
theorem Module.fits_program (m : Module) :
    ∀ a ∈ m.program, a.Fits m.openings (declaresScopeIn m.body) true := by
  -- The code of the module fits, and so does that of each function in it.
  refine List.forall_mem_append.2 ⟨fits_codeOf m.body .module (List.Subset.refl _) id, ?_⟩
  intro a ha
  obtain ⟨f, hf, ha⟩ := List.mem_flatMap.1 ha
  have hf := mem_allFunctions_of_reaches (reaches_of_mem_bodies hf)
  have hbody : ∀ a ∈ codeOf f.site f.body, a.Fits m.openings (declaresScopeIn m.body) true :=
    fits_codeOf f.body f.site (openingsOf_of_mem_allFunctionsOf m.body .module hf)
      fun h => declaresScopeIn_of_mem_allFunctionsOf h m.body hf
  rcases List.mem_append.1 ha with ha | ha
  · rcases List.mem_append.1 ha with ha | ha
    · obtain rfl := List.mem_singleton.1 ha
      rfl
    · exact hbody a ha
  · obtain rfl := List.mem_singleton.1 ha
    rfl

end NameAtlas.Python
