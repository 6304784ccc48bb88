import NameAtlas.Proofs.Walk.Operations

/-!
# Code that is walked over alike

Two pieces of syntax are the same to a walk if reading one does what reading the other does, in
every scope and from every state. Parts without effect make no difference: an expression that is not
there between others, a target that is not there in a pattern, an empty block between statements. A
list without such parts is a sifted one (`Sifted`), and sifted lists are read alike. The same is
said here of the headers of definitions, and from there of lists of statements (`Alike`).
-/

namespace NameAtlas.Python

/-- A list without some elements that may be left out, with a related one in the place of each of
the others. -/
inductive Sifted {α β : Type} (Skip : α → Prop) (R : α → β → Prop) : List α → List β → Prop where
  /-- Nothing. -/
  | nil : Sifted Skip R [] []
  /-- An element is left out. -/
  | skip {a : α} {as : List α} {bs : List β} (ha : Skip a) (h : Sifted Skip R as bs) :
    Sifted Skip R (a :: as) bs
  /-- An element is replaced. -/
  | cons {a : α} {b : β} {as : List α} {bs : List β} (hab : R a b) (h : Sifted Skip R as bs) :
    Sifted Skip R (a :: as) (b :: bs)

/-- Sifted lists may be put together. -/
theorem Sifted.append {α β : Type} {Skip : α → Prop} {R : α → β → Prop} {as as' : List α}
    {bs bs' : List β} (h : Sifted Skip R as bs) (h' : Sifted Skip R as' bs') :
    Sifted Skip R (as ++ as') (bs ++ bs') := by
  induction h with
  | nil => exact h'
  | skip ha _ ih => exact .skip ha ih
  | cons hab _ ih => exact .cons hab ih

/-- Sifted lists may be mapped if what may be left out and what is related is kept. -/
theorem Sifted.map {α β γ δ : Type} {Skip : α → Prop} {R : α → β → Prop} {Skip' : γ → Prop}
    {R' : γ → δ → Prop} {f : α → γ} {g : β → δ} {as : List α} {bs : List β}
    (h : Sifted Skip R as bs) (hskip : ∀ a, Skip a → Skip' (f a)) (hkeep : ∀ {a b}, R a b → R' (f a) (g b)) :
    Sifted Skip' R' (as.map f) (bs.map g) := by
  induction h with
  | nil => exact .nil
  | skip ha _ ih => exact .skip (hskip _ ha) ih
  | cons hab _ ih => exact .cons (hkeep hab) ih

/-! ### Parts of statements -/

/-- Two expressions that are evaluated alike. -/
def Expr.Same (e e' : Expr) : Prop := ∀ scope w, eval scope e w = eval scope e' w

/-- Two lists of expressions that are read alike. -/
def SameReads (es es' : List Expr) : Prop :=
  ∀ scope (w : Walk), w.readAll scope es = w.readAll scope es'

/-- Two targets that are assigned to alike. -/
def Target.Same (t t' : Target) : Prop :=
  ∀ scope type w, assign scope type t w = assign scope type t' w

/-- Two targets that are combined with values alike. -/
def Target.SameAugmented (t t' : Target) : Prop := ∀ scope w, augment scope t w = augment scope t' w

/-- Two annotations that are read alike. -/
def SameHint (hint hint' : Option TypeHint) : Prop :=
  ∀ scope (w : Walk), w.readHint scope hint = w.readHint scope hint'

/-- Two assignments that are performed alike. -/
def Assignment.Same (a a' : Assignment) : Prop :=
  ∀ scope w, performAssignment scope a w = performAssignment scope a' w

/-- Two parts of simple statements that are performed alike. -/
def Item.Same (item item' : Item) : Prop :=
  ∀ scope w, performItem scope item w = performItem scope item' w

/-- Two simple statements that are performed alike. -/
def SameItems (items items' : List Item) : Prop :=
  ∀ scope (w : Walk), w.performItems scope items = w.performItems scope items'

namespace Expr.Same

variable {e e' : Expr} {es es' : List Expr}

/-- An expression is evaluated like itself. -/
theorem refl (e : Expr) : e.Same e := fun _ _ => rfl

/-- Members of expressions that are the same are the same. -/
theorem member (h : e.Same e') (word : Word) :
    (Expr.attribute e word).Same (.attribute e' word) := by
  intro scope w
  rw [eval, eval, h]

/-- Calls of the same callee with the same arguments are the same. -/
theorem call (h : e.Same e') (written : String) (hes : SameReads es es') :
    (Expr.call e written es).Same (.call e' written es') := by
  intro scope w
  have hargs := hes scope (eval scope e' w).2
  simp only [Walk.readAll] at hargs
  simp only [eval, h scope w, hargs]

/-- Assignment expressions with the same value are the same. -/
theorem walrus (h : e.Same e') (word : Word) : (Expr.walrus e word).Same (.walrus e' word) := by
  intro scope w
  rw [eval, eval, h]

/-- Where the type of the whole does not depend on the parts, only what is read matters. -/
theorem compound (hes : SameReads es es') {outcome : Outcome} (houtcome : outcome ≠ .ofFirst) :
    (Expr.compound es outcome).Same (.compound es' outcome) := by
  intro scope w
  have hparts := hes scope w
  simp only [Walk.readAll] at hparts
  cases outcome with
  | ofFirst => exact absurd rfl houtcome
  | unknown | fixed => simp only [eval, hparts, Outcome.type]

/-- The type of the whole can be that of the first part. -/
theorem compound_cons (h : e.Same e') (hes : SameReads es es') (outcome : Outcome) :
    (Expr.compound (e :: es) outcome).Same (.compound (e' :: es') outcome) := by
  intro scope w
  have hrest := hes scope (eval scope e' w).2
  simp only [Walk.readAll] at hrest
  simp only [eval, evalParts, h scope w, hrest]

end Expr.Same

namespace SameReads

variable {es es' : List Expr}

/-- Expressions are read like themselves. -/
theorem refl (es : List Expr) : SameReads es es := fun _ _ => rfl

/-- One more expression may be read in both lists if it is the same. -/
theorem cons {e e' : Expr} (h : e.Same e') (hes : SameReads es es') :
    SameReads (e :: es) (e' :: es') := by
  intro scope w
  have hrest := hes scope (eval scope e' w).2
  simp only [Walk.readAll] at hrest ⊢
  simp only [evalParts, h scope w, hrest]

/-- A single expression is read alike if it is the same. -/
theorem singleton {e e' : Expr} (h : e.Same e') : SameReads [e] [e'] := cons h (refl [])

/-- An expression that is not there is passed over. -/
theorem of_sifted (h : Sifted (· = Expr.absent) Expr.Same es es') : SameReads es es' := by
  induction h with
  | nil => exact refl []
  | @skip e es es' he h ih =>
    subst he
    exact ih
  | cons he h ih => exact cons he ih

end SameReads

namespace Target.Same

variable {e e' : Expr} {ts ts' : List Target}

/-- A target is assigned to like itself. -/
theorem refl (t : Target) : t.Same t := fun _ _ _ => rfl

/-- Members of the same object are assigned to alike. -/
theorem member (h : e.Same e') (word : Word) :
    (Target.attribute e word).Same (.attribute e' word) := by
  intro scope type w
  rw [assign, assign, h]

/-- Elements of the same object are assigned to alike. -/
theorem element (h : e.Same e') : (Target.element e).Same (.element e') :=
  fun scope _ w => congrArg Prod.snd (h scope w)

/-- A target that is not there is passed over. -/
theorem pattern (h : Sifted (· = Target.absent) Target.Same ts ts') :
    (Target.pattern ts).Same (.pattern ts') := by
  intro scope _ w
  rw [assign, assign]
  induction h generalizing w with
  | nil => rfl
  | @skip t ts ts' ht h ih =>
    subst ht
    exact ih w
  | cons ht h ih => rw [assignEach, assignEach, ht, ih]

end Target.Same

namespace Target.SameAugmented

variable {e e' : Expr}

/-- A target is combined with a value like itself. -/
theorem refl (t : Target) : t.SameAugmented t := fun _ _ => rfl

/-- Members of the same object are combined with a value alike. -/
theorem member (h : e.Same e') (word : Word) :
    (Target.attribute e word).SameAugmented (.attribute e' word) := by
  intro scope w
  rw [augment, augment, h]

/-- Elements of the same object are combined with a value alike. -/
theorem element (h : e.Same e') : (Target.element e).SameAugmented (.element e') :=
  fun scope w => congrArg Prod.snd (h scope w)

end Target.SameAugmented

namespace SameHint

/-- A hint is read like itself. -/
theorem refl (hint : Option TypeHint) : SameHint hint hint := fun _ _ => rfl

/-- Hints of one form that read the same are the same. -/
theorem form (form : TypeForm) {es es' : List Expr} (h : SameReads es es') :
    SameHint (some (.form form es)) (some (.form form es')) := by
  intro scope w
  rw [Walk.readHint, Walk.readHint, h]

end SameHint

/-- Targets with their values that are the same one by one. -/
def SamePairs : List (Target × Expr) → List (Target × Expr) → Prop :=
  List.Forall₂ fun x y => x.1.Same y.1 ∧ x.2.Same y.2

/-- Pairs that are the same one by one are assigned alike. -/
theorem assignPairs_congr {pairs pairs' : List (Target × Expr)}
    (h : SamePairs pairs pairs') (scope : Nat) (w : Walk) :
    assignPairs scope pairs w = assignPairs scope pairs' w := by
  induction h generalizing w with
  | nil => rfl
  | cons hpair h ih => simp only [assignPairs, hpair.1 scope, hpair.2 scope, ih]

namespace Assignment.Same

variable {hint hint' : Option TypeHint} {t t' : Target}

/-- Assignments of the same parts are performed alike. -/
theorem plain (hhint : SameHint hint hint') (ht : t.Same t') {e e' : Expr} (he : e.Same e') :
    (Assignment.plain hint t e).Same (.plain hint' t' e') := by
  intro scope w
  simp only [performAssignment, hhint scope, he scope, ht scope]

/-- Chains of assignments of the same parts are performed alike. -/
theorem chained (hhint : SameHint hint hint') (ht : t.Same t') {a a' : Assignment}
    (ha : a.Same a') : (Assignment.chained hint t a).Same (.chained hint' t' a') := by
  intro scope w
  simp only [performAssignment, hhint scope, ha scope, ht scope]

/-- Unpackings of the same pairs are performed alike. -/
theorem unpack (hhint : SameHint hint hint') {pairs pairs' : List (Target × Expr)}
    (h : SamePairs pairs pairs') :
    (Assignment.unpack hint pairs).Same (.unpack hint' pairs') := by
  intro scope w
  simp only [performAssignment, hhint scope, assignPairs_congr h]

end Assignment.Same

namespace Item.Same

/-- Items that read the same are performed alike. -/
theorem read {e e' : Expr} (h : e.Same e') : (Item.read e).Same (.read e') :=
  fun scope w => congrArg Prod.snd (h scope w)

/-- Items that assign the same are performed alike. -/
theorem assign {a a' : Assignment} (h : a.Same a') : (Item.assign a).Same (.assign a') :=
  fun scope w => congrArg Prod.snd (h scope w)

/-- Items that combine the same are performed alike. -/
theorem augment {t t' : Target} (ht : t.SameAugmented t') {e e' : Expr} (he : e.Same e') :
    (Item.augment t e).Same (.augment t' e') := by
  intro scope w
  rw [performItem, performItem, ht, Walk.read, Walk.read, he]

/-- Items that bind the same are performed alike. -/
theorem bind {t t' : Target} (h : t.Same t') : (Item.bind t).Same (.bind t') :=
  fun scope w => h scope .unknown w

end Item.Same

namespace SameItems

/-- Reading an expression that is not there is passed over. -/
theorem of_sifted {items items' : List Item}
    (h : Sifted (· = Item.read .absent) Item.Same items items') : SameItems items items' := by
  intro scope w
  induction h generalizing w with
  | nil => rfl
  | @skip item items items' hitem h ih =>
    subst hitem
    exact ih w
  | @cons item item' items items' hitem h ih =>
    exact (ih _).trans (congrArg (Walk.performItems · scope items') (hitem scope w))

end SameItems

/-! ### Headers of definitions -/

/-- Two parameters that are declared alike. -/
inductive Parameter.Same : Parameter → Parameter → Prop where
  /-- The annotations and defaults are the same. -/
  | named (word : Word) {hint hint' : Option TypeHint} {default default' : Option Expr}
    (hhint : SameHint hint hint') (hdefault : SameReads default.toList default'.toList) :
    Same (.named word hint default) (.named word hint' default')
  /-- Reports are the same. -/
  | unsupported (shape snippet : String) (location : Location) :
    Same (.unsupported shape snippet location) (.unsupported shape snippet location)

/-- Two arguments of a class that are read alike. -/
inductive ClassArgument.Same : ClassArgument → ClassArgument → Prop where
  /-- Two bases. -/
  | base {e e' : Expr} (h : e.Same e') : Same (.base e) (.base e')
  /-- Two values of keywords. -/
  | keyword {e e' : Expr} (h : e.Same e') : Same (.keyword e) (.keyword e')

/-- A function definition with an annotation and parameters that are the same. -/
structure FunctionHeader.Same (h h' : FunctionHeader) : Prop where
  /-- All the rest is equal. -/
  rest : h' = { h with returns := h'.returns, parameters := h'.parameters }
  /-- What is returned. -/
  returns : SameHint h.returns h'.returns
  /-- The parameters. -/
  parameters : List.Forall₂ Parameter.Same h.parameters h'.parameters

/-- A class definition with arguments that are the same. -/
structure ClassHeader.Same (h h' : ClassHeader) : Prop where
  /-- All the rest is equal. -/
  rest : h' = { h with arguments := h'.arguments }
  /-- Bases and keywords; a base that is not there may be left out. -/
  arguments : Sifted (· = .base .absent) ClassArgument.Same h.arguments h'.arguments

/-- A default is read as a list of one expression or none. -/
theorem readDefault_eq (w : Walk) (scope : Nat) (default : Option Expr) :
    w.readDefault scope default = w.readAll scope default.toList := by
  cases default <;> rfl

/-- Parameters that are the same one by one are declared alike. -/
theorem declareParameters_congr {ps ps' : List Parameter}
    (h : List.Forall₂ Parameter.Same ps ps') (outer scope : Nat) (receiver : Option Fqn)
    (w : Walk) :
    Walk.declareParameters outer scope receiver ps w =
      Walk.declareParameters outer scope receiver ps' w := by
  induction h generalizing receiver w with
  | nil => rfl
  | cons hp h ih =>
    cases hp with
    | named word hhint hdefault =>
      simp only [Walk.declareParameters, hhint outer, readDefault_eq, hdefault outer, ih]
    | unsupported shape snippet location => exact ih _ _

/-- A base that is not there is passed over. -/
theorem readBases_congr {as as' : List ClassArgument}
    (h : Sifted (· = .base .absent) ClassArgument.Same as as') (scope : Nat) (w : Walk) :
    Walk.readBases scope as w = Walk.readBases scope as' w := by
  induction h generalizing w with
  | nil => rfl
  | @skip a as as' ha h ih =>
    subst ha
    exact ih w
  | cons ha h ih =>
    cases ha with
    | base he => simp only [Walk.readBases, he scope, ih]
    | keyword he => simp only [Walk.readBases, Walk.read, he scope, ih]

/-! ### Statements -/

/-- True for statements that hold no other syntax. -/
def Stmt.isLeaf : Stmt → Bool
  | .imports .. | .returns none | .globals _ | .nonlocals _ | .unsupported .. => true
  | _ => false

/-- Two lists of statements that are the same one by one, besides empty blocks in the first. -/
inductive Alike : List Stmt → List Stmt → Prop where
  /-- Nothing. -/
  | nil : Alike [] []
  /-- An empty block is left out. -/
  | skip {b b' : List Stmt} (h : Alike b b') : Alike (.block [] :: b) b'
  /-- Two statements that hold no other syntax. -/
  | leaf {s : Stmt} {b b' : List Stmt} (hs : s.isLeaf) (h : Alike b b') : Alike (s :: b) (s :: b')
  /-- Two simple statements. -/
  | simple {items items' : List Item} {b b' : List Stmt} (hitems : SameItems items items')
    (h : Alike b b') : Alike (.simple items :: b) (.simple items' :: b')
  /-- Two blocks. -/
  | block {body body' b b' : List Stmt} (hbody : Alike body body') (h : Alike b b') :
    Alike (.block body :: b) (.block body' :: b')
  /-- Two caught exceptions. -/
  | caught {value value' : Expr} {between between' : List Stmt} {target target' : Option Target}
    {b b' : List Stmt} (hvalue : value.Same value') (hbetween : Alike between between')
    (htarget : Option.Rel Target.Same target target') (h : Alike b b') :
    Alike (.caught value between target :: b) (.caught value' between' target' :: b')
  /-- Two functions. -/
  | function {header header' : FunctionHeader} {body body' b b' : List Stmt}
    (hheader : header.Same header') (hbody : Alike body body') (h : Alike b b') :
    Alike (.function header body :: b) (.function header' body' :: b')
  /-- Two classes. -/
  | class {header header' : ClassHeader} {body body' b b' : List Stmt}
    (hheader : header.Same header') (hbody : Alike body body') (h : Alike b b') :
    Alike (.class header body :: b) (.class header' body' :: b')
  /-- Two values that are returned. -/
  | returns {value value' : Expr} {b b' : List Stmt} (hvalue : value.Same value') (h : Alike b b') :
    Alike (.returns (some value) :: b) (.returns (some value') :: b')

/-- Blocks that are alike may be put together. -/
theorem Alike.append {b b' c c' : List Stmt} (h : Alike b b') (hc : Alike c c') :
    Alike (b ++ c) (b' ++ c') := by
  induction h with
  | nil => exact hc
  | skip _ ih => exact .skip ih
  | leaf hs _ ih => exact .leaf hs ih
  | simple hitems _ ih => exact .simple hitems ih
  | block hbody _ _ ih => exact .block hbody ih
  | caught hvalue hbetween htarget _ _ ih => exact .caught hvalue hbetween htarget ih
  | function hheader hbody _ _ ih => exact .function hheader hbody ih
  | «class» hheader hbody _ _ ih => exact .class hheader hbody ih
  | returns hvalue _ ih => exact .returns hvalue ih

/-- One more statement may stand in front of blocks that are alike. -/
theorem Alike.cons {s s' : Stmt} {b b' : List Stmt} (hs : Alike [s] [s']) (h : Alike b b') :
    Alike (s :: b) (s' :: b') := hs.append h

/-- Statements that are the same one by one, besides empty blocks, are alike. -/
theorem Alike.of_sifted {b b' : List Stmt}
    (h : Sifted (· = .block []) (fun s s' => Alike [s] [s']) b b') : Alike b b' := by
  induction h with
  | nil => exact .nil
  | @skip s b b' hs h ih =>
    subst hs
    exact .skip ih
  | cons hs h ih => exact .cons hs ih

end NameAtlas.Python
