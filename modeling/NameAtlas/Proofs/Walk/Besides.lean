import Mathlib.Data.List.Find
import NameAtlas.Proofs.Reading.Words
import NameAtlas.Proofs.ScopeTree.Lookup
import NameAtlas.Proofs.Walk.Reads

/-!
# Walks that differ in some names

Binding a name changes what is read under this name and nothing else: other names stand for what
they did, no class is lost or won, and the place that a name is bound at stays the same, also that of
the name itself. Two walks that have all this in common (`Walk.AgreesBesides`) give an expression
the same value if it keeps away from the names in which they differ (`Walk.AgreesBesides.eval`), and
an expression that binds names leaves a walk that agrees with the one before besides these names
(`Walk.agreesBesides_eval`).
-/

namespace NameAtlas.Python

/-- True for a qualified name that ends in one of some names. -/
def Bears (names : List String) (f : Fqn) : Prop := ∃ name ∈ names, f.name? = some name

/-- A child bears one of some names if its own name is one of them. -/
theorem bears_child_iff {names : List String} {f : Fqn} {name : String} :
    Bears names (f.child name) ↔ name ∈ names := by
  simp [Bears]

mutual

/-- The names that an expression binds. -/
def Expr.bound : Expr → List String
  | .name _ | .unsupported _ _ => []
  | .attribute object _ => object.bound
  | .call callee _ arguments => callee.bound ++ boundIn arguments
  | .compound parts _ => boundIn parts
  | .walrus value word => value.bound ++ [word.text]

/-- The names that some expressions bind. -/
def boundIn : List Expr → List String
  | [] => []
  | e :: rest => e.bound ++ boundIn rest

end

/-! ### Bindings in a scope tree -/

namespace ScopeTree

variable (t : ScopeTree)

/-- A binding moves the place of no name. -/
theorem bindingScope_bind_bindingScope (i : Nat) (name name' : String) (target : NameTarget) :
    (t.bind (t.bindingScope i name) name target).bindingScope i name' = t.bindingScope i name' := by
  generalize hj : t.bindingScope i name = j
  have hlayout := SameLayout.bind t j name target
  have hfunction : (t.bind j name target).isFunction = t.isFunction :=
    funext fun k => by rw [isFunction, isFunction, hlayout.kindOf]
  have houter : (t.bind j name target).outerFunctions i = t.outerFunctions i := by
    rw [outerFunctions, outerFunctions, hlayout.chain, hfunction]
  rw [bindingScope, bindingScope, declaresGlobal_bind, declaresNonlocal_bind, houter]
  by_cases hglobal : t.declaresGlobal i name'
  · rw [if_pos hglobal, if_pos hglobal]
  by_cases hnonlocal : t.declaresNonlocal i name'
  case neg => rw [if_neg hglobal, if_neg hglobal, if_neg hnonlocal, if_neg hnonlocal]
  rw [if_neg hglobal, if_neg hglobal, if_pos hnonlocal, if_pos hnonlocal]
  -- Only the frame that the name is bound in may bind it now and not before.
  by_cases hbound : ∀ k ∈ t.outerFunctions i,
      ((t.bind j name target).binding? k name').isSome = (t.binding? k name').isSome
  · rw [List.find?_congr hbound]
  · obtain ⟨k, hk, hne⟩ : ∃ k ∈ t.outerFunctions i,
        ((t.bind j name target).binding? k name').isSome ≠ (t.binding? k name').isSome := by
      simpa using hbound
    rw [binding?_bind] at hne
    split at hne
    case isFalse => exact absurd rfl hne
    next hkj =>
    obtain ⟨rfl, rfl, hlt⟩ := hkj
    have hnone : t.binding? k name' = none := by simpa using hne.symm
    rw [bindingScope, if_neg hglobal, if_pos hnonlocal] at hj
    -- No function around binds the name yet, so its place is the first one.
    cases hfind : (t.outerFunctions i).find? fun k => (t.binding? k name').isSome with
    | some l =>
      rw [hfind] at hj
      have hl : (t.binding? l name').isSome := by simpa using List.find?_some hfind
      rw [show l = k from hj, hnone] at hl
      cases hl
    | none =>
      rw [hfind] at hj
      cases hfunctions : t.outerFunctions i with
      | nil => rw [hfunctions] at hk; cases hk
      | cons first rest =>
        rw [hfunctions] at hj
        obtain rfl : first = k := hj
        simp [binding?_bind, hlt]

/-- Other names stand for what they did before a binding. -/
theorem lookup_bind_of_ne (i start : Nat) {name name' : String} (hname : name' ≠ name)
    (target : NameTarget) : (t.bind i name target).lookup start name' = t.lookup start name' := by
  have hlayout := SameLayout.bind t i name target
  have hbinding (j : Nat) : (t.bind i name target).binding? j name' = t.binding? j name' := by
    rw [binding?_bind, if_neg fun h => hname h.2.1]
  rw [lookup, lookup, hlayout.chain]
  simp only [sees_bind, hbinding]

/-- What a name stands for behind a binding, it stood for before or is bound to. -/
theorem lookup_bind_eq_or (i start : Nat) (name name' : String) (target : NameTarget) :
    (t.bind i name target).lookup start name' = t.lookup start name' ∨
      (name' = name ∧ (t.bind i name target).lookup start name' = some target) := by
  by_cases hname : name' = name
  · subst hname
    -- The first scope with a binding decides, so the induction is on the scopes of the chain.
    have hfind (l : List Nat) :
        (l.findSome? fun j => if t.sees start j then (t.bind i name' target).binding? j name'
            else none) = (l.findSome? fun j => if t.sees start j then t.binding? j name' else none) ∨
          (l.findSome? fun j => if t.sees start j then (t.bind i name' target).binding? j name'
            else none) = some target := by
      induction l with
      | nil => exact .inl rfl
      | cons j rest ih =>
        rw [List.findSome?_cons, List.findSome?_cons, binding?_bind]
        by_cases hsees : t.sees start j
        · by_cases hj : j = i ∧ name' = name' ∧ i < t.size
          · rw [if_pos hj, if_pos hsees]
            exact .inr rfl
          · rw [if_neg hj, if_pos hsees]
            cases t.binding? j name' with
            | some found => exact .inl rfl
            | none => exact ih
        · simpa [hsees] using ih
    have hchain := (SameLayout.bind t i name' target).chain start
    simp only [lookup, hchain, sees_bind]
    rcases hfind (t.chain start) with h | h
    · exact .inl (by rw [h])
    · exact .inr ⟨trivial, by rw [h]⟩
  · exact .inl (t.lookup_bind_of_ne i start hname target)

end ScopeTree

/-! ### Bindings in a walk -/

namespace Walk

/-- A binding moves the place of no name. -/
theorem bindingPlace_bindName (w : Walk) (scope : Nat) (word : Word) (type : BindingType)
    (name : String) : (w.bindName scope word type).bindingPlace scope name =
      w.bindingPlace scope name := by
  have hscope : (w.bindName scope word type).scopes.bindingScope scope name =
      w.scopes.bindingScope scope name := ScopeTree.bindingScope_bind_bindingScope _ _ _ _ _
  rw [bindingPlace, bindingPlace, hscope]
  exact congrArg (fun owner => (_, owner.child name)) (ScopeTree.ownerOf_bind _ _ _ _ _)

/-- The declaration that binding a name makes. -/
def bindingOf (w : Walk) (scope : Nat) (word : Word) (type : BindingType) : Declaration :=
  let (i, fqn) := w.bindingPlace scope word.text
  ⟨fqn, if w.scopes.kindOf i = .class then .attribute else .variable, type, i, word.location⟩

/-- Binding a name declares a symbol and binds the name to it in one place. -/
theorem bindName_eq (w : Walk) (scope : Nat) (word : Word) (type : BindingType) :
    w.bindName scope word type = (w.declare (w.bindingOf scope word type)).bind
      (w.bindingPlace scope word.text).1 word.text
      (.declared (w.bindingPlace scope word.text).2) := rfl

/-- A name that is bound becomes an attribute or a variable. -/
theorem kind_bindingOf (w : Walk) (scope : Nat) (word : Word) (type : BindingType) :
    (w.bindingOf scope word type).kind = .attribute ∨
      (w.bindingOf scope word type).kind = .variable := by
  simp only [bindingOf]
  split <;> simp

/-- A binding makes no class, and none is lost. -/
theorem isClass_bindName (w : Walk) (scope : Nat) (word : Word) (type : BindingType) (f : Fqn) :
    (w.bindName scope word type).symbols.isClass f = w.symbols.isClass f := by
  have hkind : (w.bindName scope word type).symbols.kindOf? f = _ :=
    SymbolTable.kindOf?_declare w.symbols (w.bindingOf scope word type) f
  rw [SymbolTable.isClass, SymbolTable.isClass, hkind]
  split
  · cases w.symbols.kindOf? f <;>
      rcases w.kind_bindingOf scope word type with h | h <;> simp [h, SymbolKind.isDefinition]
  · rfl

/-- What a name stands for behind a binding, it stood for before, or it bears the name. -/
theorem lookup_bindName {w : Walk} {scope start : Nat} {word : Word} {type : BindingType}
    {name : String} {f : Fqn}
    (h : (w.bindName scope word type).scopes.lookup start name = some (.declared f)) :
    w.scopes.lookup start name = some (.declared f) ∨ f.name? = some name := by
  rcases w.scopes.lookup_bind_eq_or (w.bindingPlace scope word.text).1 start word.text name
    (.declared (w.bindingPlace scope word.text).2) with hsame | ⟨rfl, hbound⟩
  · exact .inl (hsame ▸ h)
  · obtain rfl := NameTarget.declared.inj (Option.some.inj (hbound.symm.trans h))
    exact .inr (Fqn.name?_child _ _)

end Walk

/-! ### Walks -/

/-- The walks agree on what is read and bound in a scope besides what bears one of some names. -/
structure Walk.AgreesBesides (scope : Nat) (names : List String) (w w' : Walk) : Prop where
  /-- The layout is the same. -/
  layout : w.scopes.SameLayout w'.scopes
  /-- Other names are bound to the same. -/
  bindings : ∀ i name, name ∉ names → w'.scopes.binding? i name = w.scopes.binding? i name
  /-- Functions are methods of the same classes. -/
  methods : ∀ i, w'.scopes.methodClass? i = w.scopes.methodClass? i
  /-- All names are bound at the same places. -/
  places : ∀ name, w'.bindingPlace scope name = w.bindingPlace scope name
  /-- Other symbols have the same types. -/
  types : ∀ f, ¬Bears names f → w'.symbols.typeOf f = w.symbols.typeOf f
  /-- Other symbols are of the same kinds. -/
  kinds : ∀ f, ¬Bears names f → w'.symbols.kindOf? f = w.symbols.kindOf? f
  /-- The same symbols are classes. -/
  classes : ∀ f, w'.symbols.isClass f = w.symbols.isClass f
  /-- Classes have the same bases. -/
  bases : ∀ c, w'.symbols.basesOf c = w.symbols.basesOf c

/-- True for a value that names no symbol which bears one of some names. -/
def Evaluated.Avoids (names : List String) (v : Evaluated) : Prop :=
  ∀ f, v.target = some (.declared f) → ¬Bears names f

/-- True for words none of which is one of some names or stands for a symbol that bears one of
them. -/
def Walk.Avoids (w : Walk) (scope : Nat) (names : List String) (words : List Word) : Prop :=
  ∀ word ∈ words, word.text ∉ names ∧
    ∀ f, w.scopes.lookup scope word.text = some (.declared f) → ¬Bears names f

/-- A declared member bears the name that is asked for. -/
theorem bears_iff_of_memberOf? {names : List String} {symbols : SymbolTable} {object : Evaluated}
    {name : String} {f : Fqn} (h : memberOf? symbols object name = some (.declared f)) :
    Bears names f ↔ name ∈ names := by
  rw [memberOf?] at h
  split at h
  · obtain ⟨f', hf, hmember⟩ := Option.map_eq_some_iff.1 h
    obtain rfl := Member.declared.inj hmember
    obtain ⟨a, -, rfl⟩ := List.mem_map.1 (List.mem_of_find?_eq_some hf)
    exact bears_child_iff
  · split at h
    · cases h
    · cases h

/-- A member of another name names no symbol that bears one of the names. -/
theorem Walk.readMember_avoids {names : List String} (w : Walk) (scope : Nat) (object : Evaluated)
    {word : Word} (hword : word.text ∉ names) : (w.readMember scope object word).1.Avoids names := by
  intro f hf hbears
  rw [readMember] at hf
  cases hmember : memberOf? w.symbols object word.text with
  | none => simp [hmember, Evaluated.unknown, Evaluated.ofType] at hf
  | some member =>
    cases member with
    | declared g =>
      simp only [hmember, Option.some.injEq, NameTarget.declared.injEq] at hf
      exact hword ((bears_iff_of_memberOf? (hf ▸ hmember)).1 hbears)
    | external g => simp [hmember] at hf

namespace Walk.AgreesBesides

variable {scope : Nat} {names : List String} {w w' w'' : Walk}

/-- A walk agrees with itself. -/
theorem refl (w : Walk) : w.AgreesBesides scope names w :=
  ⟨.refl _, fun _ _ _ => rfl, fun _ => rfl, fun _ => rfl, fun _ _ => rfl, fun _ _ => rfl,
    fun _ => rfl, fun _ => rfl⟩

/-- Walks that agree one after the other agree. -/
theorem trans (h : w.AgreesBesides scope names w') (h' : w'.AgreesBesides scope names w'') :
    w.AgreesBesides scope names w'' where
  layout := h.layout.trans h'.layout
  bindings i name hname := (h'.bindings i name hname).trans (h.bindings i name hname)
  methods i := (h'.methods i).trans (h.methods i)
  places name := (h'.places name).trans (h.places name)
  types f hf := (h'.types f hf).trans (h.types f hf)
  kinds f hf := (h'.kinds f hf).trans (h.kinds f hf)
  classes f := (h'.classes f).trans (h.classes f)
  bases c := (h'.bases c).trans (h.bases c)

/-- Walks with the scopes and symbols of walks that agree. -/
theorem congr (h : w.AgreesBesides scope names w') {v v' : Walk} (hscopes : v.scopes = w.scopes)
    (hsymbols : v.symbols = w.symbols) (hscopes' : v'.scopes = w'.scopes)
    (hsymbols' : v'.symbols = w'.symbols) : v.AgreesBesides scope names v' where
  layout := by rw [hscopes, hscopes']; exact h.layout
  bindings := by rw [hscopes, hscopes']; exact h.bindings
  methods := by rw [hscopes, hscopes']; exact h.methods
  places := by simpa only [bindingPlace, hscopes, hscopes'] using h.places
  types := by rw [hsymbols, hsymbols']; exact h.types
  kinds := by rw [hsymbols, hsymbols']; exact h.kinds
  classes := by rw [hsymbols, hsymbols']; exact h.classes
  bases := by rw [hsymbols, hsymbols']; exact h.bases

/-! #### What is read -/

/-- Other names stand for the same. -/
theorem lookup (h : w.AgreesBesides scope names w') {name : String} (hname : name ∉ names) :
    w'.scopes.lookup scope name = w.scopes.lookup scope name := by
  have hsees (i : Nat) : w'.scopes.sees scope i = w.scopes.sees scope i := by
    rw [ScopeTree.sees, ScopeTree.sees, h.layout.kindOf]
  simp only [ScopeTree.lookup, h.layout.chain, hsees, h.bindings _ _ hname]

/-- Types have the same classes. -/
theorem classOf? (h : w.AgreesBesides scope names w') (type : BindingType) :
    classOf? w'.symbols type = classOf? w.symbols type := by
  rw [Python.classOf?, Python.classOf?, funext h.classes]

/-- Other names are the same members of a class. -/
theorem resolveMember? (h : w.AgreesBesides scope names w') (c : Fqn) {name : String}
    (hname : name ∉ names) :
    w'.symbols.hierarchy.resolveMember? c name = w.symbols.hierarchy.resolveMember? c name := by
  have hancestors : w'.symbols.hierarchy.ancestors c = w.symbols.hierarchy.ancestors c :=
    Hierarchy.ancestors_congr (g := w'.symbols.hierarchy) (h := w.symbols.hierarchy) h.bases c
  rw [Hierarchy.resolveMember?, Hierarchy.resolveMember?, hancestors]
  refine List.find?_congr fun f hf => ?_
  -- A member bears the name that is asked for.
  obtain ⟨a, -, rfl⟩ := List.mem_map.1 hf
  have hkind := congrArg Option.isSome (h.kinds (a.child name) (mt bears_child_iff.1 hname))
  rw [SymbolTable.kindOf?, SymbolTable.kindOf?, Option.isSome_map, Option.isSome_map] at hkind
  exact hkind

/-- Other names are the same members of a value. -/
theorem memberOf? (h : w.AgreesBesides scope names w') (object : Evaluated) {name : String}
    (hname : name ∉ names) :
    memberOf? w'.symbols object name = memberOf? w.symbols object name := by
  simp only [Python.memberOf?, h.classOf?, h.resolveMember? _ hname]

/-- Reading another member gives the same value. -/
theorem readMember (h : w.AgreesBesides scope names w') (object : Evaluated) {word : Word}
    (hword : word.text ∉ names) :
    (w'.readMember scope object word).1 = (w.readMember scope object word).1 := by
  rw [Walk.readMember, Walk.readMember, h.memberOf? object hword]
  cases hmember : Python.memberOf? w.symbols object word.text with
  | none => rfl
  | some member =>
    cases member with
    | declared f =>
      have hf : ¬Bears names f := fun hbears =>
        hword (bears_iff_of_memberOf? hmember |>.1 hbears)
      simp only [h.types f hf]
    | external f => rfl

/-- The same scopes are those of functions. -/
theorem isFunction (h : w.AgreesBesides scope names w') :
    w'.scopes.isFunction = w.scopes.isFunction :=
  funext fun i => by rw [ScopeTree.isFunction, ScopeTree.isFunction, h.layout.kindOf]

/-- Calls of `super` find the same base. -/
theorem superBase? (h : w.AgreesBesides scope names w') (i : Nat) :
    w'.superBase? i = w.superBase? i := by
  simp only [superBase?_eq, ScopeTree.enclosingFunction?, h.layout.chain, h.isFunction, h.methods,
    h.bases]

/-- A call gives the same type if the callee avoids the names. -/
theorem callType (h : w.AgreesBesides scope names w') {callee : Evaluated}
    (hcallee : callee.Avoids names) (written : String) :
    callType w'.symbols callee written = callType w.symbols callee written := by
  rw [Python.callType, Python.callType]
  cases htarget : callee.target with
  | none => rfl
  | some target =>
    cases target with
    | declared f => simp only [h.kinds f (hcallee f htarget), h.types f (hcallee f htarget)]
    | imported f | builtin f => rfl

/-- A call of any kind gives the same type if the callee avoids the names. -/
theorem typeOfCall (h : w.AgreesBesides scope names w') {callee : Evaluated}
    (hcallee : callee.Avoids names) (i : Nat) (written : String) :
    w'.typeOfCall i callee written = w.typeOfCall i callee written := by
  simp only [Walk.typeOfCall, h.superBase?, h.callType hcallee]

/-! #### What is bound -/

/-- A binding of one of the names. -/
theorem bindName_self (w : Walk) {word : Word} (hword : word.text ∈ names) (type : BindingType) :
    w.AgreesBesides scope names (w.bindName scope word type) where
  layout := .bind _ _ _ _
  bindings i name hname := by
    have hne : name ≠ word.text := fun heq => hname (heq ▸ hword)
    exact (ScopeTree.binding?_bind _ _ _ _ _ _).trans (if_neg fun h => hne h.2.1)
  methods i := congrArg (Option.bind · FunctionInfo.owner) (ScopeTree.function?_bind _ _ _ _ _)
  places := w.bindingPlace_bindName scope word type
  types f hf := by
    -- The symbol that is declared bears one of the names, so other symbols keep type and kind.
    have hne : f ≠ (w.bindingPlace scope word.text).2 := fun heq =>
      hf (heq ▸ bears_child_iff.2 hword)
    exact (SymbolTable.typeOf_declare _ _ f).trans (if_neg hne)
  kinds f hf := by
    have hne : f ≠ (w.bindingPlace scope word.text).2 := fun heq =>
      hf (heq ▸ bears_child_iff.2 hword)
    exact (SymbolTable.kindOf?_declare _ _ f).trans (if_neg hne)
  classes := w.isClass_bindName scope word type
  bases _ := rfl

/-- A binding makes the same declaration. -/
theorem bindingOf (h : w.AgreesBesides scope names w') (word : Word) (type : BindingType) :
    w'.bindingOf scope word type = w.bindingOf scope word type := by
  simp only [Walk.bindingOf, h.places, h.layout.kindOf]

/-- Walks that agree still do behind the same binding. -/
theorem bindName (h : w.AgreesBesides scope names w') (word : Word) (type : BindingType) :
    (w.bindName scope word type).AgreesBesides scope names (w'.bindName scope word type) where
  layout := ((ScopeTree.SameLayout.bind _ _ _ _).symm.trans h.layout).trans (.bind _ _ _ _)
  bindings i name hname := by
    rw [bindName_eq, bindName_eq, Walk.bind, Walk.bind, ScopeTree.binding?_bind,
      ScopeTree.binding?_bind, h.places]
    refine if_congr ?_ rfl (h.bindings i name hname)
    rw [show (w'.declare _).scopes.size = _ from h.layout.size]
    rfl
  methods i := by
    simp only [ScopeTree.methodClass?, bindName_eq, Walk.bind, ScopeTree.function?_bind]
    exact h.methods i
  places name := by rw [bindingPlace_bindName, bindingPlace_bindName, h.places]
  -- Both walks make the same declaration in the same place.
  types f hf := by
    have hbinding := h.bindingOf word type
    simp only [bindName_eq, Walk.bind, Walk.declare, SymbolTable.typeOf_declare, hbinding,
      h.types f hf]
  kinds f hf := by
    have hbinding := h.bindingOf word type
    simp only [bindName_eq, Walk.bind, Walk.declare, SymbolTable.kindOf?_declare, hbinding,
      h.kinds f hf]
  classes f := by rw [isClass_bindName, isClass_bindName, h.classes]
  bases := h.bases

end Walk.AgreesBesides

/-! ### Expressions -/

namespace Walk

variable {scope : Nat} {names : List String}

mutual

/-- An expression leaves a walk that agrees with the one before besides the names that it binds. -/
theorem agreesBesides_eval :
    ∀ (e : Expr) (w : Walk), e.bound ⊆ names → w.AgreesBesides scope names (eval scope e w).2
  | .name _, w, _ => (AgreesBesides.refl w).congr rfl rfl rfl rfl
  | .unsupported _ _, w, _ => (AgreesBesides.refl w).congr rfl rfl rfl rfl
  | .attribute object _, w, h => (agreesBesides_eval object w h).congr rfl rfl rfl rfl
  | .call callee _ arguments, w, h =>
    have ⟨hcallee, harguments⟩ := List.append_subset.1 h
    (agreesBesides_eval callee w hcallee).trans (agreesBesides_evalParts arguments _ harguments)
  | .compound parts _, w, h => agreesBesides_evalParts parts w h
  | .walrus value _, w, h =>
    have ⟨hvalue, hword⟩ := List.append_subset.1 h
    (agreesBesides_eval value w hvalue).trans (.bindName_self _ (hword List.mem_cons_self) _)

/-- Expressions leave a walk that agrees with the one before besides the names that they bind. -/
theorem agreesBesides_evalParts :
    ∀ (es : List Expr) (w : Walk), boundIn es ⊆ names →
      w.AgreesBesides scope names (evalParts scope es w).2
  | [], w, _ => .refl w
  | e :: rest, w, h =>
    have ⟨hfirst, hrest⟩ := List.append_subset.1 h
    (agreesBesides_eval e w hfirst).trans (agreesBesides_evalParts rest _ hrest)

end

mutual

/-- What a name stands for behind an expression, it stood for before, or it bears the name. -/
theorem lookup_eval {name : String} {f : Fqn} : ∀ (e : Expr) (w : Walk),
    (eval scope e w).2.scopes.lookup scope name = some (.declared f) →
      w.scopes.lookup scope name = some (.declared f) ∨ f.name? = some name
  | .name _, _, h => .inl h
  | .unsupported _ _, _, h => .inl h
  | .attribute object _, w, h => lookup_eval object w h
  | .call callee _ arguments, w, h =>
    (lookup_evalParts arguments _ h).elim (lookup_eval callee w) .inr
  | .compound parts _, w, h => lookup_evalParts parts w h
  | .walrus value _, w, h => (lookup_bindName h).elim (lookup_eval value w) .inr

/-- A name that some expressions bind to a symbol is the name of the symbol, or was bound before. -/
theorem lookup_evalParts {name : String} {f : Fqn} : ∀ (es : List Expr) (w : Walk),
    (evalParts scope es w).2.scopes.lookup scope name = some (.declared f) →
      w.scopes.lookup scope name = some (.declared f) ∨ f.name? = some name
  | [], _, h => .inl h
  | e :: rest, w, h => (lookup_evalParts rest _ h).elim (lookup_eval e w) .inr

end

namespace Avoids

variable {w w' : Walk} {words : List Word}

/-- Words that keep away from some names still do where a name stands for what it did before or
bears the name. -/
theorem mono (h : w.Avoids scope names words)
    (hlookup : ∀ name f, w'.scopes.lookup scope name = some (.declared f) →
      w.scopes.lookup scope name = some (.declared f) ∨ f.name? = some name) :
    w'.Avoids scope names words := by
  intro word hword
  obtain ⟨hname, hdeclared⟩ := h word hword
  refine ⟨hname, fun f hf => ?_⟩
  rcases hlookup word.text f hf with hf | hf
  · exact hdeclared f hf
  · rintro ⟨name, hmem, hbears⟩
    exact hname (Option.some.inj (hf.symm.trans hbears) ▸ hmem)

/-- A walk avoids some words and others if it avoids all of them. -/
theorem append {words' : List Word} :
    w.Avoids scope names (words ++ words') ↔
      w.Avoids scope names words ∧ w.Avoids scope names words' := List.forall_mem_append

end Avoids

namespace AgreesBesides

variable {w w' : Walk}

mutual

/-- Where walks agree besides some names, an expression whose words keep away from these has one
value, and leaves walks that agree. -/
theorem eval : ∀ (e : Expr) {w w' : Walk}, w.AgreesBesides scope names w' →
    w.Avoids scope names e.words →
      (Python.eval scope e w').1 = (Python.eval scope e w).1 ∧
        (Python.eval scope e w).1.Avoids names ∧
        (Python.eval scope e w).2.AgreesBesides scope names (Python.eval scope e w').2
  | .name word, w, w', h, he => by
    obtain ⟨hname, hdeclared⟩ := he word List.mem_cons_self
    refine ⟨?_, hdeclared, h.congr rfl rfl rfl rfl⟩
    rw [Python.eval, Python.eval, readName, readName, h.lookup hname]
    cases htarget : w.scopes.lookup scope word.text with
    | none => rfl
    | some target =>
      cases target with
      | declared f => simp only [h.types f (hdeclared f htarget)]
      | imported f | builtin f => rfl
  | .unsupported _ _, w, w', h, _ => ⟨rfl, nofun, h.congr rfl rfl rfl rfl⟩
  | .attribute object member, w, w', h, he => by
    obtain ⟨hobject, hmember⟩ := Avoids.append.1 he
    have hname := (hmember member List.mem_cons_self).1
    obtain ⟨hvalue, -, hwalk⟩ := eval object h hobject
    have heval (v : Walk) : Python.eval scope (.attribute object member) v =
      (Python.eval scope object v).2.readMember scope (Python.eval scope object v).1 member := rfl
    rw [heval, heval, hvalue]
    exact ⟨hwalk.readMember _ hname, readMember_avoids _ _ _ hname, hwalk.congr rfl rfl rfl rfl⟩
  | .call callee written arguments, w, w', h, he => by
    obtain ⟨hcallee, harguments⟩ := Avoids.append.1 he
    obtain ⟨hvalue, havoids, hwalk⟩ := eval callee h hcallee
    -- The arguments are read behind the callee, where their words avoid the names as before.
    obtain ⟨-, hwalk⟩ := evalParts arguments hwalk (harguments.mono fun _ _ => lookup_eval callee w)
    have htype := hwalk.typeOfCall havoids scope written
    refine ⟨congrArg Evaluated.ofType (Eq.trans ?_ htype), nofun, hwalk⟩
    rw [hvalue]
  | .compound parts outcome, w, w', h, he => by
    obtain ⟨hfirst, hwalk⟩ := evalParts parts h he
    exact ⟨congrArg (fun type => Evaluated.ofType (outcome.type type)) hfirst, nofun, hwalk⟩
  | .walrus value word, w, w', h, he => by
    obtain ⟨hvalue, -, hwalk⟩ := eval value h he
    have heval (v : Walk) : Python.eval scope (.walrus value word) v =
      (.ofType (Python.eval scope value v).1.type,
        (Python.eval scope value v).2.bindName scope word (Python.eval scope value v).1.type) := rfl
    rw [heval, heval, hvalue]
    exact ⟨rfl, nofun, hwalk.bindName word _⟩

/-- Expressions whose words keep away from some names likewise. -/
theorem evalParts : ∀ (es : List Expr) {w w' : Walk}, w.AgreesBesides scope names w' →
    w.Avoids scope names (wordsOf es) →
      (Python.evalParts scope es w').1 = (Python.evalParts scope es w).1 ∧
        (Python.evalParts scope es w).2.AgreesBesides scope names (Python.evalParts scope es w').2
  | [], _, _, h, _ => ⟨rfl, h⟩
  | e :: rest, w, w', h, he => by
    obtain ⟨hfirst, hrest⟩ := Avoids.append.1 he
    obtain ⟨hvalue, -, hwalk⟩ := eval e h hfirst
    obtain ⟨-, hwalk⟩ := evalParts rest hwalk (hrest.mono fun _ _ => lookup_eval e w)
    exact ⟨congrArg Evaluated.type hvalue, hwalk⟩

end

end AgreesBesides

end Walk

end NameAtlas.Python
