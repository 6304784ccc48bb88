import NameAtlas.Proofs.Hierarchy
import NameAtlas.Proofs.Walk.Layout

/-!
# What a walk reads

All that a walk takes from the walks before it: the layout of the scopes, what the names are bound
to, where they are declared `global` or `nonlocal`, which class a function is a method of, and of
the symbols the types, the kinds and the bases. Two walks that have all this in common
(`Walk.Agrees`) give the same answer to every question that a walk asks, and still have it in common
after the same change.
-/

namespace NameAtlas

namespace Python

/-! ### Scope trees -/

/-- The class that the function of a frame is a method of. -/
def ScopeTree.methodClass? (t : ScopeTree) (i : Nat) : Option Fqn :=
  (t.function? i).bind FunctionInfo.owner

/-- The tree `u` has the scopes of `t`, and the names in them mean the same. -/
structure ScopeTree.Agrees (t u : ScopeTree) : Prop where
  /-- The layout is the same. -/
  layout : t.SameLayout u
  /-- Names are bound to the same. -/
  bindings : ∀ i name, u.binding? i name = t.binding? i name
  /-- The same names are declared `global`. -/
  globals : ∀ i name, u.declaresGlobal i name = t.declaresGlobal i name
  /-- The same names are declared `nonlocal`. -/
  nonlocals : ∀ i name, u.declaresNonlocal i name = t.declaresNonlocal i name
  /-- Functions are methods of the same classes. -/
  methods : ∀ i, u.methodClass? i = t.methodClass? i

namespace ScopeTree.Agrees

variable {t u : ScopeTree}

/-- In trees that agree the same scopes are seen. -/
theorem sees (h : t.Agrees u) (start i : Nat) : u.sees start i = t.sees start i := by
  rw [ScopeTree.sees, ScopeTree.sees, h.layout.kindOf]

/-- In trees that agree names stand for the same. -/
theorem lookup (h : t.Agrees u) (i : Nat) (name : String) : u.lookup i name = t.lookup i name := by
  simp only [ScopeTree.lookup, h.layout.chain, h.sees, h.bindings]

/-- In trees that agree the same scopes are those of functions. -/
theorem isFunction (h : t.Agrees u) : u.isFunction = t.isFunction := by
  funext i
  rw [ScopeTree.isFunction, ScopeTree.isFunction, h.layout.kindOf]

/-- In trees that agree the same functions are around a scope. -/
theorem enclosingFunction? (h : t.Agrees u) (i : Nat) :
    u.enclosingFunction? i = t.enclosingFunction? i := by
  rw [ScopeTree.enclosingFunction?, ScopeTree.enclosingFunction?, h.layout.chain, h.isFunction]

/-- In trees that agree names are bound in the same scopes. -/
theorem bindingScope (h : t.Agrees u) (i : Nat) (name : String) :
    u.bindingScope i name = t.bindingScope i name := by
  simp only [ScopeTree.bindingScope, outerFunctions, h.globals, h.nonlocals, h.layout.chain,
    h.isFunction, h.bindings]

/-- Trees still agree if a name is bound in both. -/
theorem bind (h : t.Agrees u) (i : Nat) (name : String) (target : NameTarget) :
    (t.bind i name target).Agrees (u.bind i name target) where
  layout := ((SameLayout.bind t i name target).symm.trans h.layout).trans (.bind u i name target)
  bindings j name' := by rw [binding?_bind, binding?_bind, h.layout.size, h.bindings]
  globals j name' := by rw [declaresGlobal_bind, declaresGlobal_bind, h.globals]
  nonlocals j name' := by rw [declaresNonlocal_bind, declaresNonlocal_bind, h.nonlocals]
  methods j := by
    simp only [methodClass?, function?_bind]
    exact h.methods j

/-- Trees still agree if a name is declared `global` in both. -/
theorem declareGlobal (h : t.Agrees u) (i : Nat) (name : String) :
    (t.declareGlobal i name).Agrees (u.declareGlobal i name) where
  layout := ((SameLayout.declareGlobal t i name).symm.trans h.layout).trans
    (.declareGlobal u i name)
  bindings j name' := by rw [binding?_declareGlobal, binding?_declareGlobal, h.bindings]
  globals j name' := by
    rw [declaresGlobal_declareGlobal, declaresGlobal_declareGlobal, h.layout.size, h.globals]
  nonlocals j name' := by
    rw [declaresNonlocal_declareGlobal, declaresNonlocal_declareGlobal, h.nonlocals]
  methods j := by
    simp only [methodClass?, function?_declareGlobal]
    exact h.methods j

/-- Trees still agree if a name is declared `nonlocal` in both. -/
theorem declareNonlocal (h : t.Agrees u) (i : Nat) (name : String) :
    (t.declareNonlocal i name).Agrees (u.declareNonlocal i name) where
  layout := ((SameLayout.declareNonlocal t i name).symm.trans h.layout).trans
    (.declareNonlocal u i name)
  bindings j name' := by rw [binding?_declareNonlocal, binding?_declareNonlocal, h.bindings]
  globals j name' := by
    rw [declaresGlobal_declareNonlocal, declaresGlobal_declareNonlocal, h.globals]
  nonlocals j name' := by
    rw [declaresNonlocal_declareNonlocal, declaresNonlocal_declareNonlocal, h.layout.size,
      h.nonlocals]
  methods j := by
    simp only [methodClass?, function?_declareNonlocal]
    exact h.methods j

/-- Trees still agree if the same is written down about a function in both. -/
theorem setFunction (h : t.Agrees u) (i : Nat) (info : FunctionInfo) :
    (t.setFunction i info).Agrees (u.setFunction i info) where
  layout := ((SameLayout.setFunction t i info).symm.trans h.layout).trans (.setFunction u i info)
  bindings j name := by rw [binding?_setFunction, binding?_setFunction, h.bindings]
  globals j name := by rw [declaresGlobal_setFunction, declaresGlobal_setFunction, h.globals]
  nonlocals j name := by
    rw [declaresNonlocal_setFunction, declaresNonlocal_setFunction, h.nonlocals]
  methods j := by
    simp only [methodClass?, function?_setFunction, h.layout.size]
    split
    · rfl
    · exact h.methods j

/-- A node that is open in both trees has one frame. -/
theorem openFrame (h : t.Agrees u) {node : Nat} (hopen : (t.byNode.get? node).isSome)
    (kind : ScopeKind) (owner : Fqn) (parent : Nat) (span : Span) :
    (u.openFrame node kind owner parent span).1 = (t.openFrame node kind owner parent span).1 ∧
      (t.openFrame node kind owner parent span).2.Agrees
        (u.openFrame node kind owner parent span).2 := by
  obtain ⟨i, hi⟩ := Option.isSome_iff_exists.1 hopen
  have hi' : u.byNode.get? node = some i := by
    rw [h.layout.byNode]
    exact hi
  rw [openFrame_eq_of_some hi, openFrame_eq_of_some hi']
  exact ⟨rfl, h⟩

end ScopeTree.Agrees

/-! ### Symbol tables -/

/-- The tables have symbols of the same types and kinds, and classes with the same bases. -/
structure SymbolTable.Agrees (t u : SymbolTable) : Prop where
  /-- The types are the same. -/
  types : u.types = t.types
  /-- The kinds are the same. -/
  kinds : ∀ fqn, u.kindOf? fqn = t.kindOf? fqn
  /-- The bases are the same. -/
  bases : ∀ c, u.basesOf c = t.basesOf c

namespace SymbolTable.Agrees

variable {t u : SymbolTable}

/-- In tables that agree symbols have the same types. -/
theorem typeOf (h : t.Agrees u) (fqn : Fqn) : u.typeOf fqn = t.typeOf fqn := by
  rw [typeOf_eq, typeOf_eq, h.types]

/-- In tables that agree the same symbols are classes. -/
theorem isClass (h : t.Agrees u) : u.isClass = t.isClass := by
  funext fqn
  rw [SymbolTable.isClass, SymbolTable.isClass, h.kinds]

/-- In tables that agree the same symbols are declared. -/
theorem declares (h : t.Agrees u) : u.declarations.contains = t.declarations.contains := by
  funext fqn
  have hcontains : ∀ t : SymbolTable, t.declarations.contains fqn = (t.kindOf? fqn).isSome :=
    fun t => by
      rw [kindOf?, Option.isSome_map]
      rfl
  rw [hcontains, hcontains, h.kinds]

/-- In tables that agree classes have the same members. -/
theorem resolveMember? (h : t.Agrees u) (c : Fqn) (name : String) :
    u.hierarchy.resolveMember? c name = t.hierarchy.resolveMember? c name :=
  Hierarchy.resolveMember?_congr (g := u.hierarchy) (h := t.hierarchy) h.bases h.declares c name

/-- In tables that agree types have the same classes. -/
theorem classOf? (h : t.Agrees u) (type : BindingType) : classOf? u type = classOf? t type := by
  rw [Python.classOf?, Python.classOf?, h.isClass]

/-- In tables that agree values have the same members. -/
theorem memberOf? (h : t.Agrees u) (object : Evaluated) (name : String) :
    memberOf? u object name = memberOf? t object name := by
  simp only [Python.memberOf?, h.classOf?, h.resolveMember?]

/-- In tables that agree calls have the same types. -/
theorem callType (h : t.Agrees u) (callee : Evaluated) (written : String) :
    callType u callee written = callType t callee written := by
  simp only [Python.callType, h.kinds, h.typeOf]

/-- In tables that agree instances have the same types. -/
theorem instanceType (h : t.Agrees u) (value : Evaluated) :
    instanceType u value = instanceType t value := by
  simp only [Python.instanceType, h.isClass]

/-- Tables still agree if a symbol is declared in both. -/
theorem declare (h : t.Agrees u) (d : Declaration) : (t.declare d).Agrees (u.declare d) where
  types := by rw [types_declare, types_declare, h.types]
  kinds fqn := by rw [kindOf?_declare, kindOf?_declare, h.kinds]
  bases := h.bases

/-- Tables still agree if a type is set in both. -/
theorem setType (h : t.Agrees u) (fqn : Fqn) (type : BindingType) :
    (t.setType fqn type).Agrees (u.setType fqn type) where
  types := by rw [types_setType, types_setType, h.types]
  kinds fqn' := by rw [kindOf?_setType, kindOf?_setType, h.kinds]
  bases := h.bases

/-- Tables still agree if bases are set in both. -/
theorem setBases (h : t.Agrees u) (c : Fqn) (bases : List Fqn) :
    (t.setBases c bases).Agrees (u.setBases c bases) where
  types := h.types
  kinds := h.kinds
  bases c' := by rw [basesOf_setBases, basesOf_setBases, h.bases]

end SymbolTable.Agrees

/-- An annotation stands for the same type where the names in it mean the same. -/
theorem TypeForm.type_congr {t u : ScopeTree} {symbols symbols' : SymbolTable} (ht : t.Agrees u)
    (h : symbols.Agrees symbols') (scope : Nat) :
    ∀ form : TypeForm, form.type u symbols' scope = form.type t symbols scope
  | .noneType | .unknown => rfl
  | .name text => by simp only [TypeForm.type, nameType, ht.lookup, h.isClass]
  | .path first rest => by simp only [TypeForm.type, pathType, ht.lookup, h.isClass]
  | .optional inner => by rw [TypeForm.type, TypeForm.type, type_congr ht h scope inner]

/-! ### Walks -/

/-- The walks agree on all that is read in a walk. -/
structure Walk.Agrees (w w' : Walk) : Prop where
  /-- The scope trees agree. -/
  scopes : w.scopes.Agrees w'.scopes
  /-- The symbol tables agree. -/
  symbols : w.symbols.Agrees w'.symbols
  /-- The bodies of classes have the same scopes. -/
  classScopes : ∀ c, w'.classScopes.get? c = w.classScopes.get? c

/-- Names mean the same in both walks, apart from the types and bases of what they name. -/
structure Walk.SameMeanings (w w' : Walk) : Prop where
  /-- They are bound to the same. -/
  bindings : ∀ i name, w'.scopes.binding? i name = w.scopes.binding? i name
  /-- The same names are declared `global`. -/
  globals : ∀ i name, w'.scopes.declaresGlobal i name = w.scopes.declaresGlobal i name
  /-- The same names are declared `nonlocal`. -/
  nonlocals : ∀ i name, w'.scopes.declaresNonlocal i name = w.scopes.declaresNonlocal i name
  /-- Functions are methods of the same classes. -/
  methods : ∀ i, w'.scopes.methodClass? i = w.scopes.methodClass? i
  /-- Symbols are of the same kinds. -/
  kinds : ∀ fqn, w'.symbols.kindOf? fqn = w.symbols.kindOf? fqn
  /-- The bodies of classes have the same scopes. -/
  classScopes : ∀ c, w'.classScopes.get? c = w.classScopes.get? c

/-- If names mean the same, then what else is read are the layout, the types and the bases. -/
theorem Walk.SameMeanings.agrees {w w' : Walk} (h : w.SameMeanings w')
    (hlayout : w.scopes.SameLayout w'.scopes) (htypes : w'.symbols.types = w.symbols.types)
    (hbases : ∀ c, w'.symbols.basesOf c = w.symbols.basesOf c) : w.Agrees w' :=
  ⟨⟨hlayout, h.bindings, h.globals, h.nonlocals, h.methods⟩, ⟨htypes, h.kinds, hbases⟩,
    h.classScopes⟩

namespace Walk

/-- A call of `super` finds the first base of the class around the function. -/
theorem superBase?_eq (w : Walk) (scope : Nat) :
    w.superBase? scope =
      (w.scopes.enclosingFunction? scope).bind fun i =>
        (w.scopes.methodClass? i).bind fun c => (w.symbols.basesOf c).head? := by
  rw [superBase?]
  simp only [ScopeTree.methodClass?, ScopeTree.function?, Option.bind_eq_bind, Option.bind_assoc]

/-- A call of `super` gives a base of a class, and any other one what calling its value gives. -/
theorem typeOfCall_induction {P : BindingType → Prop} (w : Walk) (scope : Nat) (callee : Evaluated)
    (written : String) (hbase : ∀ c, ∀ b ∈ w.symbols.basesOf c, P (.resolved b))
    (hcall : P (callType w.symbols callee written)) : P (w.typeOfCall scope callee written) := by
  rw [typeOfCall, superBase?_eq]
  split
  · next base h =>
    split at h
    · obtain ⟨i, -, h⟩ := Option.bind_eq_some_iff.1 h
      obtain ⟨c, -, h⟩ := Option.bind_eq_some_iff.1 h
      exact hbase c base (List.mem_of_head? h)
    · cases h
  · exact hcall

namespace Agrees

variable {w w' : Walk}

/-- Walks that agree read a name as the same value. -/
theorem readName (h : w.Agrees w') (scope : Nat) (word : Word) :
    (w'.readName scope word).1 = (w.readName scope word).1 := by
  simp only [Walk.readName, h.scopes.lookup, h.symbols.typeOf]

/-- Walks that agree read a member as the same value. -/
theorem readMember (h : w.Agrees w') (scope : Nat) (object : Evaluated) (word : Word) :
    (w'.readMember scope object word).1 = (w.readMember scope object word).1 := by
  simp only [Walk.readMember, h.symbols.memberOf?, h.symbols.typeOf]

/-- Walks that agree give calls of any kind the same types. -/
theorem typeOfCall (h : w.Agrees w') (scope : Nat) (callee : Evaluated) (written : String) :
    w'.typeOfCall scope callee written = w.typeOfCall scope callee written := by
  simp only [Walk.typeOfCall, superBase?_eq, h.scopes.enclosingFunction?, h.scopes.methods,
    h.symbols.bases, h.symbols.callType]

/-- Walks that agree bind a name in the same place. -/
theorem bindingPlace (h : w.Agrees w') (scope : Nat) (name : String) :
    w'.bindingPlace scope name = w.bindingPlace scope name := by
  simp only [Walk.bindingPlace, h.scopes.bindingScope, h.scopes.layout.ownerOf]

/-- Walks that agree find the same owner for a member. -/
theorem ownerOf? (h : w.Agrees w') (object : Evaluated) : w'.ownerOf? object = w.ownerOf? object := by
  simp only [Walk.ownerOf?, h.symbols.classOf?, h.classScopes]

/-- Walks that agree have methods of the same classes. -/
theorem methodOwner? (h : w.Agrees w') (scope : Nat) :
    w'.methodOwner? scope = w.methodOwner? scope := by
  simp only [Walk.methodOwner?, h.scopes.layout.kindOf, h.scopes.layout.ownerOf]

/-- Walks with the scopes, symbols and class scopes of walks that agree. -/
theorem congr (h : w.Agrees w') {v v' : Walk} (hscopes : v.scopes = w.scopes)
    (hsymbols : v.symbols = w.symbols) (hclasses : v.classScopes = w.classScopes)
    (hscopes' : v'.scopes = w'.scopes) (hsymbols' : v'.symbols = w'.symbols)
    (hclasses' : v'.classScopes = w'.classScopes) : v.Agrees v' where
  scopes := by rw [hscopes, hscopes']; exact h.scopes
  symbols := by rw [hsymbols, hsymbols']; exact h.symbols
  classScopes := by rw [hclasses, hclasses']; exact h.classScopes

/-- Walks still agree if both declare a symbol. -/
theorem declare (h : w.Agrees w') (d : Declaration) : (w.declare d).Agrees (w'.declare d) :=
  { h with symbols := h.symbols.declare d }

/-- Walks still agree if both bind a name. -/
theorem bind (h : w.Agrees w') (i : Nat) (name : String) (target : NameTarget) :
    (w.bind i name target).Agrees (w'.bind i name target) :=
  { h with scopes := h.scopes.bind i name target }

/-- Walks still agree if both bind a name with a type. -/
theorem bindName (h : w.Agrees w') (scope : Nat) (word : Word) (type : BindingType) :
    (w.bindName scope word type).Agrees (w'.bindName scope word type) := by
  simp only [Walk.bindName, h.bindingPlace, h.scopes.layout.kindOf]
  exact (h.declare _).bind _ _ _

/-- Walks still agree if both assign to a member. -/
theorem assignMember (h : w.Agrees w') (scope : Nat) (object : Evaluated) (word : Word)
    (type : Option BindingType) :
    (w.assignMember scope object word type).Agrees (w'.assignMember scope object word type) := by
  simp only [Walk.assignMember, h.ownerOf?, h.symbols.memberOf?, h.symbols.typeOf]
  split
  · exact (h.declare _).congr rfl rfl rfl rfl rfl rfl
  · exact h.congr rfl rfl rfl rfl rfl rfl

/-- Walks still agree if both declare a parameter. -/
theorem declareParameter (h : w.Agrees w') (scope : Nat) (word : Word) (type : BindingType) :
    (w.declareParameter scope word type).Agrees (w'.declareParameter scope word type) := by
  simp only [Walk.declareParameter, h.scopes.layout.ownerOf]
  exact (h.declare _).bind _ _ _

/-- Opening a node that is open gives the same scope. -/
theorem openScope (h : w.Agrees w') {node : Nat} (hopen : (w.scopes.byNode.get? node).isSome)
    (kind : ScopeKind) (owner : Fqn) (parent : Nat) (span : Span) :
    (w'.openScope node kind owner parent span).1 = (w.openScope node kind owner parent span).1 ∧
      (w.openScope node kind owner parent span).2.Agrees
        (w'.openScope node kind owner parent span).2 :=
  have hframe := h.scopes.openFrame hopen kind owner parent span
  ⟨hframe.1, { h with scopes := hframe.2 }⟩

/-- Walks still agree if both open a function that is open already. -/
theorem openFunction (h : w.Agrees w') (scope : Nat) {header : FunctionHeader}
    (hopen : (w.scopes.byNode.get? header.node).isSome) (place : Nat × Fqn)
    (annotated : Option BindingType) :
    (w'.openFunction scope header place annotated).1 =
        (w.openFunction scope header place annotated).1 ∧
      (w.openFunction scope header place annotated).2.Agrees
        (w'.openFunction scope header place annotated).2 := by
  simp only [Walk.openFunction, h.symbols.typeOf]
  exact ((h.declare _).bind _ _ _).openScope hopen _ _ _ _

/-- Walks that agree write down the same about a function. -/
theorem definedInfo (h : w.Agrees w') (scope : Nat) {header : FunctionHeader}
    (hopen : (w.scopes.byNode.get? header.node).isSome) (place : Nat × Fqn)
    (annotated : Option BindingType) :
    w'.definedInfo scope header place annotated = w.definedInfo scope header place annotated := by
  rw [Walk.definedInfo, Walk.definedInfo,
    (h.openFunction scope hopen place annotated).2.methodOwner?]

/-- Walks still agree if both enter a function that is open already. -/
theorem enterFunction (h : w.Agrees w') (scope : Nat) {f : FunctionBody}
    (hopen : (w.scopes.byNode.get? f.header.node).isSome) (place : Nat × Fqn)
    (annotated : Option BindingType) :
    (w'.enterFunction scope f place annotated).1 = (w.enterFunction scope f place annotated).1 ∧
      (w.enterFunction scope f place annotated).2.Agrees
        (w'.enterFunction scope f place annotated).2 := by
  -- Both walks open the same scope, so they write down the same about it.
  obtain ⟨hinner, hwalk⟩ := h.openFunction scope hopen place annotated
  have hset := hwalk.scopes.setFunction (w.openFunction scope f.header place annotated).1
    (w.definedInfo scope f.header place annotated)
  refine ⟨hinner, ?_, ?_, ?_⟩
  · rw [scopes_enterFunction, scopes_enterFunction, hinner, h.definedInfo scope hopen]
    exact hset
  · rw [symbols_enterFunction, symbols_enterFunction, h.symbols.typeOf]
    exact h.symbols.declare _
  · intro c
    simp only [Walk.enterFunction, classScopes_enqueue]
    exact h.classScopes c

/-- Walks still agree if both enter a class that is open already. -/
theorem enterClass (h : w.Agrees w') (scope : Nat) {c : ClassHeader}
    (hopen : (w.scopes.byNode.get? c.node).isSome) (place : Nat × Fqn) :
    (w.enterClass scope c place).2.Agrees (w'.enterClass scope c place).2 := by
  obtain ⟨hinner, hwalk⟩ := (h.declare
    ⟨place.2, .class, .resolved place.2, place.1, c.word.location⟩).openScope hopen .class place.2
      scope c.span
  refine ⟨hwalk.scopes, hwalk.symbols, fun c' => ?_⟩
  simp only [Walk.enterClass, Table.get?_insert]
  split
  · exact congrArg some hinner
  · exact h.classScopes c'

/-- Walks still agree if both bind an import. -/
theorem bindImport (h : w.Agrees w') (context : ImportContext) (scope : Nat) (b : ImportBinding) :
    (w.bindImport context scope b).Agrees (w'.bindImport context scope b) := by
  simp only [Walk.bindImport, h.scopes.bindingScope]
  exact h.bind _ _ _

/-- The end of a body sets the same type if the same is known about the function, and the same has
been returned. -/
theorem endBody (h : w.Agrees w') {scope : Nat}
    (hfunction : w'.scopes.function? scope = w.scopes.function? scope)
    (hreturned : w'.returned.get? scope = w.returned.get? scope) :
    (w.endBody scope).Agrees (w'.endBody scope) := by
  have heq : (w'.scopes.frame? scope).bind Frame.function =
      (w.scopes.frame? scope).bind Frame.function := hfunction
  rw [Walk.endBody, Walk.endBody, heq, hreturned]
  split
  · split
    · exact h
    · exact { h with symbols := h.symbols.setType _ _ }
  · exact h

end Agrees

end Walk

end Python

end NameAtlas
