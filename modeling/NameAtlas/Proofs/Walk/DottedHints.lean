import Mathlib.Data.List.Induction
import NameAtlas.Proofs.Analysis.WellFormed
import NameAtlas.Proofs.Hierarchy
import NameAtlas.Proofs.Reading.DottedNames
import NameAtlas.Proofs.Rebase.Names

/-!
# Types and references of dotted names

A dotted name that is an annotation is resolved twice. Its type is the symbol below what its first
name stands for, if that symbol is a class, whatever stands between the two. Its references follow
the values: behind each dot they look for a member of the declared type of what stands in front. Both
lead to the same symbol if everything in front of a dot is a class that its name still stands for
(`readHint_dottedName`). Behind a function they do not agree: the type finds a class that is declared
in its body, and the references find nothing (`exists_dottedName_ne`).
-/

namespace NameAtlas.Python

open Source

/-! ### The symbols on a path of names -/

namespace SymbolTable

/-- A class that its name still stands for: no binding has given the name another type. -/
def IsOwnType (t : SymbolTable) (c : Fqn) : Prop := t.isClass c = true ∧ t.typeOf c = .resolved c

instance (t : SymbolTable) (c : Fqn) : Decidable (t.IsOwnType c) :=
  inferInstanceAs (Decidable (_ ∧ _))

/-- Every symbol in front of a dot, on the way from a symbol down some names, is a class that its
name still stands for. -/
def ClassPath (t : SymbolTable) : Fqn → List String → Prop
  | _, [] => True
  | f, name :: rest => t.IsOwnType f ∧ t.ClassPath (f.child name) rest

/-- A path of classes with one more name leads through one more class. -/
theorem classPath_concat {t : SymbolTable} {f : Fqn} {names : List String} {name : String} :
    t.ClassPath f (names ++ [name]) ↔ t.ClassPath f names ∧ t.IsOwnType (f.descendant names) := by
  induction names generalizing f with
  | nil => simp [ClassPath]
  | cons first rest ih =>
    have hbelow : (f.child first).descendant rest = f.descendant (first :: rest) :=
      Fqn.descendant_descendant f [first] rest
    rw [List.cons_append, ClassPath, ClassPath, ih, hbelow, and_assoc]

/-- A class has a member of its own before any that it inherits. -/
theorem resolveMember?_child {t : SymbolTable} {c : Fqn} {name : String}
    (h : t.isClass (c.child name) = true) :
    t.hierarchy.resolveMember? c name = some (c.child name) := by
  have hdeclares : t.hierarchy.declares (c.child name) = true := by
    rw [isClass, kindOf?, decide_eq_true_eq] at h
    obtain ⟨d, hd, -⟩ := Option.map_eq_some_iff.1 h
    exact Option.isSome_of_eq_some hd
  rw [Hierarchy.resolveMember?_eq_some_iff]
  exact ⟨[], c, _, rfl, rfl, hdeclares, fun _ hb => absurd hb List.not_mem_nil⟩

/-- The value of a name that stands for something. -/
def valueOf (t : SymbolTable) (target : NameTarget) : Evaluated :=
  ⟨match target with
    | .declared f => t.typeOf f
    | _ => .unknown, some target⟩

/-- A class that its name still stands for has the classes below it as its members. -/
theorem memberOf?_declared {t : SymbolTable} {c : Fqn} {name : String} (hc : t.IsOwnType c)
    (hbelow : t.isClass (c.child name) = true) :
    memberOf? t (t.valueOf (.declared c)) name = some (.declared (c.child name)) := by
  have hclass : classOf? t (t.valueOf (.declared c)).type = some c := by
    simp [valueOf, classOf?, hc.2, BindingType.fqn?, hc.1]
  rw [memberOf?, hclass]
  exact congrArg (Option.map Member.declared) (resolveMember?_child hbelow)

/-- What is imported has every name below it. -/
theorem memberOf?_imported (t : SymbolTable) (f : Fqn) (name : String) :
    memberOf? t (t.valueOf (.imported f)) name = some (.external (f.child name)) := rfl

end SymbolTable

/-! ### Reading a dotted name -/

namespace NameTarget

/-- What stands behind a dot behind a target, with the names in between. -/
def below (target : NameTarget) (names : List String) : NameTarget :=
  match target with
  | .declared f => .declared (f.descendant names)
  | .imported f => .imported (f.descendant names)
  | .builtin f => .builtin (f.descendant names)

/-- A target has itself below it along no names. -/
theorem below_nil (target : NameTarget) : target.below [] = target := by
  cases target <;> exact congrArg _ (Fqn.descendant_nil _)

/-- True for a target behind which a path of names leads from value to value down to the symbol that
it names: the path stays among classes, or the target is imported. What is built in has no members. -/
def Leads (t : SymbolTable) (names : List String) : NameTarget → Prop
  | .declared f => t.ClassPath f names ∧ (names ≠ [] → t.isClass (f.descendant names) = true)
  | .imported _ => True
  | .builtin _ => names = []

/-- The way to the last name of a path leads on as well. -/
theorem Leads.of_concat {t : SymbolTable} {names : List String} {name : String} {target : NameTarget}
    (h : target.Leads t (names ++ [name])) : target.Leads t names := by
  cases target with
  | declared f =>
    obtain ⟨hpath, hown⟩ := SymbolTable.classPath_concat.1 h.1
    exact ⟨hpath, fun _ => hown.1⟩
  | imported f => trivial
  | builtin f => exact absurd h (List.concat_ne_nil _ _)

end NameTarget

namespace Walk

variable {w : Walk} {scope : Nat} {word : Word} {target : NameTarget}

/-- A name that stands for something is referred to, and has the value of that. -/
theorem readName_of_lookup (h : w.scopes.lookup scope word.text = some target) :
    w.readName scope word = (w.symbols.valueOf target,
      w.refer scope .simpleId (.resolved target.fqn) word.location) := by
  rw [readName, h]
  cases target <;> rfl

/-- Behind a target that leads on, a name behind a dot reads the symbol below. -/
theorem readMember_below {names : List String}
    (h : target.Leads w.symbols (names ++ [word.text])) :
    w.readMember scope (w.symbols.valueOf (target.below names)) word =
      (w.symbols.valueOf (target.below (names ++ [word.text])),
        w.refer scope .attr (.resolved (target.below (names ++ [word.text])).fqn) word.location) := by
  have hbelow (f : Fqn) : (f.descendant names).child word.text =
      f.descendant (names ++ [word.text]) := Fqn.descendant_descendant f names [word.text]
  -- A declared class, an imported name and a built-in have members in different ways.
  cases target with
  | declared f =>
    obtain ⟨hpath, hclass⟩ := h
    have hown := (SymbolTable.classPath_concat.1 hpath).2
    have hmember := SymbolTable.memberOf?_declared hown
      (by rw [hbelow]; exact hclass (List.concat_ne_nil _ _))
    rw [hbelow] at hmember
    simp only [readMember, NameTarget.below, hmember]
    rfl
  | imported f =>
    have hmember := w.symbols.memberOf?_imported (f.descendant names) word.text
    rw [hbelow] at hmember
    simp only [readMember, NameTarget.below, hmember]
    rfl
  | builtin f => exact absurd h (List.concat_ne_nil _ _)

/-- Reading a dotted name whose first name leads on logs one reference for each name, the last of
which is resolved to the symbol that the path names. -/
theorem eval_dottedExpr {first : Word} (hfirst : w.scopes.lookup scope first.text = some target)
    (rest : List Word) (h : target.Leads w.symbols (rest.map Word.text)) :
    ∃ (earlier : Array Reference) (last : Reference),
      eval scope (dottedExpr first rest) w =
        (w.symbols.valueOf (target.below (rest.map Word.text)),
          { w with references := w.references ++ earlier.push last }) ∧
      earlier.size = rest.length ∧ last.location = (rest.getLastD first).location ∧
      last.target = .resolved (target.below (rest.map Word.text)).fqn := by
  -- The induction is on the names from the right, as members are read from the left.
  induction rest using List.reverseRecOn with
  | nil =>
    rw [List.map_nil, NameTarget.below_nil]
    refine ⟨#[], ⟨scope, .simpleId, .resolved target.fqn, first.location⟩, ?_, rfl, rfl, rfl⟩
    rw [dottedExpr, List.foldl_nil, eval, readName_of_lookup hfirst]
    simp [refer]
  | append_singleton rest word ih =>
    rw [List.map_append, List.map_singleton] at h ⊢
    obtain ⟨earlier, last, heval, hsize, -, -⟩ := ih h.of_concat
    let before : Walk := { w with references := w.references ++ earlier.push last }
    let whole := target.below (rest.map Word.text ++ [word.text])
    have hmember : before.readMember scope (w.symbols.valueOf (target.below (rest.map Word.text))) word =
        (w.symbols.valueOf whole, before.refer scope .attr (.resolved whole.fqn) word.location) :=
      readMember_below (w := before) h
    refine ⟨earlier.push last, ⟨scope, .attr, .resolved whole.fqn, word.location⟩, ?_,
      by simp [hsize], by simp, rfl⟩
    rw [dottedExpr, List.foldl_concat, ← dottedExpr, eval, heval]
    refine hmember.trans ?_
    simp [whole, before, refer]

end Walk

/-- A dotted name whose type is a symbol leads to that symbol, if everything in front of its dots is a
class that its name still stands for. -/
theorem leads_of_type_pathForm {scopes : ScopeTree} {t : SymbolTable} {scope : Nat} {first : String}
    {names : List String} {f : Fqn} (h : (pathForm first names).type scopes t scope = .resolved f)
    (hpath : ∀ g, scopes.lookup scope first = some (.declared g) → t.ClassPath g names) :
    ∃ target, scopes.lookup scope first = some target ∧ target.Leads t names ∧
      f = (target.below names).fqn := by
  -- A single name is looked up by itself, and a path goes on from its first name.
  cases names with
  | nil =>
    simp only [pathForm, TypeForm.type, nameType] at h
    simp only [NameTarget.below_nil]
    split at h
    · next g hg =>
      split at h
      · exact ⟨.declared g, hg, ⟨trivial, fun hne => absurd rfl hne⟩, (BindingType.resolved.inj h).symm⟩
      · cases h
    · next g hg => exact ⟨.imported g, hg, trivial, (BindingType.resolved.inj h).symm⟩
    · next g hg =>
      split at h
      · cases h
      · exact ⟨.builtin g, hg, rfl, (BindingType.resolved.inj h).symm⟩
    · cases h
  | cons name rest =>
    simp only [pathForm, TypeForm.type, pathType] at h
    split at h
    · next g hg =>
      split at h
      · next hclass =>
        exact ⟨.declared g, hg, ⟨hpath g hg, fun _ => hclass⟩, (BindingType.resolved.inj h).symm⟩
      · cases h
    · next g hg => exact ⟨.imported g, hg, trivial, (BindingType.resolved.inj h).symm⟩
    · cases h

/-- A type that is known to be a symbol is that symbol. -/
theorem eq_of_known? {type : BindingType} {f : Fqn} (h : type.known? = some (.resolved f)) :
    type = .resolved f := by
  rw [BindingType.known?] at h
  split at h
  · exact Option.some.inj h
  · cases h

/-- If an annotation that is a dotted name has a symbol as its type, each of its names logs a
reference, and the last one is resolved to that symbol: provided that nothing but blanks stands
around its dots, and that everything in front of them is a class that its name still stands for, if
the first name is declared in the file. -/
theorem readHint_dottedName {source : SourceText} {n d : Node} {first : Word} {rest : List Word}
    (hn : Annotates n d) (hd : DottedName source d first rest)
    (htext : Dotted (Part.ofNode source d).text.toList first.text (rest.map Word.text))
    (w : Walk) (scope : Nat) {f : Fqn}
    (htype : (w.readHint scope (Part.ofNode source n).hint?).1 = some (.resolved f))
    (hpath : ∀ g, w.scopes.lookup scope first.text = some (.declared g) →
      w.symbols.ClassPath g (rest.map Word.text)) :
    ∃ (earlier : Array Reference) (last : Reference),
      (w.readHint scope (Part.ofNode source n).hint?).2.references =
        w.references ++ earlier.push last ∧
      earlier.size = rest.length ∧ last.location = (rest.getLastD first).location ∧
      last.target = .resolved f := by
  -- The type and the references are read from one path, the one as a form, the others as an
  -- expression.
  rw [hint?_of_annotates hn hd htext] at htype ⊢
  obtain ⟨target, hfirst, hleads, rfl⟩ := leads_of_type_pathForm (eq_of_known? htype) hpath
  obtain ⟨earlier, last, heval, hlast⟩ := Walk.eval_dottedExpr hfirst rest hleads
  refine ⟨earlier, last, ?_, hlast⟩
  have hread : (w.readHint scope (some (.form (pathForm first.text (rest.map Word.text))
      [dottedExpr first rest]))).2 = (eval scope (dottedExpr first rest) w).2 := rfl
  rw [hread, heval]

/-- A name as the object or the attribute of a dotted name. -/
def partNode (id : Nat) (field : String) (start stop : Nat) : Node :=
  wholeNode id "identifier" field start stop []

/-- A class `B` with nothing in it, from byte 13 to byte 34. -/
def innerClass : Node :=
  wholeNode 4 "class_definition" "" 13 34
    [wholeNode 5 "identifier" "name" 19 20 [],
      wholeNode 6 "block" "body" 30 34 [wholeNode 7 "pass_statement" "" 30 34 []]]

/-- A class inside a class, and an annotation that names it with a blank in front of the dot. -/
def nestedSource : SourceText :=
  .ofString "class A:\n    class B:\n        pass\nx: A .B\n"

/-- The walk over the classes of `nestedSource`. -/
def nestedClasses : Walk :=
  Walk.walks ⟨.root "m", false⟩
    (.ofTree nestedSource
      (wholeNode 0 "module" "" 0 43
        [wholeNode 1 "class_definition" "" 0 34
          [wholeNode 2 "identifier" "name" 6 7 [], wholeNode 3 "block" "body" 13 34 [innerClass]]]))
    1

/-- The annotation `A .B` is the class `B` inside `A`, and its last reference is to that class. -/
theorem readHint_dottedName_nested :
    let d := wholeNode 9 "attribute" "" 38 42 [partNode 10 "object" 38 39, partNode 11 "attribute" 41 42]
    let n := wholeNode 8 "type" "type" 38 42 [d]
    ∃ (earlier : Array Reference) (last : Reference),
      (nestedClasses.readHint 0 (Part.ofNode nestedSource n).hint?).2.references =
        nestedClasses.references ++ earlier.push last ∧
      earlier.size = 1 ∧ last.location = nestedSource.location 41 42 ∧
      last.target = .resolved ⟨["m", "A", "B"]⟩ := by
  intro d n
  let object := partNode 10 "object" 38 39
  let member := partNode 11 "attribute" 41 42
  have hd : DottedName nestedSource d (Part.ofNode nestedSource object).word
      [(Part.ofNode nestedSource member).word] :=
    .member rfl rfl rfl (.name rfl)
  have hobject : (Part.ofNode nestedSource object).word.text = "A" := by decide +kernel
  have hmember : (Part.ofNode nestedSource member).word.text = "B" := by decide +kernel
  have hwhole : (Part.ofNode nestedSource d).text.toList =
      "A".toList ++ [' '] ++ '.' :: ([] ++ "B".toList) := by decide +kernel
  have htext : Dotted (Part.ofNode nestedSource d).text.toList
      (Part.ofNode nestedSource object).word.text
      ([(Part.ofNode nestedSource member).word].map Word.text) := by
    rw [hwhole, List.map_singleton, hobject, hmember]
    exact .member (.name (List.forall_mem_singleton.2 (by decide))) (List.forall_mem_singleton.2 (by decide))
      nofun (List.forall_mem_singleton.2 (by decide))
  -- The class in the class is declared, so the path leads to it.
  refine readHint_dottedName (.inr ⟨rfl, rfl⟩) hd htext nestedClasses 0 (by decide +kernel) ?_
  have hlookup : nestedClasses.scopes.lookup 0 (Part.ofNode nestedSource object).word.text =
      some (.declared ⟨["m", "A"]⟩) := by decide +kernel
  have hown : nestedClasses.symbols.IsOwnType ⟨["m", "A"]⟩ := by decide +kernel
  intro g hg
  obtain rfl := NameTarget.declared.inj (Option.some.inj (hlookup.symm.trans hg))
  exact ⟨hown, trivial⟩

/-- A class in the body of a function, and an annotation that looks for it behind the function. -/
def hiddenSource : SourceText :=
  .ofString "def f():\n    class B:\n        pass\nx: f.B\n"

/-- The walk over the function of `hiddenSource`. -/
def hiddenClass : Walk :=
  Walk.walks ⟨.root "m", false⟩
    (.ofTree hiddenSource
      (wholeNode 0 "module" "" 0 42
        [wholeNode 1 "function_definition" "" 0 34
          [wholeNode 2 "identifier" "name" 4 5 [], wholeNode 12 "parameters" "parameters" 5 7 [],
            wholeNode 3 "block" "body" 13 34 [innerClass]]]))
    1

/-- Behind the walk over `hiddenSource` the annotation `f.B` is the class `B` inside the function `f`,
and its last reference leads nowhere. -/
theorem exists_dottedName_ne :
    ∃ (n d : Node) (first last : Word) (f : Fqn),
      Annotates n d ∧ DottedName hiddenSource d first [last] ∧
        Dotted (Part.ofNode hiddenSource d).text.toList first.text [last.text] ∧
        (hiddenClass.readHint 0 (Part.ofNode hiddenSource n).hint?).1 = some (.resolved f) ∧
        (hiddenClass.readHint 0 (Part.ofNode hiddenSource n).hint?).2.references.back? =
          some ⟨0, .attr, .unresolved last.text, last.location⟩ := by
  let object := partNode 10 "object" 38 39
  let member := partNode 11 "attribute" 40 41
  let d := wholeNode 9 "attribute" "" 38 41 [object, member]
  -- `f` is a function: the annotation finds `B` below it, and the member access does not.
  have hobject : (Part.ofNode hiddenSource object).word.text = "f" := by decide +kernel
  have hmember : (Part.ofNode hiddenSource member).word.text = "B" := by decide +kernel
  have hwhole : (Part.ofNode hiddenSource d).text.toList =
      "f".toList ++ [] ++ '.' :: ([] ++ "B".toList) := by decide +kernel
  refine ⟨wholeNode 8 "type" "type" 38 41 [d], d, (Part.ofNode hiddenSource object).word,
    (Part.ofNode hiddenSource member).word, ⟨["m", "f", "B"]⟩, .inr ⟨rfl, rfl⟩,
    .member rfl rfl rfl (.name rfl), ?_, ?_, ?_⟩
  · rw [hwhole, hobject, hmember]
    exact .member (.name (List.forall_mem_singleton.2 (by decide))) nofun nofun
      (List.forall_mem_singleton.2 (by decide))
  · decide +kernel
  · decide +kernel

/-- A dotted name that goes on behind a line continuation. -/
def continuedSource : SourceText := .ofString "import lib\nx: lib.\\\n  C\n"

/-- The walk over the import of `continuedSource`. -/
def importedLib : Walk :=
  Walk.walks ⟨.root "m", false⟩
    (.ofTree continuedSource
      (wholeNode 0 "module" "" 0 24
        [wholeNode 1 "import_statement" "" 0 10
          [wholeNode 2 "dotted_name" "name" 7 10 [wholeNode 3 "identifier" "" 7 10 []]]]))
    1

/-- Where a line continuation stands behind a dot, it becomes a part of the name in the type, and the
last reference is resolved to another symbol than the type, which is `lib.C`. -/
theorem exists_continuedName_ne :
    ∃ (n d : Node) (first last : Word) (f g : Fqn),
      Annotates n d ∧ DottedName continuedSource d first [last] ∧
        (importedLib.readHint 0 (Part.ofNode continuedSource n).hint?).1 = some (.resolved f) ∧
        (importedLib.readHint 0 (Part.ofNode continuedSource n).hint?).2.references.back? =
          some ⟨0, .attr, .resolved g, last.location⟩ ∧
        g = ⟨["lib", "C"]⟩ ∧ f ≠ g := by
  let object := partNode 10 "object" 14 17
  let member := partNode 12 "attribute" 22 23
  let d := wholeNode 9 "attribute" "" 14 23
    [object, wholeNode 11 "line_continuation" "" 18 20 [], member]
  -- The text of the hint holds the line break, and the member does not.
  refine ⟨wholeNode 8 "type" "type" 14 23 [d], d, (Part.ofNode continuedSource object).word,
    (Part.ofNode continuedSource member).word, ⟨["lib", "\\\n  C"]⟩, ⟨["lib", "C"]⟩,
    .inr ⟨rfl, rfl⟩, .member rfl rfl rfl (.name rfl), ?_, ?_, rfl, ?_⟩
  · decide +kernel
  · decide +kernel
  · decide

end NameAtlas.Python
