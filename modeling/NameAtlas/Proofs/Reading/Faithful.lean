import NameAtlas.Proofs.Reading.Operations
import NameAtlas.Proofs.Walk.Faithful

/-!
# What is read from a tree

A node adds its own word or that of a child to what is read from its children, and only statements
that import bind other names. So if the names of all nodes are of one sort (`Part.Worded`), everything
that a walk over the tree does takes its words from that sort (`takes_program`).
-/

namespace NameAtlas.Python

open Source

variable {source : SourceText} {W : Word → Prop} {I : ImportBinding → Prop}

namespace Part

/-- The kinds of nodes with the fields in which a name stands. -/
def wordFields : List (String × String) :=
  [("attribute", "attribute"), ("named_expression", "name"), ("function_definition", "name"),
    ("class_definition", "name")]

/-- A part whose names are of `W`: the part itself, if it is a name, and what fills its fields for
names. -/
structure Worded (W : Word → Prop) (p : Part) : Prop where
  /-- A name. -/
  identifier : p.kind = "identifier" → W p.word
  /-- What fills a field for names. -/
  member : ∀ c ∈ p.children, (p.kind, c.info.field) ∈ wordFields → W c.word

/-- What fills a field for names. -/
theorem Worded.field {p : Part} (hp : p.Worded W) {c : Part} {name : String}
    (hc : p.field? name = some c) (hname : (p.kind, name) ∈ wordFields) : W c.word := by
  have hfield : c.info.field = name := by simpa using List.find?_some hc
  exact hp.member c (mem_children_of_field? hc) (by rwa [hfield])

/-- A part whose names are of `W` takes what it adds from the tree. -/
theorem Worded.adds {p : Part} (hp : p.Worded W) (himports : ∀ b ∈ p.importBindings, I b) :
    p.Adds (takesClass W I) where
  -- Every word of the part is taken from the source, whatever the part adds it for.
  name hkind := ⟨hp.identifier hkind, hp.identifier hkind, hp.identifier hkind⟩
  member hkind c hc :=
    have hword := hp.field hc (by rw [hkind]; decide)
    ⟨hword, hword, hword⟩
  walrus hkind c hc := hp.field hc (by rw [hkind]; decide)
  function hkind c hc :=
    have hword := hp.field hc (by rw [hkind]; decide)
    ⟨fun _ => hword, fun f hf => (hf ▸ hword : W f.header.word)⟩
  classes hkind c hc :=
    have hword := hp.field hc (by rw [hkind]; decide)
    ⟨fun _ => hword, fun h hh => (hh ▸ hword : W h.word), hword⟩
  imports := himports
  reports _ _ _ _ := trivial

end Part

/-- Whatever the statements of a tree do is taken from the tree. -/
theorem takes_ofTree {source : SourceText} {tree : Node}
    (h : ∀ n ∈ tree.subtrees, (Part.ofNode source n).Worded W) :
    Takes W (fun b => ∃ n ∈ tree.subtrees, b ∈ (Part.ofNode source n).importBindings)
      (operationsOf (Module.ofTree source tree).body) :=
  OpClass.hasAll_ofTree fun n hn => (h n hn).adds fun _ hb => ⟨n, hn, hb⟩

/-- Whatever a walk over a tree does is taken from the tree. -/
theorem takes_program {source : SourceText} {tree : Node}
    (h : ∀ n ∈ tree.subtrees, (Part.ofNode source n).Worded W) :
    ∀ a ∈ (Module.ofTree source tree).program, a.op.Takes W fun b =>
      ∃ n ∈ tree.subtrees, b ∈ (Part.ofNode source n).importBindings :=
  fun a ha => takes_ofTree h a.op (Module.op_mem_operationsOf ha)

/-- The words of a walk over a tree are those of the source. -/
theorem faithful_program (source : SourceText) (tree : Node) :
    ∀ a ∈ (Module.ofTree source tree).program, a.op.Faithful source fun b =>
      ∃ n ∈ tree.subtrees, b ∈ (Part.ofNode source n).importBindings := by
  have hword (n : Node) : (Part.ofNode source n).word.Faithful source := by
    rw [Word.Faithful, Part.text_ofNode, Part.location_ofNode]
    rfl
  refine takes_program fun n _ => ⟨fun _ => hword n, fun c hc _ => ?_⟩
  rw [Part.children_ofNode] at hc
  obtain ⟨m, -, rfl⟩ := List.mem_map.1 hc
  exact hword m

end NameAtlas.Python
