import NameAtlas.Proofs.Walk.Names
import NameAtlas.Proofs.Walk.Outline

/-!
# Types never steer the walk

Two analyses of one parse tree, whatever the paths, the modules and the numbers of passes, make the
same findings, open the same scopes and read the same references; only owners of scopes and targets
of references depend on the module. That is the equality of their outlines
(`Walk.outline_walks`), read off the facts about the file. The walks behind the first one open
nothing and queue nothing (`Walk.OpensNothing`), and every walk reads the body of every function
once (`Walk.ReadsEachBodyOnce`).
-/

namespace NameAtlas.Python

open Source

/-- An analysis that is not called off gives the facts about the module of the tree. -/
theorem analyze_eq_ok (path : String) (module : Fqn) (text : String) (tree : Node) (passes : Nat) :
    analyze ⟨passes, false⟩ ⟨path, module, text, some tree⟩ =
      .ok (analyzeModule path module (Module.ofTree (.ofString text) tree) passes) := rfl

/-- The facts about a module are those of the walk behind the silent ones. -/
theorem analyzeModule_eq (path : String) (module : Fqn) (m : Module) (passes : Nat) :
    analyzeModule path module m passes =
      factsOf path module m
        (Walk.walks (.ofPath path module) m (m.silentWalks (.ofPath path module) passes + 1)) := by
  rw [analyzeModule, finalWalk_eq]

/-! ### Sorted logs -/

/-- Shapes keep their places in the sorted references, as the order looks at locations only. -/
theorem map_shape_sortReferences (references : List Reference) :
    (sortReferences references).map Reference.shape =
      (references.map Reference.shape).mergeSort
        fun a b => a.location.startsNoLater b.location :=
  List.map_mergeSort fun _ _ _ _ => rfl

namespace Walk

/-- What the facts about a module show of the outline of the last walk. -/
theorem factsOf_outline (path : String) (module : Fqn) (m : Module) (w : Walk) :
    (factsOf path module m w).scopes.map LocalScope.shape = w.outline.scopes ∧
      (factsOf path module m w).references.map Reference.shape =
        w.outline.references.mergeSort (fun a b => a.location.startsNoLater b.location) ∧
      (factsOf path module m w).findings =
        sortFindings (w.outline.findings ++ syntaxFindings m) :=
  ⟨rfl, map_shape_sortReferences _, rfl⟩

/-- True if a walk that begins at `w` and ends at `w'` opens no scope and queues no function. -/
structure OpensNothing (w w' : Walk) : Prop where
  /-- The scopes are the same. -/
  scopes : w'.scopes.scopes = w.scopes.scopes
  /-- The nodes that have scopes are the same. -/
  byNode : w'.scopes.byNode = w.scopes.byNode
  /-- The queue is the same. -/
  queue : w'.queue = w.queue

/-- True if a walk over a module that begins at `w` and ends at `w'` reads the code of the module
and then the body of every function in it, each once. -/
structure ReadsEachBodyOnce (context : ImportContext) (m : Module) (w w' : Walk) : Prop where
  /-- The bodies that are read are those in the queue. -/
  foldl : w' = w'.queue.foldl (visitBody context)
    (visitAll context ScopeTree.moduleScope m.body w.clearLog)
  /-- No body is in the queue twice. -/
  nodup : (w'.queued.map fun f => f.header.node).Nodup
  /-- The bodies in the queue are those of the functions in the module. -/
  mem_iff : ∀ f, f ∈ w'.queued ↔ m.Reaches f

variable (context : ImportContext) (m : Module)

/-- Behind the first walk no scope is opened and no function is queued. -/
theorem opensNothing_walks {k : Nat} (hk : 1 ≤ k) :
    (walks context m k).OpensNothing (walks context m (k + 1)) := by
  have hlayout := sameLayout_walks_succ context m hk
  refine ⟨hlayout.scopes, hlayout.byNode, ?_⟩
  obtain ⟨k, rfl⟩ : ∃ n, k = n + 1 := ⟨k - 1, by omega⟩
  exact (grows_walks_succ context m (k + 1)).queue_eq (by
    rw [queued_walks_succ, queued_walks_succ])

/-- Every walk reads the code of the module and the body of each of its functions once. -/
theorem readsEachBodyOnce_walks (hm : (definitionsOf m.body).Nodup) (k : Nat) :
    ReadsEachBodyOnce context m (walks context m k) (walks context m (k + 1)) where
  foldl := walks_succ_eq_foldl context m k
  nodup := by
    rw [queued_walks_succ]
    exact m.nodup_bodies
  mem_iff f := by
    rw [queued_walks_succ]
    exact Module.mem_bodies_iff hm f

end Walk

/-- The findings, the shapes of the scopes and those of the references do not depend on the path,
the module or the number of passes; the owners of the scopes depend on the module alone. An analysis
ends with the walk behind its silent ones, every walk but the first opens nothing, and every walk
reads the body of each function once, as the nodes of a parse tree are distinct. -/
theorem analyze_shape (text : String) (tree : Node) (path path' : String) (module module' : Fqn)
    (passes passes' : Nat) :
    let m := Module.ofTree (.ofString text) tree
    let context := ImportContext.ofPath path module
    ∃ a b, analyze ⟨passes, false⟩ ⟨path, module, text, some tree⟩ = .ok a ∧
      analyze ⟨passes', false⟩ ⟨path', module', text, some tree⟩ = .ok b ∧
      a.findings = b.findings ∧
      a.scopes.map LocalScope.shape = b.scopes.map LocalScope.shape ∧
      a.references.map Reference.shape = b.references.map Reference.shape ∧
      (module = module' → a.scopes.map LocalScope.owner = b.scopes.map LocalScope.owner) ∧
      a = factsOf path module m (Walk.walks context m (m.silentWalks context passes + 1)) ∧
      (∀ k, 1 ≤ k → (Walk.walks context m k).OpensNothing (Walk.walks context m (k + 1))) ∧
      (tree.DistinctIds → ∀ k,
        Walk.ReadsEachBodyOnce context m (Walk.walks context m k)
          (Walk.walks context m (k + 1))) := by
  intro m context
  have hsilent := m.silentWalks_pos context passes
  have hsilent' := m.silentWalks_pos (.ofPath path' module') passes'
  -- The outlines of both last walks are one, and the facts show them.
  have houtline := Walk.outline_walks context (.ofPath path' module') m hsilent hsilent'
  obtain ⟨hscopes, hreferences, hfindings⟩ := Walk.factsOf_outline path module m
    (Walk.walks context m (m.silentWalks context passes + 1))
  obtain ⟨hscopes', hreferences', hfindings'⟩ := Walk.factsOf_outline path' module' m
    (Walk.walks (.ofPath path' module') m (m.silentWalks (.ofPath path' module') passes' + 1))
  rw [houtline] at hscopes hreferences hfindings
  refine ⟨_, _, (analyze_eq_ok _ _ _ _ _).trans (congrArg _ (analyzeModule_eq _ _ _ _)),
    (analyze_eq_ok _ _ _ _ _).trans (congrArg _ (analyzeModule_eq _ _ _ _)),
    hfindings.trans hfindings'.symm, hscopes.trans hscopes'.symm,
    hreferences.trans hreferences'.symm, fun hmodule => ?_, rfl,
    fun k hk => Walk.opensNothing_walks context m hk,
    fun htree k => Walk.readsEachBodyOnce_walks context m (nodup_definitions _ htree) k⟩
  exact congrArg _ (Walk.scopes_walks m hmodule (by omega) (by omega))

/-- A node of a tree without marks of broken syntax. -/
def wholeNode (id : Nat) (kind field : String) (start stop : Nat) (children : List Node) : Node :=
  .mk ⟨id, kind, field, start, stop, true, false, false⟩ children

/-- A function inside a function. -/
def innerFunctionSource : String := "def f():\n    def g():\n        return 1\n    return g()\n"

/-- The tree of `innerFunctionSource`. -/
def innerFunctionTree : Node :=
  wholeNode 0 "module" "" 0 54
    [wholeNode 1 "function_definition" "" 0 53
      [wholeNode 2 "identifier" "name" 4 5 [], wholeNode 3 "parameters" "parameters" 5 7 [],
        wholeNode 4 "block" "body" 13 53
          [wholeNode 5 "function_definition" "" 13 38
            [wholeNode 6 "identifier" "name" 17 18 [], wholeNode 7 "parameters" "parameters" 18 20 [],
              wholeNode 8 "block" "body" 30 38
                [wholeNode 9 "return_statement" "" 30 38 [wholeNode 10 "integer" "" 37 38 []]]],
            wholeNode 11 "return_statement" "" 43 53
              [wholeNode 12 "call" "" 50 53
                [wholeNode 13 "identifier" "function" 50 51 [],
                  wholeNode 14 "argument_list" "arguments" 51 53 []]]]]]

/-- Its nodes are distinct, so every walk reads both bodies once, the inner one behind the outer one;
under another path the file makes the same findings and opens the same scopes. -/
theorem analyze_shape_innerFunction :
    let m := Module.ofTree (.ofString innerFunctionSource) innerFunctionTree
    let context := ImportContext.ofPath "m.py" (.root "m")
    (∃ a b,
      analyze ⟨0, false⟩ ⟨"m.py", .root "m", innerFunctionSource, some innerFunctionTree⟩ = .ok a ∧
      analyze ⟨8, false⟩ ⟨"pkg/n.py", ⟨["pkg", "n"]⟩, innerFunctionSource,
        some innerFunctionTree⟩ = .ok b ∧
      a.findings = b.findings ∧ a.scopes.map LocalScope.shape = b.scopes.map LocalScope.shape) ∧
    (Walk.walks context m 1).queued.map (fun f => f.header.node) = [1, 5] ∧
    ∀ k, Walk.ReadsEachBodyOnce context m (Walk.walks context m k) (Walk.walks context m (k + 1)) := by
  intro m context
  -- The clause on distinct nodes is the last one; the owners are left out, as the modules differ.
  obtain ⟨a, b, ha, hb, hfindings, hscopes, -, -, -, -, hreads⟩ := analyze_shape innerFunctionSource
    innerFunctionTree "m.py" "pkg/n.py" (.root "m") ⟨["pkg", "n"]⟩ 0 8
  exact ⟨⟨a, b, ha, hb, hfindings, hscopes⟩, by decide +kernel, hreads (by decide)⟩

end NameAtlas.Python
