import NameAtlas.Proofs.Analysis.WellFormed
import NameAtlas.Proofs.Reading.Layout

/-!
# Layout changes nothing

Taking comments and line continuations out of a parse tree leaves the analysis as it is, wherever
the children of the node above them are read by their fields (`analyze_erase`). Comments can always be
taken out (`analyze_erase_comments`). A line continuation among children that are read by their
places is taken for one of them and reported (`exists_analyze_erase_ne`).
-/

namespace NameAtlas

namespace Python

open Source

/-- An analysis does not depend on the comments and line continuations that the tree passes over. -/
theorem analyze_erase (options : AnalysisOptions) (path : String) (module : Fqn) (text : String)
    (tree : Node) (drop : NodeInfo → Bool) (hpasses : ∀ t ∈ tree.subtrees, t.PassesOver drop)
    (hroot : tree.KeepsListed drop) :
    analyze options ⟨path, module, text, some (tree.erase drop)⟩ =
      analyze options ⟨path, module, text, some tree⟩ := by
  have hmodule := Module.ofTree_erase (.ofString text) hpasses hroot
  simp only [analyze, hmodule]

/-- The tree of a sum that goes on in the next line, with a comment behind it. -/
def continuedSum : Node :=
  wholeNode 0 "module" "" 0 23
    [wholeNode 1 "expression_statement" "" 0 15
      [wholeNode 2 "assignment" "" 0 15
        [wholeNode 3 "identifier" "left" 0 1 [],
          wholeNode 4 "binary_operator" "right" 4 15
            [wholeNode 5 "integer" "left" 4 5 [], wholeNode 6 "line_continuation" "" 8 10 [],
              wholeNode 7 "integer" "right" 14 15 []]]],
      wholeNode 8 "comment" "" 17 22 []]

/-- The sum is analyzed as if it stood in one line without the comment. -/
theorem analyze_erase_continuedSum :
    ((continuedSum.erase NodeInfo.isTrivia).infos.map NodeInfo.id) = [0, 1, 2, 3, 4, 5, 7] ∧
      analyze ⟨8, false⟩ ⟨"m.py", .root "m", "x = 1 + \\\n    2  # sum\n",
          some (continuedSum.erase NodeInfo.isTrivia)⟩ =
        analyze ⟨8, false⟩ ⟨"m.py", .root "m", "x = 1 + \\\n    2  # sum\n", some continuedSum⟩ :=
  ⟨by decide, analyze_erase _ _ _ _ _ _ (by decide) (by decide)⟩

/-- An analysis does not depend on comments. -/
theorem analyze_erase_comments (options : AnalysisOptions) (path : String) (module : Fqn)
    (text : String) (tree : Node)
    (hcomments : ∀ t ∈ tree.subtrees, ∀ c ∈ t.children, isComment c.info → c.isTrivia) :
    analyze options ⟨path, module, text, some (tree.erase isComment)⟩ =
      analyze options ⟨path, module, text, some tree⟩ := by
  have hmodule := Module.ofTree_erase (.ofString text)
    (fun t ht => passesOver_comments (hcomments t ht)) (keepsListed_comments tree)
  simp only [analyze, hmodule]

/-- The tree of a call whose arguments go on in the next line. -/
def continuedCall : Node :=
  wholeNode 0 "module" "" 0 12
    [wholeNode 1 "expression_statement" "" 0 11
      [wholeNode 2 "call" "" 0 11
        [wholeNode 3 "identifier" "function" 0 1 [],
          wholeNode 4 "argument_list" "arguments" 1 11
            [wholeNode 5 "identifier" "" 2 3 [], wholeNode 6 "line_continuation" "" 5 7 [],
              wholeNode 7 "identifier" "" 9 10 []]]]]

/-- A line continuation between arguments is reported, so the analysis depends on it. -/
theorem exists_analyze_erase_ne :
    ∃ (text : String) (tree : Node),
      (∀ t ∈ tree.subtrees, ∀ c ∈ t.children, c.info.isTrivia → c.isTrivia) ∧
      analyze ⟨8, false⟩ ⟨"t.py", .root "root", text, some (tree.erase NodeInfo.isTrivia)⟩ ≠
        analyze ⟨8, false⟩ ⟨"t.py", .root "root", text, some tree⟩ := by
  refine ⟨"f(a, \\\n  b)\n", continuedCall, by decide, fun hsame => ?_⟩
  rw [analyze_eq_ok, analyze_eq_ok] at hsame
  have hfindings := congrArg (fun facts => facts.findings.length) (Except.ok.inj hsame)
  exact absurd hfindings (by decide +kernel)

end Python

end NameAtlas
