import BoxDiagram.Proofs.Patch.Deletion
import BoxDiagram.Proofs.Picture.Agreement

/-!
# Remainders: what a patch leaves of a canonical text

Whatever the labels hold, and whichever lines pass for the connection of a key, a patch of a canonical
text takes away whole statements of edges (`WellFormed.exists_of_stripKey`). What is left is the text
of the graph with fewer edges, so it is always compiled, and every other element is kept
(`patch_removes_connections`).
-/

namespace BoxDiagram

open Patch

namespace Graph

variable {g : Graph} {k : EdgeKey}

/-- **A patched text is the canonical text without some edges**, and describes the graph without
them. -/
theorem WellFormed.exists_of_stripKey (h : g.WellFormed) {key : String}
    (hk : Key.parse key = .ok (.edge k)) {patched : String}
    (hstrip : stripKey (Statement.print g.canonical) k = some patched) :
    ∃ es g', es.Sublist g.edges ∧ es ≠ g.edges ∧
      patched = Statement.print (g.withEdges es).canonical ∧
      compile patched = .ok g' ∧ g'.Reorders (g.withEdges es) := by
  obtain ⟨hsource, htarget⟩ := Key.isObjectPath_of_parse_edge hk
  rw [h.stripKey_canonical (isEndpoint_join hsource.isPath) (isEndpoint_join htarget.isPath)] at hstrip
  split_ifs at hstrip with hleft
  obtain rfl := Option.some.inj hstrip
  have hsub := g.textuallyLeft_sublist k
  obtain ⟨g', hcompile, hreorders⟩ := (h.withEdges hsub.subset).exists_reorders
  exact ⟨_, g', hsub, hleft, rfl, hcompile, hreorders⟩

/-- **A patch can only remove connections.** Whenever the key of a connection finds something in the
canonical text of a well-formed graph, the patched text consists of the same statements in the same
order but for one or more statements of edges, each left out whole. It is always compiled, to the
graph with the edges that are left, and this is what the removal gives; so no removal ends with a text
that is not compiled. -/
theorem patch_removes_connections {b : Backend} {key : String} (h : g.WellFormed)
    (hk : Key.parseEdge key = .ok k) (hb : b.compile = Backend.standard.compile) :
    (∀ patched, stripKey (Statement.print g.canonical) k = some patched →
      ∃ es, es.Sublist g.edges ∧ es ≠ g.edges ∧
        patched = Statement.print
          (g.boardStatements ++ Tree.statementsAll g.forest ++ es.map Edge.statement) ∧
        ∃ g', compile patched = .ok g' ∧ g'.Reorders (g.withEdges es) ∧
          Record.deleteTextually b g key = .ok g') ∧
    ∀ reason text, Record.deleteTextually b g key ≠ .error (.patchNotCompiled reason text) := by
  have hparse : Key.parse key = .ok (.edge k) := Key.parseEdge_eq_ok_iff.mp hk
  refine ⟨fun patched hstrip => ?_, fun reason text hdel => ?_⟩
  · obtain ⟨es, g', hsub, hne, hpatched, hcompile, hreorders⟩ := h.exists_of_stripKey hparse hstrip
    exact ⟨es, hsub, hne, hpatched.trans (congrArg Statement.print (canonical_withEdges es)), g',
      hcompile, hreorders, Record.deleteTextually_of_stripKey hk hb hstrip hcompile⟩
  · cases hstrip : stripKey (Statement.print g.canonical) k with
    | none =>
      rw [Record.deleteTextually_of_stripKey_eq_none hk hstrip] at hdel
      cases hdel
    | some patched =>
      obtain ⟨-, g', -, -, -, hcompile, -⟩ := h.exists_of_stripKey hparse hstrip
      rw [Record.deleteTextually_of_stripKey hk hb hstrip hcompile] at hdel
      cases hdel

/-- Two edges between objects, with labels that hold braces, quotes and lines that read like
connections. -/
def braced : Graph where
  objects := [.blank "a", (Object.blank "b").withAttributes (.ofList [("label", "\x7d\na -> b")])]
  edges := [⟨"a", "b", .forward, .ofList [("label", "\x7b\""), ("tooltip", "\\\x7d")]⟩,
    ⟨"b", "a", .both, .ofList [("label", "a -> b: \x7b")]⟩]
  board := ∅
  statements := none

/-- The connection is taken out with its block, and the other edge is left. -/
theorem patch_removes_connections_braced : braced.WellFormed ∧
    Key.parseEdge "a -> b" = .ok ⟨["a"], ["b"], .forward, none, []⟩ ∧
    ∃ patched g', stripKey (Statement.print braced.canonical) ⟨["a"], ["b"], .forward, none, []⟩ =
      some patched ∧ compile patched = .ok g' ∧
        g'.Reorders (braced.withEdges [⟨"b", "a", .both, .ofList [("label", "a -> b: \x7b")]⟩]) := by
  have hwell : braced.WellFormed := by decide +kernel
  have hparse : Key.parseEdge "a -> b" = .ok ⟨["a"], ["b"], .forward, none, []⟩ := by decide +kernel
  have hrun : ((stripKey (Statement.print braced.canonical) ⟨["a"], ["b"], .forward, none, []⟩).bind
      fun patched => (compile patched).toOption).map (·.edges) =
    some [⟨"b", "a", .both, .ofList [("label", "a -> b: \x7b")]⟩] := by
    decide +kernel
  obtain ⟨l, hl, hedges⟩ := Option.map_eq_some_iff.mp hrun
  obtain ⟨patched, hstrip, hcompile⟩ := Option.bind_eq_some_iff.mp hl
  obtain ⟨es, -, -, -, g', hcompile', hreorders, -⟩ :=
    (patch_removes_connections (b := .standard) hwell hparse rfl).1 patched hstrip
  obtain rfl : g' = l := Except.ok.inj (hcompile'.symm.trans (toOption_eq_some_iff.mp hcompile))
  obtain rfl : g'.edges = es := hreorders.edges
  rw [hedges] at hreorders
  exact ⟨hwell, hparse, patched, g', hstrip, hcompile', hreorders⟩

end Graph

end BoxDiagram
