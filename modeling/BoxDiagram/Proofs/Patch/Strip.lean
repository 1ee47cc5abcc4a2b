import BoxDiagram.Proofs.Graph.Regeneration
import BoxDiagram.Proofs.Patch.Block

/-!
# Stripping: what is left of a canonical text

The lines of a canonical text that pass for connections are lines of edges: all other statements are
declarations at every depth, and no line of a declaration begins with an arrow in it
(`Finds.lines`). So what is left after stripping is the canonical text of the graph with fewer edges
(`strip_canonical`), and it is compiled to that graph (`compile_withEdges`).
-/

namespace BoxDiagram

open Text Patch

/-! ### Declarations -/

/-- A statement that declares objects and attributes only, at every depth. -/
inductive Statement.IsDeclaration : Statement → Prop
  | intro {path : List String} {value : Option String} {block : Option (List Statement)}
      (isPath : IsPath path) (inner : ∀ t ∈ block.getD [], t.IsDeclaration) :
      IsDeclaration ⟨.declaration path, value, block⟩

theorem Statement.isDeclaration_assignment {name value : String}
    (h : Attribute.IsValid name value) :
    (Statement.assignment (Dotted.segments name) value).IsDeclaration :=
  .intro (Attribute.isPath_of_nameOf h.named) nofun

theorem Statement.isDeclaration_ofBody {path : List String} {value : Option String}
    {body : List Statement} (hpath : IsPath path) (hbody : ∀ s ∈ body, s.IsDeclaration) :
    (Statement.ofBody (.declaration path) value body).IsDeclaration := by
  refine .intro hpath fun t ht => ?_
  split_ifs at ht
  · simp at ht
  · exact hbody t ht

theorem Attributes.isDeclaration_statements {m : Attributes} (h : Attributes.Valid m) :
    ∀ s ∈ Attributes.statements m, s.IsDeclaration := by
  intro s hs
  obtain ⟨e, he, rfl⟩ := List.mem_map.mp hs
  exact Statement.isDeclaration_assignment (h e (Attributes.mem_of_mem_settings he))

namespace Patch

/-- The test tells the lines of edges with a property from all lines that no arrow stands in. -/
structure Finds (isDeclaring : List Char → Bool) (p : Edge → Bool) (es : List Edge) : Prop where
  plain : ∀ cs rest, Arrow.Free cs → ColonLed rest → isDeclaring (cs ++ rest) = false
  edge : ∀ e ∈ es, ∀ rest, ColonLed rest → isDeclaring (edgeText e ++ rest) = p e

variable {isDeclaring : List Char → Bool} {isChosen : Nat → Bool} {p : Edge → Bool}
  {es : List Edge}

section Found
variable (h : Finds isDeclaring p es)
include h

theorem Finds.closing (level : Nat) :
    isDeclaring (trim (Statement.indent level ++ "\x7d").toList) = false := by
  have hfree : Arrow.Free ['\x7d'] := Arrow.cut_snd_eq_nil_iff.mp (by decide)
  have htrim : trim (Statement.indent level ++ "\x7d").toList = ['\x7d'] ++ [] := by
    rw [String.toList_append, trim_append_of_blank (isBlank_of_mem_indent level)]
    decide
  rw [htrim]
  exact h.plain _ _ hfree (by simp [ColonLed])

theorem Finds.innerLines {s : Statement} {level : Nat} (hinner : ∀ t ∈ s.block.getD [],
      Overlooked isDeclaring ((Statement.lines (level + 1) t).map String.toList)) :
    Overlooked isDeclaring ((Statement.innerLines level s).map String.toList) :=
  Statement.forall_mem_innerLines hinner (h.closing level)

/-- **No line of a declaration passes for a connection.** -/
theorem Finds.lines {s : Statement} (hs : s.IsDeclaration) :
    ∀ level, Overlooked isDeclaring ((Statement.lines level s).map String.toList) := by
  induction hs with
  | @intro path value block isPath inner ih =>
    intro level
    have hhead : Head.WellFormed (.declaration path) := isPath
    obtain ⟨rest, hrest, hbody⟩ := Statement.exists_body ⟨.declaration path, value, block⟩
    rw [Statement.map_lines]
    refine List.forall_mem_cons.mpr ⟨?_, h.innerLines fun t ht => ih t ht (level + 1)⟩
    rw [trim_firstLine (s := ⟨.declaration path, value, block⟩) hhead, hbody]
    exact h.plain _ _ isPath.free hrest

end Found

/-! ### Edges -/

/-- The edges that are left if, of those with a property, the chosen ones are removed. `seen` is the
number of edges with the property so far. -/
def leftEdges (p : Edge → Bool) (isChosen : Nat → Bool) (seen : Nat) : List Edge → List Edge
  | [] => []
  | e :: es =>
    if p e then
      if isChosen seen then leftEdges p isChosen (seen + 1) es
      else e :: leftEdges p isChosen (seen + 1) es
    else e :: leftEdges p isChosen seen es

theorem leftEdges_sublist (seen : Nat) (es : List Edge) :
    (leftEdges p isChosen seen es).Sublist es := by
  induction es generalizing seen with
  | nil => exact List.Sublist.slnil
  | cons e es ih =>
    unfold leftEdges
    split_ifs
    · exact (ih _).cons e
    · exact (ih _).cons_cons e
    · exact (ih _).cons_cons e

theorem render_edge (e : Edge) : e.statement.head.render.toList = edgeText e := by
  show (Head.renderChain [Dotted.join (Dotted.segments e.source),
    Dotted.join (Dotted.segments e.target)] [e.arrow]).toList = edgeText e
  rw [Dotted.join_segments, Dotted.join_segments, Head.toList_renderChain_cons,
    Head.renderChain_singleton]
  rfl

theorem block_edge (e : Edge) : e.statement.block.getD [] = Attributes.statements e.attributes := by
  unfold Edge.statement Statement.ofBody
  dsimp only
  split_ifs with hnil
  · exact hnil.symm
  · rfl

/-- **Of the lines of edges, those of the edges that are left are kept.** -/
theorem kept_edges : ∀ {es : List Edge} (_ : Finds isDeclaring p es) (_ : ∀ e ∈ es,
    e.statement.WellFormed ∧ Attributes.Valid e.attributes) (seen : Nat),
    kept isDeclaring isChosen seen 0
        ((Statement.linesAll 0 (es.map Edge.statement)).map String.toList) =
      (Statement.linesAll 0 ((leftEdges p isChosen seen es).map Edge.statement)).map String.toList
  | [], _, _, _ => by simp [leftEdges, Statement.linesAll, kept]
  | e :: es, hfinds, hall, seen => by
    obtain ⟨⟨he, hvalid⟩, hes⟩ := List.forall_mem_cons.mp hall
    have htail : Finds isDeclaring p es :=
      ⟨hfinds.plain, fun e' he' => hfinds.edge e' (List.mem_cons_of_mem e he')⟩
    have hhead : e.statement.head.WellFormed := by
      obtain ⟨head, -⟩ := he
      exact head
    have hline : isDeclaring (e.statement.body.toList ++ e.statement.marker.text) = p e := by
      obtain ⟨rest, hrest, hbody⟩ := Statement.exists_body e.statement
      rw [hbody, render_edge]
      exact hfinds.edge e List.mem_cons_self rest hrest
    have hinner : Overlooked isDeclaring ((Statement.innerLines 0 e.statement).map String.toList) :=
      hfinds.innerLines fun t ht => by
        rw [block_edge] at ht
        exact hfinds.lines (Attributes.isDeclaration_statements hvalid t ht) 1
    rw [List.map_cons, Statement.linesAll, List.map_append, leftEdges]
    split_ifs with hp hchosen
    · rw [kept_of_chosen he (hline.trans hp) hchosen, kept_edges htail hes]
    · rw [kept_of_not_chosen hhead hinner fun _ => by simpa using hchosen, hline, if_pos hp,
        kept_edges htail hes, List.map_cons, Statement.linesAll, List.map_append]
    · rw [kept_of_not_chosen hhead hinner fun hd => absurd (hline.symm.trans hd) hp, hline,
        if_neg hp, kept_edges htail hes, List.map_cons, Statement.linesAll, List.map_append]

end Patch

/-! ### Canonical texts -/

namespace Graph

/-- The graph with other edges. -/
def withEdges (g : Graph) (es : List Edge) : Graph := { g with edges := es }

variable {g : Graph}

theorem forest_withEdges (es : List Edge) : (g.withEdges es).forest = g.forest :=
  forest_congr fun _ => rfl

theorem preorder_withEdges (es : List Edge) : (g.withEdges es).preorder = g.preorder := by
  unfold preorder
  rw [forest_withEdges]

theorem canonical_withEdges (es : List Edge) : (g.withEdges es).canonical =
    g.boardStatements ++ Tree.statementsAll g.forest ++ es.map Edge.statement := by
  unfold canonical
  rw [forest_withEdges]
  rfl

/-- The lines of the canonical text. -/
def canonicalLines (g : Graph) : List (List Char) :=
  (Statement.linesAll 0 g.canonical).map String.toList

theorem canonicalLines_withEdges (es : List Edge) : (g.withEdges es).canonicalLines =
    (Statement.linesAll 0 (g.boardStatements ++ Tree.statementsAll g.forest)).map String.toList ++
      (Statement.linesAll 0 (es.map Edge.statement)).map String.toList := by
  unfold canonicalLines
  rw [canonical_withEdges, Statement.linesAll_append 0 (_ ++ _), List.map_append]

theorem textOfLines_canonicalLines (g : Graph) :
    Statement.textOfLines (g.canonicalLines.map String.ofList) = Statement.print g.canonical := by
  unfold canonicalLines Statement.print
  rw [List.map_map]
  simp [Function.comp_def]

theorem length_canonicalLines_eq_iff {es : List Edge} (hes : es.Sublist g.edges) :
    (g.withEdges es).canonicalLines.length = g.canonicalLines.length ↔ es = g.edges := by
  have hsame : g.withEdges g.edges = g := rfl
  constructor
  · intro hlength
    have hle := Statement.length_linesAll_add_le 0 (hes.map Edge.statement)
    have hshorter : es.length ≤ g.edges.length := hes.length_le
    rw [← hsame, canonicalLines_withEdges, canonicalLines_withEdges] at hlength
    simp only [List.length_append, List.length_map, hsame] at hlength hle
    exact hes.eq_of_length (by omega)
  · rintro rfl
    rw [hsame]

section WellFormed
variable (h : g.WellFormed)
include h

theorem WellFormed.withEdges {es : List Edge} (hes : es ⊆ g.edges) :
    (g.withEdges es).WellFormed where
  nodup := h.nodup
  parents := h.parents
  endpoints e he := h.endpoints e (hes he)
  named := h.named
  attributed := ⟨h.attributed.board, h.attributed.objects, fun e he =>
    h.attributed.edges e (hes he)⟩

/-- **What is left is compiled** to the graph with the edges that are left, with its objects in the
order of the forest. -/
theorem WellFormed.compile_withEdges {es : List Edge} (hes : es ⊆ g.edges) :
    compile (Statement.print (g.withEdges es).canonical) =
      .ok ⟨g.preorder, es, g.board, some (g.withEdges es).canonical⟩ := by
  rw [(h.withEdges hes).compile_print_canonical, preorder_withEdges]
  rfl

theorem WellFormed.isDeclaration_tree {o : Object} (ho : o ∈ g.objects) :
    (g.tree o).statement.IsDeclaration := by
  induction o using g.treeInduction with
  | h o ih =>
    have hname : IsPath [o.name] := isPath_singleton (h.isId ho).leaf.toIsName
    rw [statement_tree]
    refine Statement.isDeclaration_ofBody hname (List.forall_mem_append.mpr
      ⟨Attributes.isDeclaration_statements (h.attributed.objects o ho), fun s hs => ?_⟩)
    obtain ⟨c, hc, rfl⟩ := List.mem_map.mp hs
    exact ih c hc (mem_childObjects.mp hc).1

theorem WellFormed.isDeclaration_front :
    ∀ s ∈ g.boardStatements ++ Tree.statementsAll g.forest, s.IsDeclaration := by
  unfold boardStatements forest
  rw [statementsAll_eq_map, List.map_map]
  refine List.forall_mem_append.mpr ⟨fun s hs => ?_, fun s hs => ?_⟩
  · obtain ⟨e, he, rfl⟩ := List.mem_map.mp hs
    exact Statement.isDeclaration_assignment (h.attributed.board e he)
  · obtain ⟨o, ho, rfl⟩ := List.mem_map.mp hs
    exact h.isDeclaration_tree (mem_childObjects.mp ho).1

theorem WellFormed.lines_print_canonical :
    Text.lines (Statement.print g.canonical).toList = g.canonicalLines :=
  Statement.lines_print h.wellFormed_canonical

/-- **Of the lines of a canonical text**, those of edges that are found and chosen are removed. -/
theorem WellFormed.kept_canonicalLines {isDeclaring : List Char → Bool} {p : Edge → Bool}
    (isChosen : Nat → Bool) (hfinds : Finds isDeclaring p g.edges) :
    kept isDeclaring isChosen 0 0 g.canonicalLines =
      (g.withEdges (leftEdges p isChosen 0 g.edges)).canonicalLines := by
  have hedges : ∀ e ∈ g.edges, e.statement.WellFormed ∧ Attributes.Valid e.attributes :=
    fun e he => ⟨h.wellFormed_edge he, fun a ha => (h.attributed.edges e he a ha).toIsValid⟩
  have hfront : Overlooked isDeclaring ((Statement.linesAll 0
      (g.boardStatements ++ Tree.statementsAll g.forest)).map String.toList) :=
    Statement.forall_mem_linesAll fun s hs => hfinds.lines (h.isDeclaration_front s hs) 0
  calc kept isDeclaring isChosen 0 0 g.canonicalLines
      = kept isDeclaring isChosen 0 0 (g.withEdges g.edges).canonicalLines := rfl
    _ = _ := by
      rw [canonicalLines_withEdges, canonicalLines_withEdges, kept_append hfront,
        kept_edges hfinds hedges]

/-- **Stripping a canonical text removes edges**: those whose lines are found and chosen, and nothing
else. There is nothing to strip exactly if no edge is removed. -/
theorem WellFormed.strip_canonical {isDeclaring : List Char → Bool} {p : Edge → Bool}
    (isChosen : Nat → Bool) (hfinds : Finds isDeclaring p g.edges) :
    strip isDeclaring isChosen (Statement.print g.canonical) =
      if leftEdges p isChosen 0 g.edges = g.edges then none
      else some (Statement.print (g.withEdges (leftEdges p isChosen 0 g.edges)).canonical) := by
  have hsub : (leftEdges p isChosen 0 g.edges).Sublist g.edges := leftEdges_sublist 0 g.edges
  have hlength := length_canonicalLines_eq_iff hsub
  unfold strip
  simp only [h.lines_print_canonical, h.kept_canonicalLines isChosen hfinds, hlength,
    textOfLines_canonicalLines]

end WellFormed

end Graph

end BoxDiagram
