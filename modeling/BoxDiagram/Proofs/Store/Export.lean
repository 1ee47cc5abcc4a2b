import BoxDiagram.Proofs.Picture.Agreement
import BoxDiagram.Proofs.Run
import BoxDiagram.Proofs.Statement.Joined
import BoxDiagram.Proofs.Store.Coherence

/-!
# Exports: the picture of a text and the picture of a graph

A store that exports a diagram does not draw the graph that it keeps: it draws the text, which is read
and compiled once more. The graph that a text gives is the one that is kept, up to the order in which
objects are declared (`exists_compile_of_coherent`), unless a renaming has put an arrow into an id. So
the picture is that of the graph, except that a text of blanks is not drawn, although it is the text of
the diagram without elements (`exportPicture_of_run`).
-/

namespace BoxDiagram

namespace Graph

variable {g : Graph}

/-- **What is sound and holds no arrow is well formed.** -/
theorem Sound.wellFormed (h : g.Sound) (hfree : ∀ o ∈ g.objects, Arrow.occursIn o.id = false) :
    g.WellFormed := by
  refine ⟨h.toIntegral, fun id hid => ?_, h.attributed⟩
  obtain ⟨o, ho, rfl⟩ := List.mem_map.mp hid
  exact isId_of_free (h.segments o.id hid) (Arrow.occursIn_eq_false_iff.mp (hfree o ho))

/-- **A text of blanks gives the graph without elements.** -/
theorem compile_of_isMissing {text : String} (h : Request.isMissing text = true) :
    compile text = .ok (withStatements ∅ (some [])) :=
  compile_eq_ok_iff.mpr ⟨[], Statement.parse_of_blank (of_decide_eq_true h), rfl⟩

theorem Reorders.isEmpty {k : Graph} (h : k.Reorders g) (hk : k.objects = []) (hedges : k.edges = [])
    (hboard : k.board = ∅) : g.objects = [] ∧ g.edges = [] ∧ g.board = ∅ := by
  refine ⟨List.eq_nil_iff_forall_not_mem.mpr fun o ho => ?_, h.edges ▸ hedges, h.board ▸ hboard⟩
  have hmem : o ∈ k.objects := (h.objects o).mpr ho
  rw [hk] at hmem
  exact List.not_mem_nil hmem

end Graph

namespace Store

variable {s : Store} {l : Log} {r : Record}

/-- **Loading and edits keep graphs sound and printed**, also where a graph is rebuilt. -/
theorem kept_sound : Kept Backend.MayCrash fun _ _ r => r.graph.Sound ∧ r.graph.Printed where
  loaded := by
    intro b hb id text g hcompile
    have hstandard := contain_compile_standard.mp ((hb.compile text).of_contain hcompile)
    exact ⟨(Graph.wellFormed_of_compile hstandard).sound, Graph.printed_of_compile hstandard⟩
  edited := by
    rintro b hb id l r request x ⟨hsound, -⟩ hx
    rcases Record.graph_of_apply hb hx with ⟨newKey, hperform⟩ | ⟨text, hcompile⟩
    · have hchange := Graph.result?_edit_of_perform hperform
      exact ⟨hsound.change hchange, Graph.printed_of_change hchange⟩
    · exact ⟨(Graph.wellFormed_of_compile hcompile).sound, Graph.printed_of_compile hcompile⟩

/-- **The text of a coherent record gives its graph**, up to the order of the objects. -/
theorem exists_compile_of_coherent (h : Coherent l r) (hg : r.graph.WellFormed)
    (hprinted : r.graph.Printed) : ∃ k, compile r.text = .ok k ∧ k.Reorders r.graph := by
  cases hsession : r.session with
  | none => exact ⟨r.graph, (h.loaded hsession).1, .refl _⟩
  | some session =>
    obtain ⟨-, ss, hss, htext⟩ := h.edited session hsession
    refine Graph.exists_reorders_of_format hg hprinted ?_
    rw [Graph.format, hss, htext]
    rfl

theorem exportPicture_of_serialize {w : Writer} {name text : String} {theme : Int} {palette : Palette}
    {k : Graph} (hserialize : s.serialize (.writing w) false name = .ok text)
    (htheme : Palette.ofTheme theme = .ok palette) (hcompile : compile text = .ok k) :
    s.exportPicture (.writing w) false name .svg theme =
      if Request.isMissing text then .error .missingText else .ok (k.draw w palette).toUTF8 := by
  have hrender : renderPicture w Converter.preferred text .svg theme =
      .ok (k.draw w palette).toUTF8 := by
    unfold renderPicture
    rw [htheme, ok_bind, hcompile]
    rfl
  unfold exportPicture render
  rw [hserialize, ok_bind]
  split_ifs with hmissing
  · rfl
  · show (renderPicture w Converter.preferred text .svg theme).mapError StoreError.notRendered = _
    rw [hrender]
    rfl

/-- **What is exported is what is stored**, if it is exported. Whatever calls are made, and whichever
of them crash: as long as no id of a diagram holds an arrow, its export is the picture of the graph
that is kept, whichever writer makes a text of it, unless the text is blank. Such an export is refused,
though the diagram is there: it is the one without elements. -/
theorem exportPicture_of_run (attempts : List Attempt) (h : ∀ a ∈ attempts, a.backend.MayCrash)
    {name : String} {r : Record} (hr : (run ∅ attempts).1.record? name = some r)
    (hfree : ∀ o ∈ r.graph.objects, Arrow.occursIn o.id = false) (w : Writer) {theme : Int}
    {palette : Palette} (htheme : Palette.ofTheme theme = .ok palette) :
    (run ∅ attempts).1.exportPicture (.writing w) false name .svg theme =
        (if Request.isMissing r.text then .error .missingText
          else .ok (r.graph.draw w palette).toUTF8) ∧
      (Request.isMissing r.text = true →
        r.graph.objects = [] ∧ r.graph.edges = [] ∧ r.graph.board = ∅) := by
  obtain ⟨l, -, hid, hcoherent⟩ := (agrees_of_run kept_coherent h).exists_log hr
  obtain ⟨-, -, hsound, hprinted⟩ := (agrees_of_run kept_sound h).exists_log hr
  have hg : r.graph.WellFormed := hsound.wellFormed hfree
  have hserialize := serialize_of_coherent hcoherent (mayCrash_writing w) hid hr
  obtain ⟨k, hcompile, hk⟩ := exists_compile_of_coherent hcoherent hg hprinted
  -- the text gives a reordering of the graph that is kept: the same picture, and empty together
  constructor
  · rw [exportPicture_of_serialize hserialize htheme hcompile, hk.draw_eq hg.toIntegral]
  · intro hmissing
    obtain rfl : Graph.withStatements ∅ (some []) = k :=
      Except.ok.inj ((Graph.compile_of_isMissing hmissing).symm.trans hcompile)
    exact hk.isEmpty rfl rfl rfl

/-- One diagram is edited, also through its text; from the other one, the only object is deleted. -/
def emptying : List Attempt :=
  [⟨.load " d " "a -> b", .standard, false⟩, ⟨.load "e" "a", .standard, false⟩,
    ⟨.execute ⟨"d", [], "a", .rename "c"⟩, .standard, false⟩,
    ⟨.execute ⟨"d", [], "c -> b", .delete⟩, crashing, false⟩,
    ⟨.execute ⟨"e", [], "a", .delete⟩, .standard, false⟩]

/-- The first diagram is exported as it is kept; the second one is there, but is not exported. -/
theorem exportPicture_of_run_emptying : ∃ palette, Palette.ofTheme 0 = .ok palette ∧
    (∃ r, (run ∅ emptying).1.record? " d " = some r ∧ r.graph.ids = ["c", "b"] ∧
      (run ∅ emptying).1.exportPicture .standard false " d " .svg 0 =
        .ok (r.graph.draw .svg palette).toUTF8) ∧
    ∃ r, (run ∅ emptying).1.record? "e" = some r ∧ r.graph.objects = [] ∧
      (run ∅ emptying).1.exportPicture .standard false "e" .svg 0 = .error .missingText := by
  have hbackends : ∀ a ∈ emptying, a.backend.MayCrash := by
    simp [emptying, mayCrash_standard, mayCrash_crashing]
  have hkept : ((run ∅ emptying).1.record? " d ").map
    (fun r => (r.graph.ids, Request.isMissing r.text)) = some (["c", "b"], false) := by decide +kernel
  have hemptied : ((run ∅ emptying).1.record? "e").map
    (fun r => (r.graph.ids, Request.isMissing r.text)) = some ([], true) := by decide +kernel
  obtain ⟨palette, htheme⟩ : ∃ palette, Palette.ofTheme 0 = .ok palette := ⟨_, rfl⟩
  refine ⟨palette, htheme, ?kept, ?emptied⟩
  case kept =>
    obtain ⟨r, hr, hseen⟩ := Option.map_eq_some_iff.mp hkept
    obtain ⟨hids, hmissing⟩ := Prod.mk.inj hseen
    have hfree : ∀ id ∈ r.graph.ids, Arrow.occursIn id = false := by
      rw [hids]
      decide
    have hexport := (exportPicture_of_run emptying hbackends hr
      (fun o ho => hfree o.id (Graph.mem_ids_of_mem ho)) .svg htheme).1
    rw [hmissing, if_neg Bool.false_ne_true] at hexport
    exact ⟨r, hr, hids, hexport⟩
  case emptied =>
    obtain ⟨r, hr, hseen⟩ := Option.map_eq_some_iff.mp hemptied
    obtain ⟨hids, hmissing⟩ := Prod.mk.inj hseen
    have hnone : r.graph.objects = [] := List.map_eq_nil_iff.mp hids
    have hexport := (exportPicture_of_run emptying hbackends hr (by simp [hnone]) .svg htheme).1
    rw [hmissing, if_pos rfl] at hexport
    exact ⟨r, hr, hnone, hexport⟩

end Store

end BoxDiagram
