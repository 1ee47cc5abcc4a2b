import BoxDiagram.Picture.Paint
import BoxDiagram.Picture.Svg
import BoxDiagram.Proofs.Graph.Regeneration

/-!
# Pictures of graphs that agree

Boxes are measured and placed along the children, and objects are painted along them, so a picture
shows the order among siblings and nothing else of the order in which objects were declared
(`draw_congr`). A graph whose objects are only interleaved in another way has the same children under
each parent, and with them the same picture (`Reorders.draw_eq`). The canonical text gives such a graph,
so writing a diagram anew never changes its picture (`draw_regenerated`).
-/

namespace BoxDiagram

namespace Graph

variable {g k : Graph}

section Congruence

variable (hchildren : ∀ parent, k.children parent = g.children parent)
  (hfind : ∀ id, k.find? id = g.find? id)
include hchildren

theorem place_congr (horizontal : Bool) (sizes : Layout.Sizes) (id : String) : ∀ corner rects,
    Layout.place k horizontal sizes corner rects id =
      Layout.place g horizontal sizes corner rects id := by
  induction id using k.childInduction with
  | h id ih =>
    intro corner rects
    rw [Layout.place_eq, Layout.place_eq, Layout.placeAll, Layout.placeAll, ← hchildren]
    refine congrArg Prod.snd (List.foldl_ext _ _ _ fun state c hc => ?_)
    obtain ⟨corner, rects⟩ := state
    exact congrArg (Prod.mk _) (ih c hc corner rects)

theorem placeAll_congr (horizontal : Bool) (sizes : Layout.Sizes) :
    Layout.placeAll k horizontal sizes = Layout.placeAll g horizontal sizes := by
  funext corner rects ids
  unfold Layout.placeAll
  simp only [place_congr hchildren]

include hfind

theorem measure_congr (horizontal : Bool) (id : String) : ∀ sizes,
    Layout.measure k horizontal sizes id = Layout.measure g horizontal sizes id := by
  induction id using k.childInduction with
  | h id ih =>
    intro sizes
    rw [Layout.measure_eq, Layout.measure_eq, hfind, ← hchildren]
    have hbelow : (k.children (some id)).foldl (Layout.measure k horizontal) sizes =
        (k.children (some id)).foldl (Layout.measure g horizontal) sizes :=
      List.foldl_ext _ _ _ fun sizes c hc => ih c hc sizes
    rw [hbelow]

theorem layout_congr (hboard : k.board = g.board) : Layout.ofGraph k = Layout.ofGraph g := by
  have hmeasure : ∀ horizontal, Layout.measure k horizontal = Layout.measure g horizontal :=
    fun horizontal => funext fun sizes => funext fun id =>
      measure_congr hchildren hfind horizontal id sizes
  unfold Layout.ofGraph Layout.isHorizontal
  simp only [hboard, hchildren, hmeasure, placeAll_congr hchildren]

theorem paintObjects_congr (l : Layout) (palette : Palette) (pending : List String) :
    Paint.objects k l palette pending = Paint.objects g l palette pending := by
  induction pending using Paint.objects.induct k with
  | case1 => rw [Paint.objects, Paint.objects]
  | case2 id pending ih =>
    have hobject : Paint.object? k l palette id = Paint.object? g l palette id := by
      unfold Paint.object?
      rw [hfind, hchildren]
    rw [Paint.objects, Paint.objects, ih, hobject, hchildren]

/-- **The picture depends on the children of each parent**, on what their ids stand for, on the edges
and on the board. -/
theorem draw_congr (hedges : k.edges = g.edges) (hboard : k.board = g.board) (w : Writer)
    (palette : Palette) : k.draw w palette = g.draw w palette := by
  unfold draw Paint.document
  simp only [layout_congr hchildren hfind hboard, paintObjects_congr hchildren hfind, hchildren,
    hedges]

end Congruence

section Integral
variable (h : g.Integral)
include h

theorem Reorders.find?_eq (hk : k.Reorders g) (id : String) : k.find? id = g.find? id := by
  cases hfind : k.find? id with
  | none =>
    refine (List.find?_eq_none.mpr fun o ho => ?_).symm
    exact List.find?_eq_none.mp hfind o ((hk.objects o).mpr ho)
  | some o =>
    have hid : o.id = id := by simpa using List.find?_some hfind
    rw [← hid, h.find?_eq ((hk.objects o).mp (List.mem_of_find?_eq_some hfind))]

/-- **A graph with reordered objects looks the same.** -/
theorem Reorders.draw_eq (hk : k.Reorders g) (w : Writer) (palette : Palette) :
    k.draw w palette = g.draw w palette :=
  draw_congr hk.children (hk.find?_eq h) hk.edges hk.board w palette

end Integral

/-- **Writing a diagram anew never changes its picture**; and in general, however the objects of a
well-formed graph are interleaved, its picture is the same, whatever writes the pictures. -/
theorem draw_regenerated (h : g.WellFormed) (w : Writer) :
    (∃ k, compile (Statement.print g.canonical) = .ok k ∧
      ∀ palette, k.draw w palette = g.draw w palette) ∧
    ∀ k : Graph, k.Reorders g → ∀ palette, k.draw w palette = g.draw w palette := by
  have hlooks : ∀ k : Graph, k.Reorders g → ∀ palette, k.draw w palette = g.draw w palette :=
    fun k hk palette => hk.draw_eq h.toIntegral w palette
  obtain ⟨k, hcompile, hk⟩ := h.exists_reorders
  exact ⟨⟨k, hcompile, hlooks k hk⟩, hlooks⟩

/-- Two trees of objects, one after the other, with an edge between them. -/
def grouped : Graph where
  objects := [.blank "app", (Object.blank "app.db").withAttributes (.ofList [("shape", "circle")]),
    .blank "app.web", .blank "user", .blank "user.phone"]
  edges := [⟨"user.phone", "app.db", .both, .ofList [("label", "reads")]⟩]
  board := .ofList [("direction", "right")]
  statements := none

/-- The same trees, with their objects interleaved and children in front of their parents. -/
def scattered : Graph :=
  { grouped with
    objects := [.blank "user.phone",
      (Object.blank "app.db").withAttributes (.ofList [("shape", "circle")]), .blank "app",
      .blank "user", .blank "app.web"] }

theorem reorders_scattered : scattered.Reorders grouped where
  objects o := by simp [scattered, grouped]; tauto
  children parent := by
    have hparents : ∀ k ∈ [scattered, grouped], ∀ o ∈ k.objects,
        o.parent? ∈ [none, some "app", some "user"] := by decide +kernel
    by_cases hmem : parent ∈ [none, some "app", some "user"]
    · revert parent
      decide +kernel
    · have hnone : ∀ k ∈ [scattered, grouped], k.children parent = [] := fun k hk => by
        unfold children childObjects
        rw [List.map_eq_nil_iff, List.filter_eq_nil_iff]
        exact fun o ho heq => hmem (of_decide_eq_true heq ▸ hparents k hk o ho)
      rw [hnone scattered (by simp), hnone grouped (by simp)]
  edges := rfl
  board := rfl

theorem draw_regenerated_scattered : grouped.WellFormed ∧ scattered.WellFormed ∧
    scattered.Reorders grouped ∧ scattered.ids ≠ grouped.ids ∧
    (∃ k, compile (Statement.print grouped.canonical) = .ok k ∧
      ∀ palette, k.draw .svg palette = grouped.draw .svg palette) ∧
    ∀ palette, scattered.draw .svg palette = grouped.draw .svg palette := by
  have hgrouped : grouped.WellFormed := by decide +kernel
  have hscattered : scattered.WellFormed := by decide +kernel
  obtain ⟨hregenerated, hreordered⟩ := draw_regenerated hgrouped .svg
  exact ⟨hgrouped, hscattered, reorders_scattered, by decide, hregenerated,
    hreordered scattered reorders_scattered⟩

end Graph

end BoxDiagram
