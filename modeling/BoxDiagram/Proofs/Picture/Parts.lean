import BoxDiagram.Picture.Paint
import BoxDiagram.Proofs.Picture.Markup

/-!
# The parts of a picture

Whatever a graph holds, the names of the elements in its picture and those of their attributes can stand
in tags (`tagNamed_document`). An object and an edge are painted as one group each (`groups_object`,
`groups_edge`), and the background and the arrow heads as none.
-/

namespace BoxDiagram

open Text

theorem Element.tagNamed_ofAttributes {name : String} {attributes : List (String × String)}
    {children : List Element} (hname : IsTagName name) (h : ∀ a ∈ attributes, IsTagName a.1)
    (hchildren : ∀ e ∈ children, e.TagNamed) : (ofAttributes name attributes children).TagNamed := by
  unfold ofAttributes
  refine tagNamed_tag.mpr ⟨hname, fun n hn => ?_, hchildren⟩
  obtain ⟨⟨k, v⟩, ha, rfl⟩ := List.mem_map.mp hn
  exact h (k, v) (TextMap.mem_of_get?_ofList (TextMap.mem_entries_iff.mp ha))

namespace Paint

open Element

variable {palette : Palette}

/-! ### Names -/

theorem tagNamed_label (text : String) (x y : Float) (colour : String) (size : Float) :
    (label text x y colour size).TagNamed :=
  tagNamed_ofAttributes (by decide) (by simp +decide) (by simp [tagNamed_text])

theorem tagNamed_outline (b : Box) (palette : Palette) : ∀ e ∈ outline b palette, e.TagNamed := by
  unfold outline
  dsimp only
  split_ifs
  · exact nofun
  all_goals
    exact List.forall_mem_singleton.mpr
      (tagNamed_ofAttributes (by decide) (by simp +decide) nofun)

theorem tagNamed_object (b : Box) (palette : Palette) : (object b palette).TagNamed := by
  refine tagNamed_ofAttributes (by decide) ?_ (List.forall_mem_append.mpr
    ⟨tagNamed_outline b palette, List.forall_mem_singleton.mpr (tagNamed_label _ _ _ _ _)⟩)
  cases b.object.attributes.get? "style.opacity" <;> simp +decide

theorem tagNamed_edge (e : Edge) (source target : Rect) (palette : Palette) :
    (edge e source target palette).TagNamed := by
  refine tagNamed_ofAttributes (by decide) (by simp +decide) (List.forall_mem_cons.mpr ⟨?_, ?_⟩)
  · refine tagNamed_ofAttributes (by decide) ?_ nofun
    cases e.attributes.get? "style.stroke-dash" <;> split_ifs <;> simp +decide
  · cases e.label? <;> simp [tagNamed_label]

theorem tagNamed_background (palette : Palette) : (background palette).TagNamed :=
  tagNamed_ofAttributes (by decide) (by simp +decide) nofun

theorem tagNamed_definitions (palette : Palette) : (definitions palette).TagNamed := by
  have harrow : ∀ id path refX, (arrowHead id path refX palette).TagNamed := fun id path refX =>
    tagNamed_ofAttributes (by decide) (by simp +decide) (List.forall_mem_singleton.mpr
      (tagNamed_ofAttributes (by decide) (by simp +decide) (by simp)))
  exact tagNamed_ofAttributes (by decide) (by simp) (by simp [harrow])

theorem tagNamed_objects (g : Graph) (l : Layout) (pending : List String) :
    ∀ e ∈ objects g l palette pending, e.TagNamed := by
  induction pending using objects.induct g with
  | case1 => rw [objects]; exact nofun
  | case2 id pending ih =>
    rw [objects, List.forall_mem_append]
    refine ⟨fun e he => ?_, ih⟩
    rw [Option.mem_toList] at he
    unfold object? at he
    split at he
    · exact Option.some.inj he ▸ tagNamed_object _ _
    · cases he

/-- **The names in a picture can stand in tags**, whatever the graph holds. -/
theorem tagNamed_document {w : Writer} (hw : w.Lawful) (g : Graph) (palette : Palette) :
    (document w g palette).TagNamed := by
  refine tagNamed_ofAttributes (by decide) (List.forall_mem_append.mpr ⟨hw.names, by simp +decide⟩)
    (List.forall_mem_append.mpr ⟨?_, ?_⟩)
  · exact List.forall_mem_cons.mpr ⟨tagNamed_background palette,
      List.forall_mem_cons.mpr ⟨tagNamed_definitions palette, tagNamed_objects g _ _⟩⟩
  · intro group hgroup
    obtain ⟨e, -, he⟩ := List.mem_filterMap.mp hgroup
    unfold edge? at he
    split at he
    · exact Option.some.inj he ▸ tagNamed_edge _ _ _ _
    · cases he

/-! ### Groups -/

theorem groups_label (text : String) (x y : Float) (colour : String) (size : Float) :
    (label text x y colour size).groups = [] := by
  simp [label, ofAttributes, groups, groupsAll]

theorem groups_outline (b : Box) (palette : Palette) : groupsAll (outline b palette) = [] := by
  unfold outline
  dsimp only
  split_ifs <;> simp [ofAttributes, groups, groupsAll]

theorem groups_object (b : Box) (palette : Palette) :
    (object b palette).groups = [(some "shape", some b.object.id)] := by
  unfold object ofAttributes
  rw [groups, groupsAll_eq, List.flatMap_append, ← groupsAll_eq, groups_outline]
  cases b.object.attributes.get? "style.opacity" <;>
    simp [groups_label, TextMap.ofList, TextMap.get?_insert]

theorem groups_edge (e : Edge) (source target : Rect) (palette : Palette) :
    (edge e source target palette).groups = [(some "connection", some e.publicId)] := by
  unfold edge ofAttributes
  dsimp only
  rw [groups, groupsAll_eq]
  cases e.label? <;>
    simp [groups, groupsAll, groups_label, TextMap.ofList, TextMap.get?_insert]

theorem groups_background (palette : Palette) : (background palette).groups = [] := by
  simp [background, ofAttributes, groups, groupsAll]

theorem groups_definitions (palette : Palette) : (definitions palette).groups = [] := by
  simp [definitions, arrowHead, ofAttributes, groups, groupsAll]

end Paint

end BoxDiagram
