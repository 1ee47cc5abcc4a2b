import BoxDiagram.Proofs.Graph.Forest
import BoxDiagram.Proofs.Graph.WellFormed
import BoxDiagram.Proofs.Picture.Parts
import BoxDiagram.Proofs.Picture.Svg

/-!
# Painting: each element once, containers beneath their contents

Painting takes ids from a stack until nothing is pending, and skips what has no object or no rectangle.
It passes the preorder of the forest of objects, whatever the graph (`objects_roots`). In an integral
graph nothing is skipped: the table of rectangles has one for each object (`Integral.exists_rect?`), and
so for both ends of each edge. What is painted first lies beneath: in preorder an object comes before
what is inside it, and siblings come in the order of their declaration, each with all that is inside it
(`pairwise_preorder`). All of it together, as it is read from the text of the picture, is
`painted_once`.
-/

namespace BoxDiagram

open Dotted
open scoped List

/-! ### The table of rectangles -/

namespace Layout

variable {g : Graph} {horizontal : Bool} {sizes : Sizes} {corner : Float × Float} {rects : Rects}
  {id k : String} {ids : List String}

theorem placeAll_cons : placeAll g horizontal sizes corner rects (id :: ids) =
    placeAll g horizontal sizes (nextCorner horizontal (sizeAt sizes id) corner)
      (place g horizontal sizes corner rects id) ids := rfl

theorem contains_placeAll (h : ∀ c ∈ ids, ∀ corner rects, rects.contains k = true →
      (place g horizontal sizes corner rects c).contains k = true)
    (hk : rects.contains k = true) :
    (placeAll g horizontal sizes corner rects ids).contains k = true := by
  induction ids generalizing corner rects with
  | nil => exact hk
  | cons c ids ih =>
    obtain ⟨hc, hids⟩ := List.forall_mem_cons.mp h
    rw [placeAll_cons]
    exact ih hids (hc _ _ hk)

/-- Rectangles are added and never lost. -/
theorem contains_place (id : String) : ∀ corner rects, rects.contains k = true →
    (place g horizontal sizes corner rects id).contains k = true := by
  induction id using g.childInduction with
  | h id ih =>
    intro corner rects hk
    rw [place_eq]
    exact contains_placeAll ih (TextMap.contains_insert.mpr (Or.inr hk))

theorem contains_place_self : (place g horizontal sizes corner rects id).contains id = true := by
  rw [place_eq]
  exact contains_placeAll (fun c _ => contains_place c) (TextMap.contains_insert.mpr (Or.inl rfl))

theorem contains_placeAll_of_mem {c : String} (hc : c ∈ ids)
    (h : ∀ corner rects, (place g horizontal sizes corner rects c).contains k = true) :
    (placeAll g horizontal sizes corner rects ids).contains k = true := by
  induction ids generalizing corner rects with
  | nil => cases hc
  | cons d ids ih =>
    rw [placeAll_cons]
    rcases List.mem_cons.mp hc with rfl | hc
    · exact contains_placeAll (fun c _ => contains_place c) (h _ _)
    · exact ih hc

/-- **All objects of a tree get a rectangle** with the top of the tree. -/
theorem contains_place_tree (o : Object) : ∀ x ∈ (g.tree o).objects, ∀ corner rects,
    (place g horizontal sizes corner rects o.id).contains x.id = true := by
  induction o using g.treeInduction with
  | h o ih =>
    intro x hx corner rects
    rw [Graph.objects_tree, List.mem_cons, List.mem_flatMap] at hx
    rcases hx with rfl | ⟨c, hc, hx⟩
    · exact contains_place_self
    · rw [place_eq]
      exact contains_placeAll_of_mem (List.mem_map_of_mem hc) (ih c hc x hx)

theorem exists_rect?_of_mem_preorder {o : Object} (ho : o ∈ g.preorder) :
    ∃ r, (ofGraph g).rect? o.id = some r := by
  rw [Graph.preorder_eq, List.mem_flatMap] at ho
  obtain ⟨root, hroot, ho⟩ := ho
  exact TextMap.contains_iff.mp
    (contains_placeAll_of_mem (List.mem_map_of_mem hroot) (contains_place_tree root o ho))

end Layout

namespace Graph

variable {g : Graph}

theorem Integral.exists_rect? (h : g.Integral) {id : String} (hid : id ∈ g.ids) :
    ∃ r, (Layout.ofGraph g).rect? id = some r := by
  obtain ⟨o, ho, rfl⟩ := List.mem_map.mp hid
  exact Layout.exists_rect?_of_mem_preorder (h.mem_preorder.mpr ho)

/-! ### The order of painting -/

/-- **What comes before what**: an object before what is inside it, and what is in the tree of an
object before what is in the tree of a sibling that is declared later. -/
inductive Precedes (g : Graph) : Object → Object → Prop
  | inside {a b : Object} (hne : a.id ≠ b.id) (h : isWithin b.id a.id = true) : Precedes g a b
  | siblings {a b c d : Object} {parent : Option String} (h : [c, d] <+ g.childObjects parent)
      (ha : isWithin a.id c.id = true) (hb : isWithin b.id d.id = true) : Precedes g a b

theorem pairwise_siblings {parent : Option String}
    (h : ∀ c ∈ g.childObjects parent, (g.tree c).objects.Pairwise g.Precedes) :
    ((g.childObjects parent).flatMap fun c => (g.tree c).objects).Pairwise g.Precedes := by
  rw [List.pairwise_flatMap]
  refine ⟨h, List.pairwise_iff_forall_sublist.mpr fun {c d} hcd a ha b hb => ?_⟩
  have hmem : ∀ x ∈ [c, d], x ∈ g.objects := fun x hx => (mem_childObjects.mp (hcd.subset hx)).1
  exact .siblings hcd (of_mem_tree (hmem c (by simp)) ha).2 (of_mem_tree (hmem d (by simp)) hb).2

theorem pairwise_tree (o : Object) : (g.tree o).objects.Pairwise g.Precedes := by
  induction o using g.treeInduction with
  | h o ih =>
    rw [objects_tree, List.pairwise_cons]
    refine ⟨fun x hx => ?_, pairwise_siblings ih⟩
    obtain ⟨c, hc, hx⟩ := List.mem_flatMap.mp hx
    obtain ⟨hcmem, hpar⟩ := mem_childObjects.mp hc
    have hxc : isWithin x.id c.id = true := (of_mem_tree hcmem hx).2
    refine .inside (fun he => ?_) (isWithin_trans hxc (isWithin_parent hpar))
    rw [← he] at hxc
    exact not_isWithin_child hpar hxc

/-- **In preorder, containers come before their contents and siblings as they are declared.** -/
theorem pairwise_preorder (g : Graph) : g.preorder.Pairwise g.Precedes := by
  rw [preorder_eq]
  exact pairwise_siblings fun c _ => pairwise_tree c

/-- From an object to its children there is no endless way. -/
theorem wellFounded_childObjects (g : Graph) :
    WellFounded fun c o : Object => c ∈ g.childObjects (some o.id) := by
  refine ⟨fun o => ?_⟩
  induction o using g.treeInduction with
  | h o ih => exact ⟨o, ih⟩

/-! ### The stack of pending ids -/

/-- What is painted for each of some objects. -/
def painted (g : Graph) (l : Layout) (palette : Palette) (os : List Object) : List Element :=
  os.flatMap fun o => (Paint.object? g l palette o.id).toList

section Stack

variable (l : Layout) (palette : Palette)

theorem objects_append {os : List Object} {rest : List String}
    (h : ∀ o ∈ os, ∀ rest, Paint.objects g l palette (o.id :: rest) =
      g.painted l palette (g.tree o).objects ++ Paint.objects g l palette rest) :
    Paint.objects g l palette (os.map (·.id) ++ rest) =
      g.painted l palette (os.flatMap fun o => (g.tree o).objects) ++
        Paint.objects g l palette rest := by
  induction os with
  | nil => rfl
  | cons o os ih =>
    obtain ⟨ho, hos⟩ := List.forall_mem_cons.mp h
    rw [List.map_cons, List.cons_append, ho, ih hos, ← List.append_assoc]
    simp [painted]

theorem objects_cons (o : Object) : ∀ rest, Paint.objects g l palette (o.id :: rest) =
    g.painted l palette (g.tree o).objects ++ Paint.objects g l palette rest := by
  induction o using g.treeInduction with
  | h o ih =>
    intro rest
    rw [Paint.objects, objects_tree, children, objects_append l palette ih]
    simp [painted]

/-- **The stack passes the preorder** of the forest, and comes to an end. -/
theorem objects_roots (g : Graph) : Paint.objects g l palette (g.children none) =
    g.painted l palette g.preorder := by
  have happend : Paint.objects g l palette (g.children none ++ []) =
      g.painted l palette ((g.childObjects none).flatMap fun o => (g.tree o).objects) ++
        Paint.objects g l palette [] :=
    objects_append l palette fun o _ => objects_cons l palette o
  rwa [List.append_nil, Paint.objects, List.append_nil, ← preorder_eq] at happend

end Stack

theorem extents_map_id {os : List Object}
    (h : ∀ o ∈ os, g.extent o.id = (g.tree o).objects.length) :
    g.extents (os.map (·.id)) = (os.flatMap fun o => (g.tree o).objects).length := by
  induction os with
  | nil => rfl
  | cons o os ih =>
    obtain ⟨ho, hos⟩ := List.forall_mem_cons.mp h
    rw [List.map_cons, extents_cons, ho, ih hos, List.flatMap_cons, List.length_append]

theorem extent_id (o : Object) : g.extent o.id = (g.tree o).objects.length := by
  induction o using g.treeInduction with
  | h o ih => rw [extent_eq, children, extents_map_id ih, objects_tree, List.length_cons]

/-- As many ids are taken from the stack as there are objects in the forest. -/
theorem extents_roots (g : Graph) : g.extents (g.children none) = g.preorder.length := by
  rw [children, extents_map_id fun o _ => extent_id o, preorder_eq]

/-! ### The picture -/

/-- Does the object have children? -/
def isContainer (g : Graph) (o : Object) : Bool := !(g.childObjects (some o.id)).isEmpty

/-- The group is the one of an object, at the rectangle of the object. -/
def PaintsObject (g : Graph) (palette : Palette) (o : Object) (e : Element) : Prop :=
  ∃ r, (Layout.ofGraph g).rect? o.id = some r ∧ e = Paint.object ⟨o, r, g.isContainer o⟩ palette

/-- The group is the one of an edge, between the rectangles of its endpoints. -/
def PaintsEdge (g : Graph) (palette : Palette) (e : Edge) (group : Element) : Prop :=
  ∃ source target, (Layout.ofGraph g).rect? e.source = some source ∧
    (Layout.ofGraph g).rect? e.target = some target ∧ group = Paint.edge e source target palette

theorem PaintsObject.groups {palette : Palette} {o : Object} {e : Element}
    (h : g.PaintsObject palette o e) : e.groups = [(some "shape", some o.id)] := by
  obtain ⟨r, -, rfl⟩ := h
  exact Paint.groups_object _ _

theorem PaintsEdge.groups {palette : Palette} {e : Edge} {group : Element}
    (h : g.PaintsEdge palette e group) : group.groups = [(some "connection", some e.publicId)] := by
  obtain ⟨source, target, -, -, rfl⟩ := h
  exact Paint.groups_edge _ _ _ _

theorem forall₂_flatMap_toList {α : Type} {f : α → Option Element} {r : α → Element → Prop}
    {xs : List α} (h : ∀ x ∈ xs, ∃ e, f x = some e ∧ r x e) :
    List.Forall₂ r xs (xs.flatMap fun x => (f x).toList) := by
  induction xs with
  | nil => exact .nil
  | cons x xs ih =>
    obtain ⟨⟨e, he, hr⟩, hxs⟩ := List.forall_mem_cons.mp h
    rw [List.flatMap_cons, he]
    exact .cons hr (ih hxs)

theorem flatMap_groups {α : Type} {f : α → Option String × Option String} {xs : List α}
    {es : List Element} (h : List.Forall₂ (fun x e => e.groups = [f x]) xs es) :
    es.flatMap Element.groups = xs.map f := by
  induction h with
  | nil => rfl
  | cons he _ ih => rw [List.flatMap_cons, List.map_cons, he, ih, List.singleton_append]

section Integral
variable (h : g.Integral) (palette : Palette)
include h

/-- **No object is skipped.** -/
theorem Integral.paintsObject_objects : List.Forall₂ (g.PaintsObject palette) g.preorder
    (Paint.objects g (Layout.ofGraph g) palette (g.children none)) := by
  rw [objects_roots]
  refine forall₂_flatMap_toList fun o ho => ?_
  obtain ⟨r, hr⟩ := Layout.exists_rect?_of_mem_preorder ho
  refine ⟨Paint.object ⟨o, r, g.isContainer o⟩ palette, ?_, r, hr, rfl⟩
  unfold Paint.object? isContainer children
  rw [h.find?_eq (h.mem_preorder.mp ho), hr, List.isEmpty_map]

/-- **No edge is skipped.** -/
theorem Integral.paintsEdge_edges : List.Forall₂ (g.PaintsEdge palette) g.edges
    (g.edges.filterMap (Paint.edge? (Layout.ofGraph g) palette)) := by
  rw [List.filterMap_eq_flatMap_toList]
  refine forall₂_flatMap_toList fun e he => ?_
  obtain ⟨hsource, htarget⟩ := h.endpoints e he
  obtain ⟨source, hs⟩ := h.exists_rect? hsource
  obtain ⟨target, ht⟩ := h.exists_rect? htarget
  exact ⟨Paint.edge e source target palette, by rw [Paint.edge?, hs, ht], source, target, hs, ht, rfl⟩

theorem Integral.groups_document (w : Writer) : (Paint.document w g palette).groups =
    (g.preorder.map fun o => (some "shape", some o.id)) ++
      g.edges.map fun e => (some "connection", some e.publicId) := by
  have hshapes := flatMap_groups ((h.paintsObject_objects palette).imp fun _ _ => PaintsObject.groups)
  have hconnections := flatMap_groups ((h.paintsEdge_edges palette).imp fun _ _ => PaintsEdge.groups)
  unfold Paint.document Element.ofAttributes
  rw [Element.groups, if_neg (by decide), Element.groupsAll_eq, List.flatMap_append,
    List.flatMap_cons, List.flatMap_cons, Paint.groups_background, Paint.groups_definitions, hshapes,
    hconnections]
  rfl

end Integral

/-- **What is drawn is read as it is meant**, if quotes are escaped. -/
theorem read_draw {w : Writer} (hw : w.Lawful) (hq : w.EscapesQuotes) (g : Graph)
    (palette : Palette) :
    Markup.read (g.draw w palette) = (Paint.document w g palette).items w :=
  (hw.read_write_iff (Paint.tagNamed_document hw g palette)).mpr fun a _ => hq.unquoted_value a.2

/-- **Each element is painted once, and containers beneath their contents.** The picture of an integral
graph is the text of a background and definitions, then for each object one group, in the preorder of the
forest, and last for each edge one group, in the order of the edges; each stands at the rectangles of its
objects. In the text that a writer makes of it, exactly these groups are read, each with its class and
its id. The preorder holds every object once, an object before what is inside it and siblings as they are
declared. From an object to its children there is no endless way, and as many ids are taken from the
stack of painting as there are objects. -/
theorem painted_once {w : Writer} (hw : w.Lawful) (hq : w.EscapesQuotes) (h : g.Integral)
    (palette : Palette) :
    (∃ attributes shapes connections,
      g.draw w palette = w.write (.tag "svg" attributes
        (Paint.background palette :: Paint.definitions palette :: (shapes ++ connections))) ∧
      shapes = Paint.objects g (Layout.ofGraph g) palette (g.children none) ∧
      List.Forall₂ (g.PaintsObject palette) g.preorder shapes ∧
      List.Forall₂ (g.PaintsEdge palette) g.edges connections) ∧
    Markup.groups (Markup.read (g.draw w palette)) =
      (g.preorder.map fun o => (some "shape", some (w.value o.id))) ++
        g.edges.map (fun e => (some "connection", some (w.value e.publicId))) ∧
    g.preorder.Perm g.objects ∧ g.preorder.Pairwise g.Precedes ∧
    (WellFounded fun c o : Object => c ∈ g.childObjects (some o.id)) ∧
    g.extents (g.children none) = g.objects.length := by
  refine ⟨⟨_, _, _, rfl, rfl, h.paintsObject_objects palette, h.paintsEdge_edges palette⟩, ?groups,
    h.preorder_perm, pairwise_preorder g, wellFounded_childObjects g, ?extent⟩
  case groups =>
    have hclass : w.value "shape" = "shape" ∧ w.value "connection" = "connection" :=
      ⟨hw.value.eq_self (by decide), hw.value.eq_self (by decide)⟩
    rw [read_draw hw hq, Element.groups_items, h.groups_document, List.map_append, List.map_map,
      List.map_map]
    simp [Element.writtenGroup, Function.comp_def, hclass]
  case extent => rw [extents_roots, h.preorder_perm.length_eq]

/-- A graph whose objects are declared in another order than they are painted: a child in front of its
parent, and the children of two parents in turn; an edge leads from a container to itself, and a fill
holds quotes. -/
def shuffled : Graph where
  objects := [.blank "a.x", .blank "b", .blank "b.y", .blank "a",
    { Object.blank "a.w" with attributes := .ofList [("style.fill", "red\" id=\"b")] }, .blank "a.x.z"]
  edges := [⟨"b.y", "a.x.z", .forward, ∅⟩, ⟨"a", "a", .plain, ∅⟩]
  board := ∅
  statements := none

theorem painted_once_shuffled : shuffled.Integral ∧
    shuffled.preorder.map (·.id) = ["b", "b.y", "a", "a.x", "a.x.z", "a.w"] ∧
    ∀ palette, Markup.groups (Markup.read (shuffled.draw .svg palette)) =
      [(some "shape", some "b"), (some "shape", some "b.y"), (some "shape", some "a"),
        (some "shape", some "a.x"), (some "shape", some "a.x.z"), (some "shape", some "a.w"),
        (some "connection", some "b.y-&gt;a.x.z"), (some "connection", some "a-&gt;a")] := by
  have hintegral : shuffled.Integral := by decide +kernel
  have hpreorder : shuffled.preorder.map (·.id) = ["b", "b.y", "a", "a.x", "a.x.z", "a.w"] := by
    decide +kernel
  refine ⟨hintegral, hpreorder, fun palette => ?_⟩
  obtain ⟨-, hgroups, -⟩ := painted_once Writer.lawful_svg Writer.escapesQuotes_svg hintegral palette
  have hshapes : (shuffled.preorder.map fun o => (some "shape", some (Writer.svg.value o.id))) =
      (shuffled.preorder.map (·.id)).map fun id => (some "shape", some (Writer.svg.value id)) := by
    rw [List.map_map]
    rfl
  rw [hgroups, hshapes, hpreorder]
  decide +kernel

end Graph

end BoxDiagram
