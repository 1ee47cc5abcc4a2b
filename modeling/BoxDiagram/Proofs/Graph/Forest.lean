import BoxDiagram.Graph.Forest
import BoxDiagram.Proofs.Graph.Integrity
import Mathlib.Data.List.Perm.Subperm

/-!
# The forest of an integral graph

Listed tree by tree, each object before those below it, the objects of an integral graph are the
objects of the graph in another order (`preorder_perm`): trees of siblings have no object in common,
and every object is in the tree of its parent. The order among the children of a parent is the one
of the graph (`filter_preorder`). The forest depends on the children of each parent only
(`forest_congr`).
-/

namespace BoxDiagram

open Dotted
open scoped List

namespace Graph

variable {g : Graph}

/-- **Induction from the objects without children upwards.** -/
theorem treeInduction (g : Graph) {motive : Object → Prop}
    (h : ∀ o, (∀ c ∈ g.childObjects (some o.id), motive c) → motive o) (o : Object) : motive o :=
  h o fun c hc =>
    have := g.length_lt_of_mem_childObjects hc
    treeInduction g h c
termination_by g.longest - o.id.length

/-- Induction from the ids without children upwards. -/
theorem childInduction (g : Graph) {motive : String → Prop}
    (h : ∀ id, (∀ c ∈ g.children (some id), motive c) → motive id) (id : String) : motive id :=
  h id fun c hc =>
    have := g.length_lt_of_mem_children hc
    childInduction g h c
termination_by g.longest - id.length

theorem objectsAll_eq_flatMap : ∀ ts : List Tree, Tree.objectsAll ts = ts.flatMap Tree.objects
  | [] => by rw [Tree.objectsAll, List.flatMap_nil]
  | t :: ts => by rw [Tree.objectsAll, List.flatMap_cons, objectsAll_eq_flatMap ts]

theorem objectsAll_map_tree (os : List Object) :
    Tree.objectsAll (os.map g.tree) = os.flatMap fun o => (g.tree o).objects := by
  rw [objectsAll_eq_flatMap, List.flatMap_map]

theorem objects_tree (o : Object) : (g.tree o).objects =
    o :: (g.childObjects (some o.id)).flatMap fun c => (g.tree c).objects := by
  rw [tree_eq, Tree.objects, objectsAll_map_tree]

/-- The objects tree by tree, each before those below it. -/
def preorder (g : Graph) : List Object := Tree.objectsAll g.forest

theorem preorder_eq (g : Graph) :
    g.preorder = (g.childObjects none).flatMap fun o => (g.tree o).objects :=
  objectsAll_map_tree _

theorem forest_congr {k : Graph} (h : ∀ parent, k.childObjects parent = g.childObjects parent) :
    k.forest = g.forest := by
  have htree : ∀ o, k.tree o = g.tree o := fun o => by
    induction o using k.treeInduction with
    | h o ih => rw [tree_eq, tree_eq, ← h (some o.id), List.map_congr_left ih]
  unfold forest
  rw [h none, List.map_congr_left fun o _ => htree o]

/-! ### The objects of a tree -/

theorem of_mem_tree {o : Object} (ho : o ∈ g.objects) {x : Object} (hx : x ∈ (g.tree o).objects) :
    x ∈ g.objects ∧ isWithin x.id o.id = true := by
  induction o using g.treeInduction with
  | h o ih =>
    rw [objects_tree, List.mem_cons, List.mem_flatMap] at hx
    rcases hx with rfl | ⟨c, hc, hx⟩
    · exact ⟨ho, isWithin_self x.id⟩
    · obtain ⟨hmem, hpar⟩ := mem_childObjects.mp hc
      obtain ⟨hx', hw⟩ := ih c hc hmem hx
      exact ⟨hx', isWithin_trans hw (isWithin_parent hpar)⟩

theorem tree_sublist_of_mem {parent : Option String} {o : Object}
    (ho : o ∈ g.childObjects parent) :
    (g.tree o).objects <+ (g.childObjects parent).flatMap fun c => (g.tree c).objects := by
  obtain ⟨before, after, he⟩ := List.append_of_mem ho
  rw [he, List.flatMap_append, List.flatMap_cons]
  exact (List.sublist_append_left _ _).trans (List.sublist_append_right _ _)

section Integral
variable (h : g.Integral)
include h

theorem Integral.nodup_siblings {parent : Option String}
    (htree : ∀ c ∈ g.childObjects parent, ((g.tree c).objects.map Object.id).Nodup) :
    (((g.childObjects parent).flatMap fun c => (g.tree c).objects).map Object.id).Nodup := by
  rw [List.map_flatMap, List.nodup_flatMap]
  refine ⟨htree, ?_⟩
  have hids : (g.childObjects parent).Pairwise fun a b => a.id ≠ b.id :=
    List.pairwise_map.mp (h.nodup.sublist (List.filter_sublist.map _))
  refine hids.imp_of_mem fun {a b} ha hb hne => List.disjoint_left.mpr ?_
  intro x hxa hxb
  obtain ⟨y, hy, rfl⟩ := List.mem_map.mp hxa
  obtain ⟨z, hz, hyz⟩ := List.mem_map.mp hxb
  obtain ⟨ha, hpa⟩ := mem_childObjects.mp ha
  obtain ⟨hb, hpb⟩ := mem_childObjects.mp hb
  have hwb := (of_mem_tree hb hz).2
  rw [hyz] at hwb
  exact hne (eq_of_isWithin_siblings (hpa.trans hpb.symm) (of_mem_tree ha hy).2 hwb)

theorem Integral.nodup_tree (o : Object) : ((g.tree o).objects.map Object.id).Nodup := by
  induction o using g.treeInduction with
  | h o ih =>
    rw [objects_tree, List.map_cons, List.nodup_cons]
    refine ⟨fun hmem => ?_, h.nodup_siblings ih⟩
    obtain ⟨x, hx, hxo⟩ := List.mem_map.mp hmem
    obtain ⟨c, hc, hx⟩ := List.mem_flatMap.mp hx
    obtain ⟨hcmem, hpar⟩ := mem_childObjects.mp hc
    have hw := (of_mem_tree hcmem hx).2
    rw [hxo] at hw
    exact not_isWithin_child hpar hw

theorem Integral.nodup_preorder : (g.preorder.map Object.id).Nodup := by
  rw [preorder_eq]
  exact h.nodup_siblings fun c _ => h.nodup_tree c

/-! ### All objects -/

theorem Integral.tree_sublist_preorder {o : Object} (ho : o ∈ g.objects) :
    (g.tree o).objects <+ g.preorder := by
  obtain ⟨id, hid⟩ : ∃ id, o.id = id := ⟨_, rfl⟩
  induction id using parentInduction generalizing o with
  | root id hp =>
    rw [preorder_eq]
    exact tree_sublist_of_mem (mem_childObjects.mpr ⟨ho, hid ▸ hp⟩)
  | child id p hp ih =>
    rw [← hid] at hp
    obtain ⟨q, hq, rfl⟩ := List.mem_map.mp (h.parents o.id (mem_ids_of_mem ho) p hp)
    refine List.Sublist.trans ?_ (ih hq rfl)
    rw [objects_tree q]
    exact (tree_sublist_of_mem (mem_childObjects.mpr ⟨ho, hp⟩)).cons q

theorem Integral.mem_preorder {o : Object} : o ∈ g.preorder ↔ o ∈ g.objects := by
  constructor
  · intro ho
    rw [preorder_eq, List.mem_flatMap] at ho
    obtain ⟨r, hr, ho⟩ := ho
    exact (of_mem_tree (mem_childObjects.mp hr).1 ho).1
  · intro ho
    refine (h.tree_sublist_preorder ho).subset ?_
    rw [objects_tree]
    exact List.mem_cons_self

/-- **The forest holds the objects of the graph**, each once. -/
theorem Integral.preorder_perm : g.preorder.Perm g.objects :=
  (List.perm_ext_iff_of_nodup h.nodup_preorder.of_map h.nodup.of_map).mpr fun _ => h.mem_preorder

theorem Integral.childObjects_sublist_preorder (parent : Option String) :
    g.childObjects parent <+ g.preorder := by
  have hsub : ∀ os : List Object, os <+ os.flatMap fun o => (g.tree o).objects := fun os => by
    induction os with
    | nil => exact List.Sublist.refl []
    | cons o os ih =>
      rw [List.flatMap_cons, objects_tree, List.cons_append]
      exact (ih.trans (List.sublist_append_right _ _)).cons_cons o
  by_cases hne : g.childObjects parent = []
  · rw [hne]
    exact List.nil_sublist _
  cases parent with
  | none =>
    rw [preorder_eq]
    exact hsub _
  | some p =>
    obtain ⟨c, rest, hc⟩ := List.exists_cons_of_ne_nil hne
    obtain ⟨hcmem, hpar⟩ := mem_childObjects.mp (show c ∈ g.childObjects (some p) by rw [hc]; simp)
    obtain ⟨q, hq, rfl⟩ := List.mem_map.mp (h.parents c.id (mem_ids_of_mem hcmem) p hpar)
    refine List.Sublist.trans ?_ (h.tree_sublist_preorder hq)
    rw [objects_tree]
    exact (hsub _).cons q

/-- **The children of a parent keep their order** in the forest. -/
theorem Integral.filter_preorder (parent : Option String) :
    g.preorder.filter (·.parent? = parent) = g.childObjects parent := by
  have hsub : g.childObjects parent <+ g.preorder.filter (·.parent? = parent) := by
    have hf := (h.childObjects_sublist_preorder parent).filter (·.parent? = parent)
    unfold childObjects at hf ⊢
    simpa only [List.filter_filter, Bool.and_self] using hf
  -- a sublist of the same length is the whole list
  exact (hsub.eq_of_length (h.preorder_perm.filter _).length_eq.symm).symm

end Integral

end Graph

end BoxDiagram
