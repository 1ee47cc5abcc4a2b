import BoxDiagram.Proofs.Graph.Canonical
import BoxDiagram.Proofs.Statement.RoundTrip

/-!
# Regeneration: the canonical text of a graph describes the graph

The canonical statements of a well-formed graph are well formed, so their text is read back, and the
commands they come down to make each object after its parent. Run on the empty graph, these commands
build the graph again, with its objects in the order of the forest (`compile_print_canonical`). So
the regenerated graph is the graph itself, with its objects reordered (`WellFormed.exists_reorders`).
-/

namespace BoxDiagram

open Dotted Attribute

/-- The object with other attributes. -/
def Object.withAttributes (o : Object) (m : Attributes) : Object := { o with attributes := m }

theorem Object.blank_id (o : Object) : Object.blank o.id = o.withAttributes ∅ :=
  Object.ext rfl o.parent_eq.symm rfl

namespace Graph

variable {g : Graph}

/-! ### Running the commands -/

/-- The graph with more objects. -/
def addObjects (g : Graph) (os : List Object) : Graph := { g with objects := g.objects ++ os }

theorem addObjects_addObjects (g : Graph) (os ps : List Object) :
    (g.addObjects os).addObjects ps = g.addObjects (os ++ ps) := by
  simp [addObjects]

theorem ids_addObjects (g : Graph) (os : List Object) :
    (g.addObjects os).ids = g.ids ++ os.map Object.id := by
  simp [addObjects, ids]

theorem ids_addObjects_blank (g : Graph) (ids : List String) :
    (g.addObjects (ids.map Object.blank)).ids = g.ids ++ ids := by
  rw [ids_addObjects, List.map_map]
  exact congrArg (g.ids ++ ·) (List.map_id ids)

theorem assignObject_addObjects {o : Object} (hid : o.id ∉ g.ids) (name : String)
    (value : Option String) : (g.addObjects [o]).assignObject o.id name value =
      g.addObjects [o.assign name value] := by
  have hold : g.objects.map (fun x => if x.id = o.id then x.assign name value else x) =
      g.objects := by
    refine (List.map_congr_left fun x hx => ?_).trans (List.map_id _)
    rw [if_neg fun he : x.id = o.id => hid (he ▸ mem_ids_of_mem hx)]
    rfl
  unfold assignObject addObjects
  rw [List.map_append, hold]
  simp

theorem foldl_run_assign {o : Object} (hid : o.id ∉ g.ids) : ∀ (es : List (String × String))
    (m : Attributes), (es.map fun e => .assign (some o.id) e.1 e.2).foldl run
      (g.addObjects [o.withAttributes m]) =
        g.addObjects [o.withAttributes (es.foldl (fun m e => TextMap.insert m e.1 e.2) m)]
  | [], m => rfl
  | e :: es, m => by
    have hmem : o.id ∈ (g.addObjects [o.withAttributes m]).ids := by
      simp [ids_addObjects, Object.withAttributes]
    have hwrite : (g.addObjects [o.withAttributes m]).assignObject o.id e.1 (some e.2) =
        g.addObjects [o.withAttributes (TextMap.insert m e.1 e.2)] :=
      assignObject_addObjects (o := o.withAttributes m) hid e.1 (some e.2)
    rw [List.map_cons, List.foldl_cons, run, ensure_of_mem hmem, hwrite, foldl_run_assign hid es]
    rfl

/-- **The commands of an object make it**, if its parent is there. -/
theorem foldl_run_object {o : Object} (hid : o.id ∉ g.ids)
    (hp : ∀ p, parent? o.id = some p → p ∈ g.ids) :
    (Object.commands o).foldl run g = g.addObjects [o] := by
  have hmissing : g.missing o.id = [o.id] := by
    cases hpar : parent? o.id with
    | none => exact missing_of_root hid hpar
    | some p => rw [missing_of_parent hid hpar, missing_of_mem (hp p hpar), List.nil_append]
  have hensure : g.ensure o.id = g.addObjects [o.withAttributes ∅] := by
    unfold ensure
    rw [hmissing, List.map_singleton, o.blank_id]
    rfl
  have hattributes := connectionAttributes_settings o.attributes
  unfold connectionAttributes TextMap.ofList at hattributes
  rw [List.foldl_append] at hattributes
  unfold Object.commands
  cases hlabel : o.attributes.get? "label" with
  | none =>
    rw [hlabel] at hattributes
    rw [List.foldl_cons, run, hensure, foldl_run_assign hid]
    exact congrArg (fun m => g.addObjects [o.withAttributes m]) hattributes
  | some label =>
    have hwrite : (g.addObjects [o.withAttributes ∅]).assignObject o.id "label" (some label) =
        g.addObjects [o.withAttributes (TextMap.insert ∅ "label" label)] :=
      assignObject_addObjects (o := o.withAttributes ∅) hid "label" (some label)
    rw [hlabel] at hattributes
    rw [List.foldl_cons, run, hensure, hwrite, foldl_run_assign hid]
    exact congrArg (fun m => g.addObjects [o.withAttributes m]) hattributes

theorem foldl_run_trees {k : Graph} : ∀ {os : List Object},
    (∀ o ∈ os, ∀ l : Graph, (l.ids ++ (g.tree o).objects.map Object.id).Nodup →
      (∀ p, parent? o.id = some p → p ∈ l.ids) →
        ((g.tree o).objects.flatMap Object.commands).foldl run l =
          l.addObjects (g.tree o).objects) →
    (k.ids ++ (os.flatMap fun o => (g.tree o).objects).map Object.id).Nodup →
    (∀ o ∈ os, ∀ p, parent? o.id = some p → p ∈ k.ids) →
      ((os.flatMap fun o => (g.tree o).objects).flatMap Object.commands).foldl run k =
        k.addObjects (os.flatMap fun o => (g.tree o).objects)
  | [], _, _, _ => by simp [addObjects]
  | o :: os, htree, hnodup, hp => by
    obtain ⟨ho, hos⟩ := List.forall_mem_cons.mp htree
    obtain ⟨hpo, hpos⟩ := List.forall_mem_cons.mp hp
    rw [List.flatMap_cons, List.map_append, ← List.append_assoc] at hnodup
    rw [List.flatMap_cons, List.flatMap_append, List.foldl_append,
      ho k (List.nodup_append.mp hnodup).1 hpo]
    rw [← ids_addObjects] at hnodup
    have hpos' : ∀ o' ∈ os, ∀ p, parent? o'.id = some p →
        p ∈ (k.addObjects (g.tree o).objects).ids := fun o' ho' p hpar => by
      rw [ids_addObjects]
      exact List.mem_append_left _ (hpos o' ho' p hpar)
    rw [foldl_run_trees hos hnodup hpos', addObjects_addObjects]

/-- **The commands of a tree make its objects**, if the parent of its top is there. -/
theorem foldl_run_tree (o : Object) : ∀ k : Graph,
    (k.ids ++ (g.tree o).objects.map Object.id).Nodup → (∀ p, parent? o.id = some p → p ∈ k.ids) →
      ((g.tree o).objects.flatMap Object.commands).foldl run k =
        k.addObjects (g.tree o).objects := by
  induction o using g.treeInduction with
  | h o ih =>
    -- the top comes first, and then it is there as the parent of the trees below it
    intro k hnodup hp
    rw [objects_tree, List.map_cons, ← List.singleton_append, ← List.append_assoc] at hnodup
    have hid : o.id ∉ k.ids := fun hmem =>
      (List.nodup_append.mp (List.nodup_append.mp hnodup).1).2.2 o.id hmem o.id (by simp) rfl
    have hids : (k.addObjects [o]).ids = k.ids ++ [o.id] := ids_addObjects k [o]
    rw [← hids] at hnodup
    rw [objects_tree, List.flatMap_cons, List.foldl_append, foldl_run_object hid hp,
      foldl_run_trees ih hnodup, addObjects_addObjects, List.singleton_append]
    intro c hc p hpar
    rw [(mem_childObjects.mp hc).2] at hpar
    rw [hids, ← Option.some.inj hpar]
    exact List.mem_append_right _ (List.mem_singleton_self _)

theorem foldl_run_edges : ∀ {es : List Edge} {k : Graph},
    (∀ e ∈ es, e.source ∈ k.ids ∧ e.target ∈ k.ids) →
      (es.map Edge.command).foldl run k = { k with edges := k.edges ++ es }
  | [], k, _ => by simp
  | e :: es, k, h => by
    obtain ⟨he, hes⟩ := List.forall_mem_cons.mp h
    have hids : [e.source, e.target].foldl ensure k = k :=
      foldl_ensure_of_mem (by simpa using he)
    have hrun : k.run e.command = { k with edges := k.edges ++ [e] } := by
      unfold Edge.command run Edge.label?
      simp only [hids, chain, connectionAttributes_settings]
    have ih : (es.map Edge.command).foldl run { k with edges := k.edges ++ [e] } =
        { k with edges := (k.edges ++ [e]) ++ es } := foldl_run_edges hes
    rw [List.map_cons, List.foldl_cons, hrun, ih, List.append_assoc, List.singleton_append]

theorem foldl_run_board : ∀ (es : List (String × String)) (k : Graph),
    (es.map fun e => .assign none e.1 e.2).foldl run k =
      { k with board := es.foldl (fun m e => TextMap.insert m e.1 e.2) k.board }
  | [], _ => rfl
  | e :: es, k => by
    rw [List.map_cons, List.foldl_cons, foldl_run_board es]
    rfl

/-! ### The regenerated graph -/

section Regenerated
variable (h : g.WellFormed)
include h

/-- **The canonical text describes the graph**, with its objects in the order of the forest. -/
theorem WellFormed.compile_print_canonical : compile (Statement.print g.canonical) =
    .ok ⟨g.preorder, g.edges, g.board, some g.canonical⟩ := by
  have hboard : g.board.entries.foldl (fun m e => TextMap.insert m e.1 e.2) ∅ = g.board :=
    TextMap.ofList_entries g.board
  have hobjects : ∀ k : Graph, k.ids = [] →
      (g.preorder.flatMap Object.commands).foldl Graph.run k = k.addObjects g.preorder := fun k hk => by
    rw [preorder_eq]
    refine foldl_run_trees (fun o _ => foldl_run_tree o) ?_ fun o ho p hp => ?_
    · rw [hk, List.nil_append, ← preorder_eq]
      exact h.nodup_preorder
    · rw [(mem_childObjects.mp ho).2] at hp
      exact absurd hp (by simp)
  have hends : ∀ e ∈ g.edges, e.source ∈ g.preorder.map Object.id ∧
      e.target ∈ g.preorder.map Object.id := fun e he =>
    have hperm := h.preorder_perm.map Object.id
    ⟨hperm.mem_iff.mpr (h.endpoints e he).1, hperm.mem_iff.mpr (h.endpoints e he).2⟩
  refine compile_eq_ok_iff.mpr ⟨_, Statement.parse_print h.wellFormed_canonical, ?_⟩
  refine lower_eq_ok_iff.mpr ⟨_, h.commands_canonical, ?_⟩
  rw [List.foldl_append, List.foldl_append, foldl_run_board, hobjects _ rfl, foldl_run_edges]
  · exact congrArg (Graph.mk g.preorder g.edges · (some g.canonical)) hboard
  · rw [ids_addObjects]
    exact hends

end Regenerated

theorem canonical_congr {k : Graph} (hboard : k.board = g.board) (hedges : k.edges = g.edges)
    (hchildren : ∀ parent, k.childObjects parent = g.childObjects parent) :
    k.canonical = g.canonical := by
  unfold canonical boardStatements
  rw [hboard, hedges, forest_congr hchildren]

/-- **Regeneration is faithful**: the canonical text of a well-formed graph is compiled to a graph
with the same board and edges, the same objects, the same order among the children of each parent
and among the roots, and the same canonical statements. -/
theorem regeneration_faithful (h : g.WellFormed) :
    ∃ k, compile (Statement.print g.canonical) = .ok k ∧ k.board = g.board ∧ k.edges = g.edges ∧
      k.objects.Perm g.objects ∧ (∀ parent, k.childObjects parent = g.childObjects parent) ∧
      k.canonical = g.canonical := by
  have hchildren := h.filter_preorder
  exact ⟨_, h.compile_print_canonical, rfl, rfl, h.preorder_perm, hchildren,
    canonical_congr rfl rfl hchildren⟩

/-- A child that stands in front of its parent, and an edge between objects at different depths. -/
def nested : Graph where
  objects := [(Object.blank "app.db").withAttributes
      (.ofList [("label", "\"\x7d; #"), ("shape", "cylinder")]),
    (Object.blank "user").withAttributes (.ofList [("style.bold", "true")]),
    (Object.blank "app").withAttributes (.ofList [("tooltip", " x\n")])]
  edges := [⟨"user", "app.db", .both, .ofList [("label", "reads"), ("style.stroke", "red")]⟩]
  board := .ofList [("direction", "right")]
  statements := none

theorem regeneration_faithful_nested : nested.WellFormed ∧
    ∃ k, compile (Statement.print nested.canonical) = .ok k ∧ k.board = nested.board ∧
      k.edges = nested.edges ∧ k.objects.Perm nested.objects ∧
      (∀ parent, k.childObjects parent = nested.childObjects parent) ∧
      k.canonical = nested.canonical := by
  have hparents : ∀ id ∈ nested.ids, ∀ p ∈ parent? id, p ∈ nested.ids := by decide +kernel
  have hnamed : ∀ id ∈ nested.ids, IsId id := by decide +kernel
  have hnested : nested.WellFormed :=
    ⟨⟨by decide +kernel, hparents, by decide +kernel⟩, hnamed,
      ⟨by decide +kernel, by decide +kernel, by decide +kernel⟩⟩
  exact ⟨hnested, regeneration_faithful hnested⟩

/-! ### Reordered objects -/

/-- **The graph is another one with its objects reordered**: it has the same objects with the same
attributes, the roots and the children of each parent in the same order, and the same edges and
board. -/
structure Reorders (k g : Graph) : Prop where
  objects : ∀ o, o ∈ k.objects ↔ o ∈ g.objects
  children : ∀ parent, k.children parent = g.children parent
  edges : k.edges = g.edges
  board : k.board = g.board

theorem Reorders.refl (g : Graph) : g.Reorders g := ⟨fun _ => Iff.rfl, fun _ => rfl, rfl, rfl⟩

theorem Reorders.perm {k : Graph} (h : k.Reorders g) (hk : k.Integral) (hg : g.Integral) :
    k.objects.Perm g.objects := by
  have hdistinct : ∀ {l : Graph}, l.Integral → l.objects.Nodup := fun hl => List.Nodup.of_map _ hl.nodup
  exact (List.perm_ext_iff_of_nodup (hdistinct hk) (hdistinct hg)).mpr h.objects

/-- **The canonical text reorders the objects** and does nothing else. -/
theorem WellFormed.exists_reorders (h : g.WellFormed) :
    ∃ k, compile (Statement.print g.canonical) = .ok k ∧ k.Reorders g := by
  refine ⟨_, h.compile_print_canonical, fun o => h.mem_preorder, fun parent => ?_, rfl, rfl⟩
  exact congrArg (List.map (·.id)) (h.filter_preorder parent)

end Graph

end BoxDiagram
