import BoxDiagram.Proofs.Edit.Mapping
import BoxDiagram.Proofs.Graph.Ancestors

/-!
# Relabelling: the ids that a move gives

What a move does to ids is said segment by segment. With its descendants an object takes along all
that its segments are in front of (`reroot`); without them it goes alone, and its name drops out of
the paths below it (`unnest`). The lists of moves give the objects of a graph just these ids
(`newId_transplant`, `newId_hoist`), each object and each edge in its place, and the missing ancestors
come at the end (`Integral.moved_eq`).
-/

namespace BoxDiagram

namespace Dotted

variable {old new id : String}

/-! ### Moving a subtree -/

/-- The id with the segments of `old` in front replaced by those of `new`, if they are in front. -/
def reroot (old new id : String) : String :=
  if segments old <+: segments id then
    join (segments new ++ (segments id).drop (segments old).length)
  else id

theorem reroot_of_isWithin (h : isWithin id old = true) (new : String) :
    reroot old new id = new ++ remainder id old := by
  unfold reroot
  rw [if_pos (isWithin_iff.mp h), ← segments_append_remainder h, join_segments]

theorem reroot_of_not_isWithin (h : ¬ isWithin id old = true) (new : String) :
    reroot old new id = id :=
  if_neg fun hp => h (isWithin_iff.mpr hp)

theorem reroot_self (old new : String) : reroot old new old = new := by
  rw [reroot_of_isWithin (isWithin_self old), remainder_self, String.append_empty]

/-! ### Moving a single object -/

/-- The id once `old` alone is at `new`: below `old`, the name of `old` is left out. -/
def unnest (old new id : String) : String :=
  if id = old then new
  else if segments old <+: segments id then
    join ((segments old).dropLast ++ (segments id).drop (segments old).length)
  else id

theorem unnest_self (old new : String) : unnest old new old = new := if_pos rfl

theorem unnest_of_not_isWithin (h : ¬ isWithin id old = true) (new : String) :
    unnest old new id = id := by
  have hne : id ≠ old := by
    rintro rfl
    exact h (isWithin_self id)
  unfold unnest
  rw [if_neg hne, if_neg fun hp => h (isWithin_iff.mpr hp)]

/-- **Strictly below `old`** its last segment is left out. -/
theorem segments_unnest (h : isWithin id old = true) (hne : id ≠ old) (new : String) :
    segments (unnest old new id) =
      (segments old).dropLast ++ (segments id).drop (segments old).length := by
  have hfront := isWithin_iff.mp h
  unfold unnest
  rw [if_neg hne, if_pos hfront]
  refine segments_join (fun hnil => hne ?_) fun s hs => ?_
  · -- nothing would be left of the id behind the segments of `old`
    have hdrop := (List.append_eq_nil_iff.mp hnil).2
    refine segments_injective (hfront.eq_of_length ?_).symm
    exact le_antisymm hfront.length_le (List.drop_eq_nil_iff.mp hdrop)
  · rcases List.mem_append.mp hs with hs | hs
    · exact noDot_of_mem_segments (List.mem_of_mem_dropLast hs)
    · exact noDot_of_mem_segments (List.mem_of_mem_drop hs)

theorem dropLast_segments (id : String) :
    (segments id).dropLast = ((parent? id).map segments).getD [] := by
  cases h : parent? id with
  | none => rw [parent?_eq_none_iff.mp h]; rfl
  | some p => rw [segments_eq_append_leaf h, List.dropLast_concat]; rfl

/-- **A child comes to lie beside `old`'s former place**, under its own name. -/
theorem unnest_child (h : parent? id = some old) (new : String) :
    unnest old new id = below (parent? old) (leaf id) := by
  have hne : id ≠ old := by
    rintro rfl
    exact not_isWithin_child h (isWithin_self id)
  apply segments_injective
  rw [segments_unnest (isWithin_parent h) hne, segments_below (noDot_leaf id), dropLast_segments,
    segments_eq_append_leaf h, List.drop_left]

theorem segments_unnest_of_child {c : String} (hc : parent? c = some old)
    (h : isWithin id c = true) (new : String) : segments (unnest old new id) =
      segments (unnest old new c) ++ (segments id).drop (segments c).length := by
  obtain ⟨rest, hrest⟩ := isWithin_iff.mp h
  have hcsegs := segments_eq_append_leaf hc
  have hne : ∀ x, isWithin x c = true → x ≠ old := by
    rintro x hx rfl
    exact not_isWithin_child hc hx
  rw [segments_unnest (isWithin_trans h (isWithin_parent hc)) (hne id h),
    segments_unnest (isWithin_parent hc) (hne c (isWithin_self c)), ← hrest, List.drop_left, hcsegs]
  simp [List.append_assoc]

theorem parent?_unnest {p : String} (hp : parent? id = some p) (hw : isWithin p old = true)
    (hne : p ≠ old) (new : String) : parent? (unnest old new id) = some (unnest old new p) := by
  have hidne : id ≠ old := by
    rintro rfl
    exact not_isWithin_child hp hw
  refine parent?_eq_some_iff.mpr ⟨leaf id, ?_⟩
  rw [segments_unnest (isWithin_trans (isWithin_parent hp) hw) hidne, segments_unnest hw hne,
    segments_eq_append_leaf hp, List.drop_append_of_le_length (isWithin_iff.mp hw).length_le,
    List.append_assoc]

end Dotted

open Dotted

namespace Graph

variable {g : Graph} {f f' : String → String} {old new id : String}

/-! ### Lists of moves -/

theorem newId_transplant (hold : old ∈ g.ids) (new : String) (hid : id ∈ g.ids) :
    newId (g.transplant old new) id = reroot old new id := by
  by_cases hw : isWithin id old = true
  · rw [newId_transplant_of_isWithin hold new hid hw, reroot_of_isWithin hw]
  · rw [newId_transplant_of_not_isWithin hold new hw, reroot_of_not_isWithin hw]

theorem Integral.newId_hoist (h : g.Integral) (new : String) (hid : id ∈ g.ids) :
    newId (g.hoist old new) id = unnest old new id := by
  by_cases hne : id = old
  · rw [hne, newId_hoist_top, unnest_self]
  by_cases hw : isWithin id old = true
  · obtain ⟨c, hc, hcw⟩ := h.exists_child hid hw hne
    have hpar := (mem_children.mp hc).2
    rw [newId_hoist_of_isWithin new hc hid hcw]
    apply segments_injective
    rw [segments_append_remainder hcw, segments_unnest_of_child hpar hcw, unnest_child hpar]
    rfl
  · rw [newId_hoist_of_not_isWithin new hw, unnest_of_not_isWithin hw]

/-! ### Graphs with other ids -/

/-- The graph with other ids, each object and each edge in its place. -/
def relabel (g : Graph) (f : String → String) : Graph :=
  { g with
    objects := g.objects.map fun o => o.withId (f o.id)
    edges := g.edges.map fun e => { e with source := f e.source, target := f e.target } }

theorem ids_relabel (g : Graph) (f : String → String) : (g.relabel f).ids = g.ids.map f := by
  unfold ids relabel
  rw [List.map_map, List.map_map]
  rfl

theorem withId_id (o : Object) : o.withId o.id = o := Object.ext rfl o.parent_eq.symm rfl

theorem relabel_self (g : Graph) : g.relabel (fun id => id) = g := by
  have hself : (fun o : Object => o.withId o.id) = id := funext withId_id
  have hobjects : (g.objects.map fun o => o.withId o.id) = g.objects := by
    rw [hself, List.map_id]
  have hedges : (g.edges.map fun e => { e with source := e.source, target := e.target }) = g.edges :=
    List.map_id _
  unfold relabel
  rw [hobjects, hedges]

theorem remap_eq_relabel (hf : (g.ids.map f).Nodup) : g.remap f = g.relabel f := by
  have hobjects := objects_remap hf
  unfold relabel
  rw [← hobjects]
  rfl

theorem Integral.relabel_congr (h : g.Integral) (hf : ∀ id ∈ g.ids, f id = f' id) :
    g.relabel f = g.relabel f' := by
  have hobjects : (g.objects.map fun o => o.withId (f o.id)) =
      g.objects.map fun o => o.withId (f' o.id) :=
    List.map_congr_left fun o ho => by rw [hf o.id (mem_ids_of_mem ho)]
  have hedges : (g.edges.map fun e => { e with source := f e.source, target := f e.target }) =
      g.edges.map fun e => { e with source := f' e.source, target := f' e.target } :=
    List.map_congr_left fun e he => by
      rw [hf e.source (h.endpoints e he).1, hf e.target (h.endpoints e he).2]
  unfold relabel
  rw [hobjects, hedges]

/-- **A mapping that is one to one** relabels the graph. -/
theorem Integral.applyMapping_eq {moves : List (String × String)} (h : g.Integral)
    (hinj : ∀ x ∈ g.ids, ∀ y ∈ g.ids, newId moves x = newId moves y → x = y)
    (hf : ∀ id ∈ g.ids, newId moves id = f id) :
    g.applyMapping (TextMap.ofList moves) = g.relabel f := by
  rw [applyMapping_ofList, remap_eq_relabel (h.nodup.map_on hinj), h.relabel_congr hf]

/-- **A move relabels the graph, and adds the missing ancestors** of the new id. -/
theorem Integral.moved_eq {moves : List (String × String)} (h : g.Integral)
    (hmoves : g.Relocates (newId moves) old new)
    (hinj : ∀ x ∈ g.ids, ∀ y ∈ g.ids, newId moves x = newId moves y → x = y)
    (hf : ∀ id ∈ g.ids, newId moves id = f id) :
    (g.applyMapping (TextMap.ofList moves)).ensureParent new = (g.relabel f).addObjects
      (((ancestors new).filter (· ∉ g.ids.map f)).map Object.blank) := by
  rw [(h.integralBut_applyMapping hmoves hinj).ensureParent_eq, h.applyMapping_eq hinj hf,
    ids_relabel]

end Graph

end BoxDiagram
