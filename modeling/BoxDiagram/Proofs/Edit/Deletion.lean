import BoxDiagram.Edit.Delta
import BoxDiagram.Proofs.Edit.PublicId

/-!
# Deletions: what they take away, and how it is reported

Deleting an object takes away what lies within it and the edges that touch any of that, deleting a
connection the edge that its key addresses; deleting an attribute empties one slot
(`deleted_of_delete`). The ids that are gone are computed twice: from the key before the deletion, and
by comparing the graphs before and after it. Both give the same report (`deletion_report`): ids of
objects are distinct, and public ids are counted, so either names the objects that are gone and the
public ids of the edges that are gone.
-/

namespace BoxDiagram

open Dotted Edit

namespace Graph

variable {g h : Graph} {key : String} {k : Key} {slot : Slot}

/-! ### Emptying a slot -/

/-- **The slot that a key addresses**: one of the board, of an object or of an edge that is there,
under the name that the attribute part stands for. -/
inductive Locates (g : Graph) : Key → Slot → Prop
  | board {attr : List String} {name : String} (hname : Attribute.nameOf attr = .ok name) :
      Locates g (.object [] attr) (.board name)
  | object {path attr : List String} {name : String} (hpath : path ≠ []) (hid : join path ∈ g.ids)
      (hname : Attribute.nameOf attr = .ok name) :
      Locates g (.object path attr) (.object (join path) name)
  | edge {k : EdgeKey} {i : Nat} {name : String} (hi : g.edgeAt? k = some i)
      (hname : Attribute.nameOf k.attr = .ok name) : Locates g (.edge k) (.edge i name)

theorem Locates.isIn (h : g.Locates k slot) : slot.IsIn g := by
  cases h with
  | board => trivial
  | object hpath hid => exact hid
  | edge hi => exact isIn_of_edgeAt? hi _

theorem locates_of_attributeSlot (h : g.attributeSlot k = .ok slot) : g.Locates k slot := by
  cases k with
  | object path attr =>
    unfold attributeSlot attributeName at h
    obtain ⟨name, hname, h⟩ := bind_eq_ok.mp h
    have hname := mapError_eq_ok.mp hname
    split_ifs at h with hpath
    · rw [← pure_eq_ok.mp h, hpath]
      exact .board hname
    · obtain ⟨id, hid, h⟩ := bind_eq_ok.mp h
      obtain ⟨hmem, rfl⟩ := existing_eq_ok_iff.mp hid
      rw [← pure_eq_ok.mp h]
      exact .object hpath hmem hname
  | edge k =>
    unfold attributeSlot attributeName at h
    obtain ⟨i, hi, h⟩ := bind_eq_ok.mp h
    obtain ⟨name, hname, h⟩ := bind_eq_ok.mp h
    rw [← pure_eq_ok.mp h]
    exact .edge (resolve_eq_ok_iff.mp hi) (mapError_eq_ok.mp hname)

/-- The ids of the objects, and the endpoints and arrows of the edges, in order. -/
def skeleton (g : Graph) : List String × List (String × Arrow × String) :=
  (g.ids, g.edges.map fun e => (e.source, e.arrow, e.target))

theorem skeleton_assign (g : Graph) (value : Option String) (slot : Slot) :
    (g.assign value slot).skeleton = g.skeleton := by
  have hedges : ((g.assign value slot).edges.map fun e => (e.source, e.arrow, e.target)) =
      g.edges.map fun e => (e.source, e.arrow, e.target) := by
    cases slot with
    | board name => rfl
    | object id name => rfl
    | edge i name =>
      refine List.ext_getElem (by simp [assign, assignEdge]) fun j hj hj' => ?_
      simp only [assign, assignEdge, List.getElem_map, List.getElem_modify]
      split_ifs <;> rfl
  unfold skeleton
  rw [ids_assign, hedges]

/-- **The slot is emptied, and nothing else changes** but perhaps the statements that the graph is
printed from. -/
structure Clears (g : Graph) (slot : Slot) (h : Graph) : Prop where
  skeleton : h.skeleton = g.skeleton
  emptied : h.slot? slot = none
  others : ∀ s, s ≠ slot → h.slot? s = g.slot? s

theorem clears_assign (h : slot.IsIn g) : g.Clears slot (g.assign none slot) where
  skeleton := skeleton_assign g none slot
  emptied := slot?_assign_self h
  others _ hs := slot?_assign_of_ne hs

/-! ### Taking away an object -/

/-- The graph without what lies within an id, and without the edges that touch any of that. -/
def prune (g : Graph) (top : String) : Graph :=
  { g with
    objects := g.objects.filter fun o => ¬ segments top <+: segments o.id
    edges := g.edges.filter fun e =>
      ¬ (segments top <+: segments e.source ∨ segments top <+: segments e.target) }

theorem contains_subtree {top id : String} (htop : top ∈ g.ids) (hid : id ∈ g.ids) :
    (g.subtree top).contains id = decide (segments top <+: segments id) := by
  rw [List.contains_eq_mem, decide_eq_decide, mem_subtree_iff htop, isWithin_iff]
  exact and_iff_right hid

theorem Integral.touches_subtree (hg : g.Integral) {top : String} (htop : top ∈ g.ids) {e : Edge}
    (he : e ∈ g.edges) : e.touches (g.subtree top) =
      decide (segments top <+: segments e.source ∨ segments top <+: segments e.target) := by
  obtain ⟨hs, ht⟩ := hg.endpoints e he
  unfold Edge.touches
  rw [contains_subtree htop hs, contains_subtree htop ht, Bool.decide_or]

theorem Integral.removeObjects_subtree (hg : g.Integral) {top : String} (htop : top ∈ g.ids) :
    g.removeObjects (g.subtree top) = g.prune top := by
  have hobjects : (g.objects.filter fun o => !(g.subtree top).contains o.id) =
      g.objects.filter fun o => ¬ segments top <+: segments o.id :=
    List.filter_congr fun o ho => by
      rw [contains_subtree htop (mem_ids_of_mem ho), decide_not]
  have hedges : (g.edges.filter fun e => !e.touches (g.subtree top)) =
      g.edges.filter fun e =>
        ¬ (segments top <+: segments e.source ∨ segments top <+: segments e.target) :=
    List.filter_congr fun e he => by rw [hg.touches_subtree htop he, decide_not]
  unfold Graph.removeObjects prune
  rw [hobjects, hedges]

/-! ### What a deletion takes away -/

/-- **What deleting by a key leaves**: for an object, all but what lies within it and the edges that
touch any of that; for a connection, all but the edge between its ends with the number of the key;
for an attribute, all but the value in its slot. -/
inductive Deleted (g : Graph) : Key → Graph → Prop
  | pruned {path : List String} (hid : join path ∈ g.ids) :
      Deleted g (.object path []) (g.prune (join path))
  | disconnected {k : EdgeKey} {i : Nat} {e : Edge} (hattr : k.attr = []) (he : g.edges[i]? = some e)
      (hends : e.source = k.sourceId ∧ e.target = k.targetId)
      (hnumber : (g.edges.take i).countP (Edge.joins k.sourceId k.targetId) = k.index.getD 0) :
      Deleted g (.edge k) (g.removeEdge i)
  | cleared {k : Key} {slot : Slot} {h : Graph} (hattr : k.attr ≠ []) (hslot : g.Locates k slot)
      (hclears : g.Clears slot h) (hstatements : h.statements = g.statements) : Deleted g k h

theorem statements_assign (g : Graph) (value : Option String) (slot : Slot) :
    (g.assign value slot).statements = g.statements := by
  cases slot <;> rfl

/-- **A deletion takes away what its key addresses, and nothing else.** -/
theorem deleted_of_delete (hg : g.Integral) (hd : g.delete key = .ok h) :
    ∃ k, Key.parse key = .ok k ∧ g.Deleted k h := by
  obtain ⟨k, hk, ⟨path, id, rfl, hid, rfl⟩ | ⟨e, i, rfl, hattr, hi, rfl⟩ | ⟨hattr, slot, hslot, rfl⟩⟩ :=
    of_delete hd
  · obtain ⟨hmem, rfl⟩ := existing_eq_ok_iff.mp hid
    exact ⟨_, hk, hg.removeObjects_subtree hmem ▸ .pruned hmem⟩
  · obtain ⟨edge, hedge, hends, hnumber⟩ := edgeAt?_eq_some_iff.mp (resolve_eq_ok_iff.mp hi)
    exact ⟨_, hk, .disconnected hattr hedge hends hnumber⟩
  · have hlocates : g.Locates k slot := locates_of_attributeSlot hslot
    exact ⟨k, hk, .cleared hattr hlocates (clears_assign hlocates.isIn) (statements_assign g none slot)⟩

/-! ### Reports -/

theorem get?_gone_eq_some_iff {ids : List String} {id v : String} :
    (gone ids).get? id = some v ↔ v = "" ∧ id ∈ ids := by
  have hfunctional : TextMap.Functional (ids.map (·, "")) := fun _ _ _ hv hw => by
    simp only [List.mem_map, Prod.mk.injEq] at hv hw
    obtain ⟨-, -, -, rfl⟩ := hv
    obtain ⟨-, -, -, rfl⟩ := hw
    rfl
  unfold gone
  rw [TextMap.get?_ofList_eq_some_iff hfunctional, List.mem_map]
  constructor
  · rintro ⟨id, hid, ⟨⟩⟩
    exact ⟨rfl, hid⟩
  · rintro ⟨rfl, hid⟩
    exact ⟨id, hid, rfl⟩

theorem gone_congr {ids ids' : List String} (hids : ∀ id, id ∈ ids ↔ id ∈ ids') :
    gone ids = gone ids' :=
  TextMap.ext_get? fun id => Option.ext fun v => by
    rw [get?_gone_eq_some_iff, get?_gone_eq_some_iff, hids]

theorem mem_removedIds {id : String} :
    (id ∈ g.publicIds.filter fun id => h.publicIds.count id < g.publicIds.count id) ∨
      (id ∈ g.ids.filter (!h.contains ·)) ↔
    h.publicIds.count id < g.publicIds.count id ∨ id ∈ g.ids ∧ id ∉ h.ids := by
  rw [List.mem_filter, List.mem_filter, decide_eq_true_iff, Bool.not_eq_true', contains_eq_false_iff,
    and_iff_right_of_imp fun hlt => List.count_pos_iff.mp (Nat.zero_lt_of_lt hlt)]

/-- **A comparison reports** the public ids that have become fewer, and the objects that are gone. -/
theorem get?_removedIds_eq_some_iff {id v : String} : (removedIds g h).get? id = some v ↔
    v = "" ∧ (h.publicIds.count id < g.publicIds.count id ∨ id ∈ g.ids ∧ id ∉ h.ids) := by
  unfold removedIds
  rw [get?_gone_eq_some_iff, List.mem_append, mem_removedIds]

/-- **A comparison finds the public ids that are missing**, if the others are still there. -/
theorem removedIds_eq_gone {edges ids : List String}
    (hedges : g.publicIds.Perm (edges ++ h.publicIds))
    (hids : ∀ id, id ∈ ids ↔ id ∈ g.ids ∧ id ∉ h.ids) : removedIds g h = gone (edges ++ ids) := by
  have hcount : ∀ id, h.publicIds.count id < g.publicIds.count id ↔ id ∈ edges := fun id => by
    rw [hedges.count_eq, List.count_append, ← List.count_pos_iff]
    omega
  refine gone_congr fun id => ?_
  rw [List.mem_append, List.mem_append, mem_removedIds, hcount, hids]

theorem touchingIds_of_integral (hg : g.Integral) (ids : List String) :
    g.touchingIds ids = (g.edges.filter (Edge.touches ids)).map Edge.publicId := by
  unfold touchingIds
  calc (g.edges.zipIdx.filter fun x => x.1.touches ids).map (fun x => g.publicIdOf x.1 x.2)
      = (g.edges.zipIdx.filter fun x => x.1.touches ids).map (fun x => x.1.publicId) :=
        List.map_congr_left fun x hx => publicIdOf_of_integral hg
          (List.fst_mem_of_mem_zipIdx (List.mem_of_mem_filter hx)) x.2
    _ = ((g.edges.zipIdx.map Prod.fst).filter (Edge.touches ids)).map Edge.publicId := by
        rw [List.filter_map, List.map_map]
        rfl
    _ = (g.edges.filter (Edge.touches ids)).map Edge.publicId := by rw [List.zipIdx_map_fst]

/-- **The report of an object**: its subtree, and the public ids of the edges that touch it. -/
theorem removedIds_prune (hg : g.Integral) {top : String} (htop : top ∈ g.ids) :
    removedIds g (g.prune top) = gone (g.touchingIds (g.subtree top) ++ g.subtree top) := by
  rw [← hg.removeObjects_subtree htop]
  apply removedIds_eq_gone
  · rw [touchingIds_of_integral hg, publicIds_of_integral hg,
      publicIds_of_integral (hg.removeSubtree htop), ← List.map_append]
    exact (List.filter_append_perm _ _).symm.map _
  · intro id
    rw [mem_ids_removeObjects, mem_subtree_iff htop]
    tauto

theorem removedIds_removeEdge (hg : g.Integral) {i : Nat} {e : Edge} (he : g.edges[i]? = some e) :
    removedIds g (g.removeEdge i) = gone [e.publicId] := by
  obtain ⟨hi, rfl⟩ := List.getElem?_eq_some_iff.mp he
  rw [← List.append_nil [g.edges[i].publicId]]
  apply removedIds_eq_gone
  · rw [publicIds_of_integral hg, publicIds_of_integral (hg.removeEdge i)]
    exact ((List.getElem_cons_eraseIdx_perm hi).symm).map _
  · intro id
    show id ∈ [] ↔ id ∈ g.ids ∧ id ∉ g.ids
    simp

/-- The public ids are made of the endpoints. -/
theorem publicIds_of_skeleton (hg : g.Integral) :
    g.publicIds = g.skeleton.2.map fun (source, _, target) => edgeId source target := by
  rw [publicIds_of_integral hg]
  unfold skeleton
  rw [List.map_map]
  rfl

theorem Integral.of_skeleton (hg : g.Integral) (hs : h.skeleton = g.skeleton) : h.Integral := by
  obtain ⟨hids, hedges⟩ := Prod.mk.inj hs
  refine hg.of_ids_eq hids fun e he => ?_
  have hmem : (e.source, e.arrow, e.target) ∈ g.edges.map fun e => (e.source, e.arrow, e.target) := by
    rw [← hedges]
    exact List.mem_map_of_mem he
  obtain ⟨e', he', heq⟩ := List.mem_map.mp hmem
  obtain ⟨hsource, -, htarget⟩ : e'.source = e.source ∧ e'.arrow = e.arrow ∧ e'.target = e.target := by
    simpa using heq
  exact hsource ▸ htarget ▸ hg.endpoints e' he'

theorem removedIds_of_skeleton (hg : g.Integral) (hs : h.skeleton = g.skeleton) :
    removedIds g h = ∅ := by
  have hpublic : h.publicIds = g.publicIds := by
    rw [publicIds_of_skeleton hg, publicIds_of_skeleton (hg.of_skeleton hs), hs]
  have hids : h.ids = g.ids := (Prod.mk.inj hs).1
  have hnone : ∀ id, id ∈ [] ↔ id ∈ g.ids ∧ id ∉ h.ids := fun id => by
    rw [hids]
    simp
  calc removedIds g h = gone ([] ++ []) := removedIds_eq_gone (hpublic ▸ List.Perm.refl _) hnone
    _ = ∅ := rfl

/-! ### Both reports -/

/-- **The report that is made from the key is what the comparison finds.** -/
theorem Deleted.deleteDeltas_eq (hd : g.Deleted k h) (hg : g.Integral)
    (hk : Key.parse key = .ok k) : g.deleteDeltas key = .ok (removedIds g h) := by
  cases hd with
  | @pruned path hid =>
    have hfound : g.existing path = .ok (join path) := existing_eq_ok_iff.mpr ⟨hid, rfl⟩
    rw [removedIds_prune hg hid]
    unfold deleteDeltas parseKey
    rw [hk]
    show (g.existing path >>= _) = _
    rw [hfound]
    rfl
  | disconnected hattr he hends hnumber =>
    have hfound := resolve_eq_ok_iff.mpr (edgeAt?_eq_some_iff.mpr ⟨_, he, hends, hnumber⟩)
    rw [removedIds_removeEdge hg he, deleteDeltas_of_parse hk hattr, hfound, Except.map,
      publicId?_of_integral hg he]
    rfl
  | cleared hattr hslot hclears =>
    rw [removedIds_of_skeleton hg hclears.skeleton]
    unfold deleteDeltas parseKey
    rw [hk]
    cases k <;> exact if_pos hattr

/-- **The report of a deletion is exact.** In an integral graph, a deletion takes away what its key
addresses and nothing else, and the report that is made from the key beforehand succeeds and is what
comparing the graphs gives: the objects that are gone and the public ids that have become fewer, each
with the empty text. -/
theorem deletion_report (hg : g.Integral) (hd : g.delete key = .ok h) :
    ∃ k, Key.parse key = .ok k ∧ g.Deleted k h ∧ g.deleteDeltas key = .ok (removedIds g h) ∧
      ∀ id v, (removedIds g h).get? id = some v ↔
        v = "" ∧ (h.publicIds.count id < g.publicIds.count id ∨ id ∈ g.ids ∧ id ∉ h.ids) := by
  obtain ⟨k, hk, hdeleted⟩ := deleted_of_delete hg hd
  exact ⟨k, hk, hdeleted, hdeleted.deleteDeltas_eq hg hk, fun _ _ => get?_removedIds_eq_some_iff⟩

/-- A text with names that start alike, a loop, parallel edges and an edge into a subtree. -/
def entangledText : String := "a.b.c; a.bc; a.b.c -> a.b.c; a.bc -> a; a -> a.b; a.bc -> a; a -> a.b"

theorem deletion_report_entangled : ∃ g h, compile entangledText = .ok g ∧ g.Integral ∧
    g.delete "a.b" = .ok h ∧ h.ids = ["a", "a.bc"] ∧ h.publicIds = ["a.bc->a", "a.bc->a"] ∧
    g.deleteDeltas "a.b" = .ok (removedIds g h) ∧
    (removedIds g h).keys = ["a->a.b", "a.b", "a.b.c", "a.b.c->a.b.c"] ∧
    ((removedIds g h).get? "a->a.b" = some "" ↔ h.publicIds.count "a->a.b" <
      g.publicIds.count "a->a.b" ∨ "a->a.b" ∈ g.ids ∧ "a->a.b" ∉ h.ids) := by
  have hrun : ((compile entangledText).toOption.bind fun g => (g.delete "a.b").toOption.map fun h =>
      (h.ids, h.publicIds, (removedIds g h).keys)) = some (["a", "a.bc"], ["a.bc->a", "a.bc->a"],
        ["a->a.b", "a.b", "a.b.c", "a.b.c->a.b.c"]) := by decide +kernel
  obtain ⟨g, hg, hrun⟩ := Option.bind_eq_some_iff.mp hrun
  obtain ⟨h, hh, hrun⟩ := Option.map_eq_some_iff.mp hrun
  simp only [Prod.mk.injEq] at hrun
  obtain ⟨hids, hpublic, hkeys⟩ := hrun
  have hcompile := toOption_eq_some_iff.mp hg
  have hdelete := toOption_eq_some_iff.mp hh
  have hintegral : g.Integral := (wellFormed_of_compile hcompile).toIntegral
  obtain ⟨k, -, -, hdeltas, hreport⟩ := deletion_report hintegral hdelete
  exact ⟨g, h, hcompile, hintegral, hdelete, hids, hpublic, hdeltas, hkeys,
    (hreport "a->a.b" "").trans (and_iff_right rfl)⟩

end Graph

end BoxDiagram
