import BoxDiagram.Edit.Basic
import BoxDiagram.Proofs.Dotted
import Mathlib.Data.List.Nodup

/-!
# Integral graphs, and the steps that keep them so

A graph is integral if its ids are distinct, the parent of each object is an object as well, and so
are the endpoints of each edge. The steps that edits and commands are made of keep a graph integral:
adding an object with its missing ancestors (`Integral.ensure`), writing attributes, removing what is
closed downwards (`Integral.removeObjects`), and replacing ids one to one (`Integral.remap`).
Replacing may leave one object without its parent; its ancestors can be added afterwards
(`IntegralBut.ensure`).
-/

namespace BoxDiagram

open Dotted

namespace Graph

variable {g : Graph}

/-- The ids are distinct, and parents and endpoints are objects; one id need not have its parent. -/
structure IntegralBut (g : Graph) (orphan : Option String) : Prop where
  nodup : g.ids.Nodup
  parents : ∀ id ∈ g.ids, ∀ p, parent? id = some p → p ∈ g.ids ∨ orphan = some id
  endpoints : ∀ e ∈ g.edges, e.source ∈ g.ids ∧ e.target ∈ g.ids

/-- **An integral graph**: the ids are distinct, and parents and endpoints are objects. -/
structure Integral (g : Graph) : Prop where
  nodup : g.ids.Nodup
  parents : ∀ id ∈ g.ids, ∀ p, parent? id = some p → p ∈ g.ids
  endpoints : ∀ e ∈ g.edges, e.source ∈ g.ids ∧ e.target ∈ g.ids

theorem integral_empty : (∅ : Graph).Integral := ⟨List.nodup_nil, nofun, nofun⟩

theorem contains_iff {id : String} : g.contains id = true ↔ id ∈ g.ids := List.contains_iff_mem

theorem contains_eq_false_iff {id : String} : g.contains id = false ↔ id ∉ g.ids := by
  rw [← contains_iff, Bool.not_eq_true]

theorem mem_ids_of_mem {o : Object} (h : o ∈ g.objects) : o.id ∈ g.ids := List.mem_map_of_mem h

theorem mem_childObjects {o : Object} {parent : Option String} :
    o ∈ g.childObjects parent ↔ o ∈ g.objects ∧ parent? o.id = parent := by
  unfold childObjects
  rw [List.mem_filter, decide_eq_true_eq, o.parent_eq]

theorem mem_children {parent : Option String} {id : String} :
    id ∈ g.children parent ↔ id ∈ g.ids ∧ parent? id = parent := by
  unfold children ids
  simp only [List.mem_map, mem_childObjects]
  constructor
  · rintro ⟨o, ⟨ho, hp⟩, rfl⟩
    exact ⟨⟨o, ho, rfl⟩, hp⟩
  · rintro ⟨⟨o, ho, rfl⟩, hp⟩
    exact ⟨o, ⟨ho, hp⟩, rfl⟩

/-! ### Ancestors -/

theorem Integral.mem_of_isWithin (h : g.Integral) {id top : String} (hid : id ∈ g.ids)
    (hw : isWithin id top = true) : top ∈ g.ids := by
  induction id using parentInduction with
  | root id hr =>
    rw [← mem_lineage, lineage_of_root hr, List.mem_singleton] at hw
    exact hw ▸ hid
  | child id p hp ih =>
    rw [← mem_lineage, lineage_of_parent hp, List.mem_cons] at hw
    rcases hw with rfl | hw
    · exact hid
    · exact ih (h.parents id hid p hp) (mem_lineage.mp hw)

theorem Integral.find?_eq (h : g.Integral) {o : Object} (ho : o ∈ g.objects) :
    g.find? o.id = some o := by
  unfold find?
  rw [List.find?_eq_some_iff_append]
  refine ⟨by simp, ?_⟩
  obtain ⟨before, after, he⟩ := List.append_of_mem ho
  refine ⟨before, after, he, fun o' ho' => ?_⟩
  have hnodup := h.nodup
  unfold ids at hnodup
  rw [he, List.map_append, List.nodup_append] at hnodup
  simpa using hnodup.2.2 o'.id (List.mem_map_of_mem ho') o.id (by simp)

/-! ### Adding an object with its ancestors -/

theorem missing_of_mem {id : String} (h : id ∈ g.ids) : g.missing id = [] := by
  unfold missing
  cases hp : parent? id with
  | none => rw [lineage_of_root hp, List.takeWhile_cons_of_neg (by simp [contains_iff.mpr h])]; rfl
  | some p => rw [lineage_of_parent hp, List.takeWhile_cons_of_neg (by simp [contains_iff.mpr h])]; rfl

theorem missing_of_root {id : String} (h : id ∉ g.ids) (hp : parent? id = none) :
    g.missing id = [id] := by
  unfold missing
  rw [lineage_of_root hp, List.takeWhile_cons_of_pos (by simp [contains_eq_false_iff.mpr h])]
  rfl

theorem missing_of_parent {id p : String} (h : id ∉ g.ids) (hp : parent? id = some p) :
    g.missing id = g.missing p ++ [id] := by
  unfold missing
  rw [lineage_of_parent hp, List.takeWhile_cons_of_pos (by simp [contains_eq_false_iff.mpr h]),
    List.reverse_cons]

theorem of_mem_missing {x id : String} (hx : x ∈ g.missing id) :
    x ∉ g.ids ∧ isWithin id x = true := by
  unfold missing at hx
  rw [List.mem_reverse] at hx
  refine ⟨?_, mem_lineage.mp ((List.takeWhile_sublist _).subset hx)⟩
  have hb := List.all_eq_true.mp List.all_takeWhile x hx
  exact contains_eq_false_iff.mp (by simpa using hb)

theorem nodup_missing (g : Graph) (id : String) : (g.missing id).Nodup := by
  induction id using parentInduction with
  | root id hp =>
    by_cases h : id ∈ g.ids
    · rw [missing_of_mem h]; exact List.nodup_nil
    · rw [missing_of_root h hp]; exact List.nodup_singleton id
  | child id p hp ih =>
    by_cases h : id ∈ g.ids
    · rw [missing_of_mem h]; exact List.nodup_nil
    · rw [missing_of_parent h hp, List.nodup_append]
      refine ⟨ih, List.nodup_singleton id, fun x hx y hy => ?_⟩
      rw [List.mem_singleton.mp hy]
      rintro rfl
      exact not_isWithin_child hp (of_mem_missing hx).2

theorem ids_ensure (g : Graph) (id : String) : (g.ensure id).ids = g.ids ++ g.missing id := by
  simp [ensure, ids, Object.blank, Function.comp_def]

theorem ensure_of_mem {id : String} (h : id ∈ g.ids) : g.ensure id = g := by
  unfold ensure
  rw [missing_of_mem h]
  simp

theorem mem_ids_ensure_of_mem {x : String} (h : x ∈ g.ids) (id : String) : x ∈ (g.ensure id).ids := by
  rw [ids_ensure]
  exact List.mem_append_left _ h

theorem mem_ids_ensure (g : Graph) (id : String) : id ∈ (g.ensure id).ids := by
  by_cases h : id ∈ g.ids
  · exact mem_ids_ensure_of_mem h id
  rw [ids_ensure]
  cases hp : parent? id with
  | none => rw [missing_of_root h hp]; simp
  | some p => rw [missing_of_parent h hp]; simp

theorem parent_mem_ids_ensure {id x p : String} (hx : x ∈ g.missing id) (hp : parent? x = some p) :
    p ∈ (g.ensure id).ids := by
  induction id using parentInduction with
  | root id hr =>
    by_cases h : id ∈ g.ids
    · simp [missing_of_mem h] at hx
    · rw [missing_of_root h hr, List.mem_singleton] at hx
      rw [hx, hr] at hp
      simp at hp
  | child id q hq ih =>
    by_cases h : id ∈ g.ids
    · simp [missing_of_mem h] at hx
    · have hids : (g.ensure id).ids = (g.ensure q).ids ++ [id] := by
        rw [ids_ensure, ids_ensure, missing_of_parent h hq, List.append_assoc]
      rw [missing_of_parent h hq, List.mem_append, List.mem_singleton] at hx
      rw [hids]
      refine List.mem_append_left _ ?_
      rcases hx with hx | rfl
      · exact ih hx
      · rw [hp] at hq
        exact Option.some.inj hq ▸ mem_ids_ensure g p

/-- **Adding an object with its ancestors** makes a graph integral, if it is the parent of the
orphan where there is one. -/
theorem IntegralBut.ensure {orphan : Option String} (h : g.IntegralBut orphan) {id : String}
    (horphan : ∀ x ∈ orphan, parent? x = some id) : (g.ensure id).Integral where
  nodup := by
    rw [ids_ensure, List.nodup_append]
    refine ⟨h.nodup, nodup_missing g id, fun x hx y hy => ?_⟩
    rintro rfl
    exact (of_mem_missing hy).1 hx
  parents x hx p hp := by
    rw [ids_ensure, List.mem_append] at hx
    rcases hx with hx | hx
    · rcases h.parents x hx p hp with hmem | ho
      · exact mem_ids_ensure_of_mem hmem id
      · have heq := hp.symm.trans (horphan x ho)
        exact Option.some.inj heq ▸ mem_ids_ensure g id
    · exact parent_mem_ids_ensure hx hp
  endpoints e he :=
    ⟨mem_ids_ensure_of_mem (h.endpoints e he).1 id, mem_ids_ensure_of_mem (h.endpoints e he).2 id⟩

theorem Integral.integralBut (h : g.Integral) (orphan : Option String) : g.IntegralBut orphan :=
  ⟨h.nodup, fun id hid p hp => Or.inl (h.parents id hid p hp), h.endpoints⟩

theorem Integral.ensure (h : g.Integral) (id : String) : (g.ensure id).Integral :=
  (h.integralBut none).ensure (by simp)

/-! ### Adding several objects -/

theorem Integral.foldl_ensure (h : g.Integral) (ids : List String) :
    (ids.foldl Graph.ensure g).Integral := by
  induction ids generalizing g with
  | nil => exact h
  | cons id ids ih => exact ih (h.ensure id)

theorem mem_ids_foldl_ensure_of_mem {x : String} (h : x ∈ g.ids) (ids : List String) :
    x ∈ (ids.foldl ensure g).ids := by
  induction ids generalizing g with
  | nil => exact h
  | cons id ids ih => exact ih (mem_ids_ensure_of_mem h id)

theorem mem_ids_foldl_ensure {x : String} {ids : List String} (h : x ∈ ids) :
    x ∈ (ids.foldl ensure g).ids := by
  induction ids generalizing g with
  | nil => simp at h
  | cons id ids ih =>
    rw [List.foldl_cons]
    rcases List.mem_cons.mp h with rfl | h
    · exact mem_ids_foldl_ensure_of_mem (mem_ids_ensure g x) ids
    · exact ih h

theorem foldl_ensure_of_mem {ids : List String} (h : ∀ id ∈ ids, id ∈ g.ids) :
    ids.foldl ensure g = g := by
  induction ids with
  | nil => rfl
  | cons id ids ih =>
    obtain ⟨hid, hids⟩ := List.forall_mem_cons.mp h
    rw [List.foldl_cons, ensure_of_mem hid, ih hids]

/-! ### Writing attributes and adding edges -/

theorem Integral.of_ids_eq (h : g.Integral) {k : Graph} (hids : k.ids = g.ids)
    (hedges : ∀ e ∈ k.edges, e.source ∈ g.ids ∧ e.target ∈ g.ids) : k.Integral where
  nodup := hids ▸ h.nodup
  parents := hids ▸ h.parents
  endpoints := hids ▸ hedges

theorem ids_assignObject (g : Graph) (id name : String) (value : Option String) :
    (g.assignObject id name value).ids = g.ids := by
  unfold ids assignObject
  rw [List.map_map]
  refine List.map_congr_left fun o _ => ?_
  by_cases h : o.id = id <;> simp [h, Object.assign]

theorem ids_assign (g : Graph) (value : Option String) (slot : Slot) :
    (g.assign value slot).ids = g.ids := by
  cases slot with
  | board name => rfl
  | object id name => exact ids_assignObject g id name value
  | edge i name => rfl

theorem mem_edges_assign {value : Option String} {slot : Slot} {e : Edge}
    (h : e ∈ (g.assign value slot).edges) :
    ∃ e' ∈ g.edges, e'.source = e.source ∧ e'.target = e.target := by
  cases slot with
  | board name => exact ⟨e, h, rfl, rfl⟩
  | object id name => exact ⟨e, h, rfl, rfl⟩
  | edge i name =>
    obtain ⟨j, hj, rfl⟩ := List.getElem_of_mem h
    have hj' : j < g.edges.length := by simpa [assign, assignEdge] using hj
    refine ⟨g.edges[j], List.getElem_mem hj', ?_⟩
    simp only [assign, assignEdge, List.getElem_modify]
    split <;> exact ⟨rfl, rfl⟩

theorem Integral.assign (h : g.Integral) (value : Option String) (slot : Slot) :
    (g.assign value slot).Integral := by
  refine h.of_ids_eq (ids_assign g value slot) fun e he => ?_
  obtain ⟨e', he', hs, ht⟩ := mem_edges_assign he
  exact hs ▸ ht ▸ h.endpoints e' he'

theorem Integral.addEdges (h : g.Integral) {es : List Edge}
    (hes : ∀ e ∈ es, e.source ∈ g.ids ∧ e.target ∈ g.ids) :
    Integral { g with edges := g.edges ++ es } :=
  h.of_ids_eq rfl (List.forall_mem_append.mpr ⟨h.endpoints, hes⟩)

theorem Integral.removeEdge (h : g.Integral) (i : Nat) : (g.removeEdge i).Integral :=
  h.of_ids_eq rfl fun e he => h.endpoints e (List.mem_of_mem_eraseIdx he)

theorem Integral.withStatements (h : g.Integral) (statements : Option (List Statement)) :
    (g.withStatements statements).Integral := h.of_ids_eq rfl h.endpoints

/-! ### Removing objects -/

theorem mem_ids_removeObjects {removed : List String} {id : String} :
    id ∈ (g.removeObjects removed).ids ↔ id ∈ g.ids ∧ id ∉ removed := by
  unfold ids removeObjects
  simp only [List.mem_map, List.mem_filter, Bool.not_eq_true', List.contains_eq_mem,
    decide_eq_false_iff_not]
  constructor
  · rintro ⟨o, ⟨ho, hr⟩, rfl⟩
    exact ⟨⟨o, ho, rfl⟩, hr⟩
  · rintro ⟨⟨o, ho, rfl⟩, hr⟩
    exact ⟨o, ⟨ho, hr⟩, rfl⟩

/-- **Removing what is closed downwards** keeps a graph integral. -/
theorem Integral.removeObjects (h : g.Integral) {removed : List String}
    (hclosed : ∀ id ∈ g.ids, ∀ p ∈ removed, parent? id = some p → id ∈ removed) :
    (g.removeObjects removed).Integral where
  nodup := h.nodup.sublist ((List.filter_sublist).map _)
  parents id hid p hp := by
    rw [mem_ids_removeObjects] at hid ⊢
    exact ⟨h.parents id hid.1 p hp, fun hr => hid.2 (hclosed id hid.1 p hr hp)⟩
  endpoints e he := by
    obtain ⟨hmem, hfree⟩ := List.mem_filter.mp he
    rw [mem_ids_removeObjects, mem_ids_removeObjects]
    have hends := h.endpoints e hmem
    simp only [Edge.touches, Bool.not_or, Bool.and_eq_true, Bool.not_eq_true', List.contains_eq_mem,
      decide_eq_false_iff_not] at hfree
    exact ⟨⟨hends.1, hfree.1⟩, hends.2, hfree.2⟩

theorem mem_subtree {id x : String} :
    x ∈ g.subtree id ↔ x = id ∨ x ∈ g.ids ∧ x ≠ id ∧ isWithin x id = true := by
  unfold subtree descendants
  simp

theorem mem_subtree_iff {id x : String} (h : id ∈ g.ids) :
    x ∈ g.subtree id ↔ x ∈ g.ids ∧ isWithin x id = true := by
  rw [mem_subtree]
  constructor
  · rintro (rfl | ⟨hx, -, hw⟩)
    · exact ⟨h, isWithin_self x⟩
    · exact ⟨hx, hw⟩
  · rintro ⟨hx, hw⟩
    by_cases hne : x = id
    · exact Or.inl hne
    · exact Or.inr ⟨hx, hne, hw⟩

theorem Integral.removeSubtree (h : g.Integral) {id : String} (hid : id ∈ g.ids) :
    (g.removeObjects (g.subtree id)).Integral :=
  h.removeObjects fun x hx p hp hpar => by
    rw [mem_subtree_iff hid] at hp ⊢
    exact ⟨hx, isWithin_trans (isWithin_parent hpar) hp.2⟩

/-! ### Replacing ids -/

theorem foldl_put : ∀ {os done : List Object}, ((done ++ os).map (·.id)).Nodup →
    os.foldl put done = done ++ os
  | [], done, _ => by simp
  | o :: os, done, h => by
    have hnew : done.any (·.id = o.id) = false := by
      rw [List.map_append, List.nodup_append] at h
      simp only [List.any_eq_false, decide_eq_true_eq]
      exact fun x hx => h.2.2 x.id (List.mem_map_of_mem hx) o.id (by simp)
    have hput : put done o = done ++ [o] := by
      unfold put
      rw [hnew]
      rfl
    rw [← List.singleton_append, ← List.append_assoc] at h
    rw [List.foldl_cons, hput, foldl_put h, List.append_assoc, List.singleton_append]

theorem objects_remap {f : String → String} (hf : (g.ids.map f).Nodup) :
    (g.remap f).objects = g.objects.map fun o => o.withId (f o.id) := by
  refine (foldl_put ?_).trans (List.nil_append _)
  simpa [ids, Object.withId, Function.comp_def] using hf

theorem ids_remap {f : String → String} (hf : (g.ids.map f).Nodup) :
    (g.remap f).ids = g.ids.map f := by
  unfold ids
  rw [objects_remap hf]
  simp [Object.withId, Function.comp_def]

/-- **Replacing ids one to one** keeps a graph integral, if parents stay parents; one of the new ids
may lose its parent. -/
theorem Integral.remap (h : g.Integral) {f : String → String} {orphan : Option String}
    (hf : ∀ x ∈ g.ids, ∀ y ∈ g.ids, f x = f y → x = y)
    (hparents : ∀ id ∈ g.ids, ∀ p, parent? (f id) = some p →
      (∃ q ∈ g.ids, p = f q) ∨ orphan = some (f id)) :
    (g.remap f).IntegralBut orphan := by
  have hnodup : (g.ids.map f).Nodup := h.nodup.map_on hf
  have hids := ids_remap hnodup
  refine ⟨hids ▸ hnodup, ?_, ?_⟩
  · rw [hids]
    intro x hx p hp
    obtain ⟨id, hid, rfl⟩ := List.mem_map.mp hx
    rcases hparents id hid p hp with ⟨q, hq, rfl⟩ | ho
    · exact Or.inl (List.mem_map_of_mem hq)
    · exact Or.inr ho
  · rw [hids]
    intro e he
    obtain ⟨e', he', rfl⟩ := List.mem_map.mp he
    exact ⟨List.mem_map_of_mem (h.endpoints e' he').1, List.mem_map_of_mem (h.endpoints e' he').2⟩

end Graph

end BoxDiagram
