import BoxDiagram.Edit.Remap
import BoxDiagram.Proofs.Edit.FreeId

/-!
# Moving ids

Moving an object, with its descendants or without them, replaces ids so that every object but the
moved one finds its parent again (`relocates_transplant`, `relocates_hoist`). A mapping that passes
the check is one to one (`injective_of_checkMapping`), and so is the transplantation to a free id,
because nothing lies below an id that is free (`injective_transplant`). So a move with the missing
ancestors of its target keeps a graph integral (`Integral.moved`), and a renaming does so as it
stands (`Integral.renamed`).
-/

namespace BoxDiagram

open Dotted

namespace Graph

variable {g : Graph}

/-- The new id of an id under a list of moves. -/
def newId (moves : List (String × String)) (id : String) : String :=
  ((TextMap.ofList moves).get? id).getD id

theorem applyMapping_ofList (g : Graph) (moves : List (String × String)) :
    g.applyMapping (TextMap.ofList moves) = g.remap (newId moves) := rfl

theorem newId_of_mem {moves : List (String × String)} (h : TextMap.Functional moves)
    {id new : String} (hmem : (id, new) ∈ moves) : newId moves id = new := by
  unfold newId
  rw [(TextMap.get?_ofList_eq_some_iff h).mpr hmem]
  rfl

theorem newId_of_notMem {moves : List (String × String)} {id : String}
    (h : ∀ new, (id, new) ∉ moves) : newId moves id = id := by
  unfold newId
  cases hget : (TextMap.ofList moves).get? id with
  | none => rfl
  | some new => exact absurd (TextMap.mem_of_get?_ofList hget) (h new)

/-- **A move of an object**: its id becomes the new one, and every other object has a parent again;
what all segments have, they keep if the new id has it. -/
structure Relocates (g : Graph) (f : String → String) (old new : String) : Prop where
  top : f old = new
  parents : ∀ id ∈ g.ids, id ≠ old → ∀ p, parent? (f id) = some p → ∃ q ∈ g.ids, p = f q
  names : ∀ p, g.Named p → EverySegment p new → ∀ id ∈ g.ids, EverySegment p (f id)

/-! ### Moving with descendants -/

theorem mem_transplant {old new id v : String} :
    (id, v) ∈ g.transplant old new ↔ id ∈ g.subtree old ∧ v = new ++ remainder id old := by
  unfold transplant
  rw [List.mem_map]
  constructor
  · rintro ⟨x, hx, he⟩
    obtain ⟨rfl, rfl⟩ := Prod.mk.inj he
    exact ⟨hx, rfl⟩
  · rintro ⟨hx, rfl⟩
    exact ⟨id, hx, rfl⟩

theorem mem_transplant_iff {old new id v : String} (hold : old ∈ g.ids) :
    (id, v) ∈ g.transplant old new ↔
      id ∈ g.ids ∧ isWithin id old = true ∧ v = new ++ remainder id old := by
  rw [mem_transplant, mem_subtree_iff hold, and_assoc]

theorem functional_transplant (old new : String) : TextMap.Functional (g.transplant old new) :=
  fun _ _ _ hv hw => (mem_transplant.mp hv).2.trans (mem_transplant.mp hw).2.symm

section Transplant

variable {old : String} (hold : old ∈ g.ids) (new : String)
include hold

theorem newId_transplant_of_isWithin {id : String} (hid : id ∈ g.ids)
    (hw : isWithin id old = true) :
    newId (g.transplant old new) id = new ++ remainder id old :=
  newId_of_mem (functional_transplant old new) ((mem_transplant_iff hold).mpr ⟨hid, hw, rfl⟩)

theorem newId_transplant_of_not_isWithin {id : String} (hw : ¬ isWithin id old = true) :
    newId (g.transplant old new) id = id :=
  newId_of_notMem fun _ hmem => hw ((mem_transplant_iff hold).mp hmem).2.1

theorem newId_transplant_top : newId (g.transplant old new) old = new := by
  rw [newId_transplant_of_isWithin hold new hold (isWithin_self old), remainder_self]
  simp

/-- **Moving with descendants** gives every object but the moved one its parent again. -/
theorem Integral.relocates_transplant (h : g.Integral) :
    g.Relocates (newId (g.transplant old new)) old new where
  top := newId_transplant_top hold new
  parents id hid hne p hp := by
    by_cases hw : isWithin id old = true
    · obtain ⟨q, hq, hqw⟩ := isWithin_parent?_of_ne hw hne
      have hqmem := h.parents id hid q hq
      refine ⟨q, hqmem, ?_⟩
      rw [newId_transplant_of_isWithin hold new hid hw, parent?_append_remainder hq hqw] at hp
      rw [newId_transplant_of_isWithin hold new hqmem hqw, Option.some.inj hp]
    · rw [newId_transplant_of_not_isWithin hold new hw] at hp
      have hpw : ¬ isWithin p old = true := fun hpw => hw (isWithin_trans (isWithin_parent hp) hpw)
      exact ⟨p, h.parents id hid p hp, (newId_transplant_of_not_isWithin hold new hpw).symm⟩
  names p hnamed hnew id hid := by
    by_cases hw : isWithin id old = true
    · rw [newId_transplant_of_isWithin hold new hid hw]
      exact (hnamed id hid).append_remainder hw hnew
    · rw [newId_transplant_of_not_isWithin hold new hw]
      exact hnamed id hid

end Transplant

/-! ### Moving without descendants -/

/-- The place of a child of `old` once `old` is gone. -/
def hoisted (old child : String) : String := below (parent? old) (leaf child)

/-- A move without descendants moves the object, and with each of its children what lies within it. -/
theorem mem_hoist {old new id v : String} : (id, v) ∈ g.hoist old new ↔
    (id = old ∧ v = new) ∨ ∃ c ∈ g.children (some old),
      id ∈ g.ids ∧ isWithin id c = true ∧ v = hoisted old c ++ remainder id c := by
  unfold hoist
  rw [List.mem_cons, List.mem_flatMap, Prod.mk.injEq]
  refine or_congr_right (exists_congr fun c => and_congr_right fun hc => ?_)
  exact mem_transplant_iff (mem_children.mp hc).1

theorem Integral.exists_child (h : g.Integral) {old id : String} (hid : id ∈ g.ids)
    (hw : isWithin id old = true) (hne : id ≠ old) :
    ∃ c ∈ g.children (some old), isWithin id c = true := by
  induction id using parentInduction with
  | root id hr =>
    obtain ⟨p, hp, -⟩ := isWithin_parent?_of_ne hw hne
    rw [hr] at hp
    simp at hp
  | child id p hp ih =>
    obtain ⟨q, hq, hqw⟩ := isWithin_parent?_of_ne hw hne
    rw [hp] at hq
    obtain rfl := Option.some.inj hq
    by_cases hpo : p = old
    · exact ⟨id, mem_children.mpr ⟨hid, hpo ▸ hp⟩, isWithin_self id⟩
    · obtain ⟨c, hc, hpc⟩ := ih (h.parents id hid p hp) hqw hpo
      exact ⟨c, hc, isWithin_trans (isWithin_parent hp) hpc⟩

theorem functional_hoist (old new : String) : TextMap.Functional (g.hoist old new) := by
  intro id v w hv hw
  rw [mem_hoist] at hv hw
  have hself : ∀ c ∈ g.children (some old), ¬ isWithin old c = true := fun c hc =>
    not_isWithin_child (mem_children.mp hc).2
  rcases hv with ⟨rfl, rfl⟩ | ⟨c, hc, -, hcw, rfl⟩
  · rcases hw with ⟨-, rfl⟩ | ⟨c, hc, -, hcw, -⟩
    · rfl
    · exact absurd hcw (hself c hc)
  · rcases hw with ⟨rfl, -⟩ | ⟨d, hd, -, hdw, rfl⟩
    · exact absurd hcw (hself c hc)
    · -- siblings have nothing in common below them
      have hsiblings := (mem_children.mp hc).2.trans (mem_children.mp hd).2.symm
      rw [eq_of_isWithin_siblings hsiblings hcw hdw]

section Hoist

variable {old : String} (new : String)

theorem newId_hoist_top : newId (g.hoist old new) old = new :=
  newId_of_mem (functional_hoist old new) (mem_hoist.mpr (Or.inl ⟨rfl, rfl⟩))

theorem newId_hoist_of_isWithin {id c : String} (hc : c ∈ g.children (some old)) (hid : id ∈ g.ids)
    (hw : isWithin id c = true) :
    newId (g.hoist old new) id = hoisted old c ++ remainder id c :=
  newId_of_mem (functional_hoist old new) (mem_hoist.mpr (Or.inr ⟨c, hc, hid, hw, rfl⟩))

theorem newId_hoist_of_not_isWithin {id : String} (hw : ¬ isWithin id old = true) :
    newId (g.hoist old new) id = id := by
  refine newId_of_notMem fun v hmem => ?_
  rcases mem_hoist.mp hmem with ⟨rfl, -⟩ | ⟨c, hc, -, hcw, -⟩
  · exact hw (isWithin_self id)
  · exact hw (isWithin_trans hcw (isWithin_parent (mem_children.mp hc).2))

/-- **Moving without descendants** gives every object but the moved one its parent again. -/
theorem Integral.relocates_hoist (h : g.Integral) (hold : old ∈ g.ids) :
    g.Relocates (newId (g.hoist old new)) old new where
  top := newId_hoist_top new
  parents id hid hne p hp := by
    -- what stays outside of the old id keeps its parent
    have hout : ∀ x, ¬ isWithin x old = true → newId (g.hoist old new) x = x :=
      fun x hx => newId_hoist_of_not_isWithin new hx
    by_cases hw : isWithin id old = true
    · obtain ⟨c, hc, hcw⟩ := h.exists_child hid hw hne
      rw [newId_hoist_of_isWithin new hc hid hcw] at hp
      by_cases hcid : id = c
      · rw [hcid, remainder_self, String.append_empty, hoisted, parent?_below (noDot_leaf c)] at hp
        exact ⟨p, h.parents old hold p hp, (hout p (not_isWithin_child hp)).symm⟩
      · obtain ⟨q, hq, hqw⟩ := isWithin_parent?_of_ne hcw hcid
        have hqmem := h.parents id hid q hq
        rw [parent?_append_remainder hq hqw] at hp
        exact ⟨q, hqmem, by rw [newId_hoist_of_isWithin new hc hqmem hqw, Option.some.inj hp]⟩
    · rw [hout id hw] at hp
      have hpw : ¬ isWithin p old = true := fun hpw => hw (isWithin_trans (isWithin_parent hp) hpw)
      exact ⟨p, h.parents id hid p hp, (hout p hpw).symm⟩
  names p hnamed hnew id hid := by
    by_cases hne : id = old
    · rw [hne, newId_hoist_top]
      exact hnew
    by_cases hw : isWithin id old = true
    · obtain ⟨c, hc, hcw⟩ := h.exists_child hid hw hne
      obtain ⟨hcmem, -⟩ := mem_children.mp hc
      have hleaf : p (leaf c) := hnamed c hcmem _ (leaf_mem_segments c)
      have hparent : ∀ q ∈ parent? old, EverySegment p q := fun q hq =>
        hnamed q (h.parents old hold q hq)
      rw [newId_hoist_of_isWithin new hc hid hcw]
      exact (hnamed id hid).append_remainder hcw (everySegment_below hparent (noDot_leaf c) hleaf)
    · rw [newId_hoist_of_not_isWithin new hw]
      exact hnamed id hid

end Hoist

/-! ### One to one -/

/-- **What the check of a mapping makes sure of**: the new ids are distinct, and each of them is the
old one, or free, or given up by the mapping. -/
theorem checkMapping_eq_ok_iff {mapping : TextMap String} : ∀ {es : List (String × String)}
    {seen : List String}, g.checkMapping mapping seen es = .ok () ↔
      (∀ e ∈ es, e.2 ∉ seen) ∧ (es.map (·.2)).Nodup ∧
        ∀ e ∈ es, e.1 = e.2 ∨ e.2 ∉ g.ids ∨ mapping.contains e.2 = true
  | [], seen => by simp [checkMapping]
  | (old, new) :: es, seen => by
    have hguard : (old ≠ new ∧ g.contains new = true ∧ (!mapping.contains new) = true) ↔
        ¬ (old = new ∨ new ∉ g.ids ∨ mapping.contains new = true) := by
      rw [← contains_iff]
      simp
    have hseen : (∀ e ∈ es, e.2 ∉ new :: seen) ↔ new ∉ es.map (·.2) ∧ ∀ e ∈ es, e.2 ∉ seen := by
      simp only [List.mem_cons, not_or, forall₂_and, List.mem_map, not_exists, not_and]
    unfold checkMapping
    rw [List.forall_mem_cons, List.forall_mem_cons, List.map_cons, List.nodup_cons]
    split_ifs with hnew hexists
    · have hmem : new ∈ seen := by simpa using hnew
      simp [hmem]
    · rw [hguard] at hexists
      simp [hexists]
    · have hnot : new ∉ seen := by simpa using hnew
      rw [hguard, not_not] at hexists
      rw [checkMapping_eq_ok_iff, hseen]
      constructor
      · rintro ⟨⟨hfresh, hrest⟩, hnodup, hfree⟩
        exact ⟨⟨hnot, hrest⟩, ⟨hfresh, hnodup⟩, hexists, hfree⟩
      · rintro ⟨⟨-, hrest⟩, ⟨hfresh, hnodup⟩, -, hfree⟩
        exact ⟨⟨hfresh, hrest⟩, hnodup, hfree⟩

/-- **A mapping that passes the check is one to one** on the ids. -/
theorem injective_of_checkMapping {moves : List (String × String)}
    (h : g.checkMapping (TextMap.ofList moves) [] (TextMap.ofList moves).entries = .ok ()) :
    ∀ x ∈ g.ids, ∀ y ∈ g.ids, newId moves x = newId moves y → x = y := by
  obtain ⟨-, hnodup, hfree⟩ := checkMapping_eq_ok_iff.mp h
  -- a moved id takes the place of one that stays only if that is its own
  have hstay : ∀ x y, y ∈ g.ids → (TextMap.ofList moves).get? x = some y →
      (TextMap.ofList moves).get? y = none → x = y := fun x y hy hx hnone => by
    rcases hfree (x, y) (TextMap.mem_entries_iff.mpr hx) with he | hnot | hcontains
    · exact he
    · exact absurd hy hnot
    · obtain ⟨v, hv⟩ := TextMap.contains_iff.mp hcontains
      rw [hnone] at hv
      simp at hv
  intro x hx y hy he
  unfold newId at he
  cases hgx : (TextMap.ofList moves).get? x with
  | none =>
    cases hgy : (TextMap.ofList moves).get? y with
    | none => simpa [hgx, hgy] using he
    | some b =>
      have hxb : x = b := by simpa [hgx, hgy] using he
      exact (hstay y x hx (hxb ▸ hgy) hgx).symm
  | some a =>
    cases hgy : (TextMap.ofList moves).get? y with
    | none =>
      have hay : a = y := by simpa [hgx, hgy] using he
      exact hstay x y hy (hay ▸ hgx) hgy
    | some b =>
      have hab : a = b := by simpa [hgx, hgy] using he
      have heq := List.inj_on_of_nodup_map hnodup (TextMap.mem_entries_iff.mpr hgx)
        (TextMap.mem_entries_iff.mpr hgy) hab
      exact congrArg Prod.fst heq

/-- Nothing lies within a free id, so what is put in front of a remainder leads to no object. -/
theorem Integral.append_remainder_notMem (h : g.Integral) {old new id : String} (hnew : new ∉ g.ids)
    (hw : isWithin id old = true) : new ++ remainder id old ∉ g.ids :=
  fun hmem => hnew (h.mem_of_isWithin hmem (isWithin_append_remainder hw new))

/-- **A transplantation to a free id is one to one**: what is moved lies within the free id, and
nothing else does. -/
theorem Integral.injective_transplant (h : g.Integral) {old new : String} (hold : old ∈ g.ids)
    (hnew : new ∉ g.ids) : ∀ x ∈ g.ids, ∀ y ∈ g.ids,
      newId (g.transplant old new) x = newId (g.transplant old new) y → x = y := by
  intro x hx y hy he
  by_cases hxw : isWithin x old = true
  · rw [newId_transplant_of_isWithin hold new hx hxw] at he
    by_cases hyw : isWithin y old = true
    · rw [newId_transplant_of_isWithin hold new hy hyw, String.append_right_inj] at he
      rw [← append_remainder hxw, he, append_remainder hyw]
    · rw [newId_transplant_of_not_isWithin hold new hyw] at he
      exact absurd (he ▸ hy) (h.append_remainder_notMem hnew hxw)
  · rw [newId_transplant_of_not_isWithin hold new hxw] at he
    by_cases hyw : isWithin y old = true
    · rw [newId_transplant_of_isWithin hold new hy hyw] at he
      exact absurd (he ▸ hx) (h.append_remainder_notMem hnew hyw)
    · rwa [newId_transplant_of_not_isWithin hold new hyw] at he

/-! ### Moved and renamed graphs -/

section Moved

variable {moves : List (String × String)} {old new : String} (h : g.Integral)
  (hmoves : g.Relocates (newId moves) old new)
  (hinj : ∀ x ∈ g.ids, ∀ y ∈ g.ids, newId moves x = newId moves y → x = y)
include h hmoves hinj

theorem Integral.integralBut_applyMapping :
    (g.applyMapping (TextMap.ofList moves)).IntegralBut (some new) :=
  h.remap hinj fun id hid p hp => by
    by_cases hne : id = old
    · subst hne
      exact Or.inr (congrArg some hmoves.top.symm)
    · exact Or.inl (hmoves.parents id hid hne p hp)

/-- **A move with the missing ancestors of its target** keeps a graph integral. -/
theorem Integral.moved : ((g.applyMapping (TextMap.ofList moves)).ensureParent new).Integral := by
  have hbut := h.integralBut_applyMapping hmoves hinj
  unfold ensureParent
  cases hp : parent? new with
  | none =>
    refine ⟨hbut.nodup, fun id hid p hpar => (hbut.parents id hid p hpar).resolve_right ?_,
      hbut.endpoints⟩
    rintro he
    rw [← Option.some.inj he, hp] at hpar
    simp at hpar
  | some p => exact hbut.ensure fun x hx => Option.some.inj hx ▸ hp

end Moved

/-- **A renaming keeps a graph integral**: the parent of the renamed object stays. -/
theorem Integral.renamed (h : g.Integral) {old name : String} (hold : old ∈ g.ids)
    (hname : '.' ∉ name.toList) (hfree : below (parent? old) name ∉ g.ids) :
    (g.applyMapping (TextMap.ofList
      (g.transplant old (below (parent? old) name)))).Integral := by
  have hmoves := h.relocates_transplant hold (below (parent? old) name)
  have hbut := h.integralBut_applyMapping hmoves (h.injective_transplant hold hfree)
  have hnodup : (g.ids.map (newId (g.transplant old (below (parent? old) name)))).Nodup :=
    h.nodup.map_on (h.injective_transplant hold hfree)
  refine ⟨hbut.nodup, fun id hid p hp => ?_, hbut.endpoints⟩
  rcases hbut.parents id hid p hp with hmem | he
  · exact hmem
  · rw [← Option.some.inj he, parent?_below hname] at hp
    rw [applyMapping_ofList, ids_remap hnodup]
    refine List.mem_map.mpr ⟨p, h.parents old hold p hp, ?_⟩
    exact newId_transplant_of_not_isWithin hold _ (not_isWithin_child hp)

end Graph

end BoxDiagram
