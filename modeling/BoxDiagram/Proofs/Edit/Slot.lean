import BoxDiagram.Edit.Basic
import BoxDiagram.Proofs.Graph.Integrity
import BoxDiagram.Proofs.Success
import BoxDiagram.Proofs.TextMap

/-!
# Slots: writing what is there

A slot is written exactly if its object or its edge is there (`write_eq_ok_iff`); the board always
is. Writing is seen in that slot alone (`slot?_assign_self`, `slot?_assign_of_ne`).
-/

namespace BoxDiagram

/-- The element that the slot belongs to is there. -/
def Slot.IsIn (g : Graph) : Slot → Prop
  | .board _ => True
  | .object id _ => id ∈ g.ids
  | .edge i _ => i < g.edges.length

namespace Graph

variable {g k : Graph} {value : Option String} {slot : Slot}

/-- **A slot is written exactly if it is there.** -/
theorem write_eq_ok_iff : g.write value slot = .ok k ↔ slot.IsIn g ∧ g.assign value slot = k := by
  cases slot with
  | board name => simp [write, Slot.IsIn]
  | object id name =>
    unfold write Slot.IsIn
    dsimp only
    rw [← contains_iff]
    split_ifs with h <;> simp [h]
  | edge i name =>
    unfold write Slot.IsIn
    dsimp only
    split_ifs with h <;> simp [h]

theorem eq_of_write (h : g.write value slot = .ok k) : g.assign value slot = k :=
  (write_eq_ok_iff.mp h).2

theorem write_of_isIn (h : slot.IsIn g) : g.write value slot = .ok (g.assign value slot) :=
  write_eq_ok_iff.mpr ⟨h, rfl⟩

/-! ### Reading what was written -/

theorem find?_assignObject (g : Graph) (id name : String) (value : Option String) (x : String) :
    (g.assignObject id name value).find? x =
      (g.find? x).map fun o => if o.id = id then o.assign name value else o := by
  have hid : ((fun o : Object => decide (o.id = x)) ∘
      fun o => if o.id = id then o.assign name value else o) = fun o => decide (o.id = x) := by
    funext o
    simp only [Function.comp_apply]
    split_ifs <;> rfl
  unfold find? assignObject
  rw [List.find?_map, hid]

theorem exists_find?_of_mem {id : String} (h : id ∈ g.ids) : ∃ o, g.find? id = some o ∧ o.id = id := by
  obtain ⟨o, ho, rfl⟩ := List.mem_map.mp h
  have hsome : (g.find? o.id).isSome = true := List.find?_isSome.mpr ⟨o, ho, by simp⟩
  obtain ⟨o', ho'⟩ := Option.isSome_iff_exists.mp hsome
  exact ⟨o', ho', by simpa using List.find?_some ho'⟩

/-- **A slot that is there holds what is written to it.** -/
theorem slot?_assign_self (h : slot.IsIn g) : (g.assign value slot).slot? slot = value := by
  cases slot with
  | board name => simp [slot?, assign, assignBoard, TextMap.get?_assign]
  | object id name =>
    obtain ⟨o, ho, rfl⟩ := exists_find?_of_mem h
    simp [slot?, assign, find?_assignObject, ho, Object.assign, TextMap.get?_assign]
  | edge i name =>
    have hi : i < g.edges.length := h
    simp [slot?, assign, assignEdge, hi, Edge.assign, TextMap.get?_assign]

/-- **Writing a slot leaves the others as they are.** -/
theorem slot?_assign_of_ne {s : Slot} (h : s ≠ slot) :
    (g.assign value slot).slot? s = g.slot? s := by
  cases slot with
  | board name =>
    cases s with
    | board name' =>
      have hne : name' ≠ name := fun he => h (he ▸ rfl)
      simp [slot?, assign, assignBoard, TextMap.get?_assign, hne]
    | object id name' => rfl
    | edge i name' => rfl
  | object id name =>
    cases s with
    | board name' => rfl
    | edge i name' => rfl
    | object x name' =>
      simp only [slot?, assign, find?_assignObject]
      cases ho : g.find? x with
      | none => rfl
      | some o =>
        have hx : o.id = x := by simpa using List.find?_some ho
        simp only [Option.map_some, Option.bind_some]
        split_ifs with hid
        · have hne : name' ≠ name := fun he => h (by rw [he, ← hx, hid])
          simp [Object.assign, TextMap.get?_assign, hne]
        · rfl
  | edge i name =>
    cases s with
    | board name' => rfl
    | object id name' => rfl
    | edge j name' =>
      simp only [slot?, assign, assignEdge, List.getElem?_modify]
      cases g.edges[j]? with
      | none => rfl
      | some e =>
        simp only [Option.bind_some]
        split_ifs with hij
        · have hne : name' ≠ name := fun he => h (by rw [he, hij])
          simp [Edge.assign, TextMap.get?_assign, hne]
        · rfl

/-- **Writing a slot again changes nothing.** -/
theorem assign_assign (g : Graph) (value : Option String) (slot : Slot) :
    (g.assign value slot).assign value slot = g.assign value slot := by
  cases slot with
  | board name => simp only [assign, assignBoard, TextMap.assign_assign]
  | object id name =>
    have htwice : ∀ o : Object, (o.assign name value).assign name value = o.assign name value :=
      fun o => Object.ext rfl rfl (TextMap.assign_assign _ _ _)
    simp only [assign, assignObject, List.map_map]
    refine congrArg (fun os => { g with objects := os }) (List.map_congr_left fun o _ => ?_)
    simp only [Function.comp_apply]
    split_ifs with hid hid'
    · exact htwice o
    · exact absurd hid hid'
    · rfl
  | edge i name =>
    have htwice : ∀ e : Edge, (e.assign name value).assign name value = e.assign name value :=
      fun e => by simp only [Edge.assign, TextMap.assign_assign]
    simp only [assign, assignEdge, List.modify_modify_eq, Function.comp_def, htwice]

end Graph

end BoxDiagram
