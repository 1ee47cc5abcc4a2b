import BoxDiagram.Proofs.Graph.Integrity
import Mathlib.Logic.Relation

/-!
# Descent: what lies below an object is what its children lead to

There are three ways to say that an object lies below another one. Byte by byte, the id begins with
the other id, and the byte of a dot follows; since no other character is written with that byte, this
is so exactly if the segments begin with those of the other id (`isWithin_iff_bytes`). Deleting, moving
and renaming go by this test. Printing and painting go down from parents to children. In a graph in
which parents are objects the two agree (`mem_descendants_iff_descends`): each step from a parent to a
child adds one segment, and what lies strictly within an object has its parent within it as well.
-/

namespace BoxDiagram

namespace Dotted

/-! ### Bytes -/

/-- A text as it is written in UTF-8. -/
def bytes (s : String) : List UInt8 := s.toList.flatMap String.utf8EncodeChar

theorem bytes_append (s t : String) : bytes (s ++ t) = bytes s ++ bytes t := by
  unfold bytes
  rw [String.toList_append, List.flatMap_append]

theorem exists_append_of_bytes_isPrefix {s t : String} (h : bytes s <+: bytes t) :
    ∃ rest, t = s ++ rest := by
  obtain ⟨more, hmore⟩ := h
  have hencode : s.toList.utf8Encode ++ more.toByteArray = t.toList.utf8Encode := by
    have harray := congrArg List.toByteArray hmore
    rwa [List.toByteArray_append] at harray
  obtain ⟨rest, hrest⟩ := List.isPrefix_of_utf8Encode_append_eq_utf8Encode _ hencode
  exact ⟨String.ofList rest, String.toList_injective (by simp [hrest])⟩

theorem eq_dot_of_head? {c : Char} (h : (String.utf8EncodeChar c).head? = some 46) : c = '.' := by
  have hmod : ∀ n : Nat, UInt8.ofNat n = 46 → n % 256 = 46 := fun n hn => congrArg UInt8.toNat hn
  unfold String.utf8EncodeChar at h
  dsimp only at h
  split_ifs at h with h₁ h₂ h₃ <;> rw [List.head?_cons, Option.some_inj] at h <;>
    have hbyte := hmod _ h
  · exact Char.ext (UInt32.toNat_inj.mp (show c.val.toNat = 46 by omega))
  -- the first byte of a longer character is at least 192
  all_goals omega

theorem head?_bytes_iff {s : String} : (bytes s).head? = some 46 ↔ ∃ r, s = "." ++ r := by
  constructor
  · intro h
    unfold bytes at h
    cases hs : s.toList with
    | nil => simp [hs] at h
    | cons c cs =>
      rw [hs, List.flatMap_cons, List.head?_append_of_ne_nil _ String.utf8EncodeChar_ne_nil] at h
      refine ⟨String.ofList cs, String.toList_injective ?_⟩
      rw [hs, eq_dot_of_head? h]
      simp
  · rintro ⟨r, rfl⟩
    rw [bytes_append]
    rfl

/-- **The test on bytes**: the id is the top, or it begins with the bytes of the top, and the byte of a
dot follows. -/
theorem isWithin_iff_bytes {id top : String} : isWithin id top = true ↔
    id = top ∨ bytes top <+: bytes id ∧ (bytes id)[(bytes top).length]? = some 46 := by
  rw [isWithin_iff_eq_or]
  refine or_congr Iff.rfl ⟨?_, ?_⟩
  · rintro ⟨r, rfl⟩
    rw [String.append_assoc, bytes_append]
    refine ⟨List.prefix_append _ _, ?_⟩
    rw [List.getElem?_append_right le_rfl, Nat.sub_self, ← List.head?_eq_getElem?]
    exact head?_bytes_iff.mpr ⟨r, rfl⟩
  · rintro ⟨hbegins, hdot⟩
    obtain ⟨rest, rfl⟩ := exists_append_of_bytes_isPrefix hbegins
    rw [bytes_append, List.getElem?_append_right le_rfl, Nat.sub_self,
      ← List.head?_eq_getElem?] at hdot
    obtain ⟨r, rfl⟩ := head?_bytes_iff.mp hdot
    exact ⟨r, (String.append_assoc ..).symm⟩

end Dotted

namespace Graph

open Dotted

/-! ### Steps to children -/

variable {g : Graph} {x y : String}

/-- The second id is that of a child of the first one. -/
def HasChild (g : Graph) (x y : String) : Prop := y ∈ g.children (some x)

/-- The second id is reached from the first one in one or more steps from a parent to a child. -/
def Descends (g : Graph) : String → String → Prop := Relation.TransGen g.HasChild

theorem hasChild_iff : g.HasChild x y ↔ y ∈ g.ids ∧ parent? y = some x := mem_children

theorem mem_descendants : y ∈ g.descendants x ↔ y ∈ g.ids ∧ y ≠ x ∧ isWithin y x = true := by
  unfold descendants
  simp

theorem HasChild.mem_descendants (h : g.HasChild x y) : y ∈ g.descendants x := by
  obtain ⟨hy, hp⟩ := hasChild_iff.mp h
  refine Graph.mem_descendants.mpr ⟨hy, ?_, isWithin_parent hp⟩
  rintro rfl
  exact not_isWithin_child hp (isWithin_self y)

theorem mem_descendants_trans {z : String} (hxy : y ∈ g.descendants x) (hyz : z ∈ g.descendants y) :
    z ∈ g.descendants x := by
  obtain ⟨-, hne, hw⟩ := mem_descendants.mp hxy
  obtain ⟨hz, -, hw'⟩ := mem_descendants.mp hyz
  refine mem_descendants.mpr ⟨hz, ?_, isWithin_trans hw' hw⟩
  rintro rfl
  exact hne (isWithin_antisymm hw hw')

theorem Descends.mem_descendants (h : g.Descends x y) : y ∈ g.descendants x := by
  induction h with
  | single h => exact h.mem_descendants
  | tail _ h ih => exact mem_descendants_trans ih h.mem_descendants

/-- What lies strictly within is reached by steps to children, since all parents are objects. -/
theorem descends_of_mem_descendants (hparents : ∀ id ∈ g.ids, ∀ p, parent? id = some p → p ∈ g.ids)
    (h : y ∈ g.descendants x) : g.Descends x y := by
  obtain ⟨hy, hne, hw⟩ := Graph.mem_descendants.mp h
  clear h
  induction y using parentInduction with
  | root y hroot =>
    obtain ⟨p, hp, -⟩ := isWithin_parent?_of_ne hw hne
    rw [hroot] at hp
    simp at hp
  | child y p hp ih =>
    obtain ⟨q, hq, hwithin⟩ := isWithin_parent?_of_ne hw hne
    obtain rfl : p = q := Option.some.inj (hp.symm.trans hq)
    have hstep : g.HasChild p y := hasChild_iff.mpr ⟨hy, hp⟩
    by_cases heq : p = x
    · exact .single (heq ▸ hstep)
    · exact .tail (ih (hparents y hy p hp) heq hwithin) hstep

/-- **What lies strictly within an object** is what steps to children reach from it. -/
theorem mem_descendants_iff_descends
    (hparents : ∀ id ∈ g.ids, ∀ p, parent? id = some p → p ∈ g.ids) :
    y ∈ g.descendants x ↔ g.Descends x y :=
  ⟨descends_of_mem_descendants hparents, Descends.mem_descendants⟩

theorem descendants_sublist (g : Graph) (x : String) : (g.descendants x).Sublist g.ids :=
  List.filter_sublist

/-- **Containment by prefix is descent in the tree.** An id lies within another one exactly if its
segments begin with those of the other, which the test on bytes finds out; and in every graph whose
ids are distinct and whose parents are objects, the descendants of an id are exactly what steps from a
parent to a child reach from it, each listed once and in the order of the objects. -/
theorem descent : (∀ id top, (isWithin id top = true ↔ segments top <+: segments id) ∧
      (isWithin id top = true ↔ id = top ∨
        bytes top <+: bytes id ∧ (bytes id)[(bytes top).length]? = some 46)) ∧
    ∀ g : Graph, g.ids.Nodup → (∀ id ∈ g.ids, ∀ p, parent? id = some p → p ∈ g.ids) → ∀ x,
      (∀ y, y ∈ g.descendants x ↔ g.Descends x y) ∧ (g.descendants x).Nodup ∧
        (g.descendants x).Sublist g.ids := by
  refine ⟨fun _ _ => ⟨isWithin_iff, isWithin_iff_bytes⟩, fun g hnodup hparents x =>
    ⟨fun _ => ?_, ?_, ?_⟩⟩
  · exact mem_descendants_iff_descends hparents
  · exact hnodup.sublist (g.descendants_sublist x)
  · exact g.descendants_sublist x

/-- Two objects within a third one, and a sibling whose name goes on where the other name ends. -/
def accented : Graph := ⟨["é", "éx", "é.x", "é.x.y"].map Object.blank, [], ∅, none⟩

/-- Steps to children lead to the two objects within, and not to the sibling. -/
theorem descent_accented : (accented.ids.Nodup ∧
      ∀ id ∈ accented.ids, ∀ p, parent? id = some p → p ∈ accented.ids) ∧
    accented.descendants "é" = ["é.x", "é.x.y"] ∧
      accented.Descends "é" "é.x.y" ∧ ¬ accented.Descends "é" "éx" := by
  have hnodup : accented.ids.Nodup := by decide +kernel
  have hparents : ∀ id ∈ accented.ids, ∀ p ∈ parent? id, p ∈ accented.ids := by decide +kernel
  have hlisted : accented.descendants "é" = ["é.x", "é.x.y"] := by decide +kernel
  obtain ⟨hdescends, -, -⟩ := descent.2 accented hnodup hparents "é"
  refine ⟨⟨hnodup, hparents⟩, hlisted, (hdescends _).mp ?_, fun h => ?_⟩
  · rw [hlisted]; decide
  · have hmem := (hdescends _).mpr h
    rw [hlisted] at hmem
    exact absurd hmem (by decide)

end Graph

end BoxDiagram
