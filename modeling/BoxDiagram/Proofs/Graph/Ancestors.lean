import BoxDiagram.Edit.Remap
import BoxDiagram.Proofs.Graph.Regeneration

/-!
# Ancestors: which are missing, and in which order they are added

The ancestors of an id are the ids that it lies strictly within, the outermost first. Where ancestors
of objects are objects, adding an object adds at the end what is missing among its ancestors and the
object itself, in that order and without attributes (`IntegralBut.ensure_eq`). After a move this gives
the moved object its ancestors (`IntegralBut.ensureParent_eq`).
-/

namespace BoxDiagram

namespace Dotted

/-- The ids that an id lies strictly within, the outermost first. -/
def ancestors (id : String) : List String := ((prefixes (segments id)).dropLast).map join

theorem prefixes_eq_concat {α : Type} {l : List α} (h : l ≠ []) :
    prefixes l = (prefixes l).dropLast ++ [l] := by
  rw [← List.dropLast_concat_getLast h, prefixes_concat, List.dropLast_concat]

theorem reverse_lineage (id : String) : (lineage id).reverse = ancestors id ++ [id] := by
  unfold lineage ancestors
  rw [List.reverse_reverse, prefixes_eq_concat (segments_ne_nil id), List.map_append,
    List.dropLast_concat, List.map_singleton, join_segments]

theorem ancestors_of_root {id : String} (h : parent? id = none) : ancestors id = [] := by
  have hid := reverse_lineage id
  rw [lineage_of_root h, List.reverse_singleton] at hid
  exact (List.append_cancel_right (show [] ++ [id] = ancestors id ++ [id] from hid)).symm

theorem ancestors_of_parent {id p : String} (h : parent? id = some p) :
    ancestors id = ancestors p ++ [p] := by
  have hid := reverse_lineage id
  rw [lineage_of_parent h, List.reverse_cons, reverse_lineage] at hid
  exact (List.append_cancel_right hid).symm

theorem of_mem_ancestors {x id : String} (h : x ∈ ancestors id) :
    isWithin id x = true ∧ ¬ isWithin x id = true := by
  cases hp : parent? id with
  | none =>
    rw [ancestors_of_root hp] at h
    simp at h
  | some p =>
    rw [ancestors_of_parent hp, ← reverse_lineage, List.mem_reverse, mem_lineage] at h
    exact ⟨isWithin_trans (isWithin_parent hp) h,
      fun hx => not_isWithin_child hp (isWithin_trans h hx)⟩

end Dotted

open Dotted

namespace Graph

variable {g : Graph} {id : String} {orphan : Option String}

/-- **What is missing of an id and its ancestors**, where the id does not lie within the orphan. -/
theorem IntegralBut.missing_eq (h : g.IntegralBut orphan)
    (horphan : ∀ x ∈ orphan, ¬ isWithin id x = true) :
    g.missing id = (ancestors id ++ [id]).filter (· ∉ g.ids) := by
  induction id using parentInduction with
  | root id hr =>
    rw [ancestors_of_root hr]
    by_cases hid : id ∈ g.ids
    · simp [missing_of_mem hid, hid]
    · simp [missing_of_root hid hr, hid]
  | child id p hp ih =>
    have ih := ih fun x hx hw => horphan x hx (isWithin_trans (isWithin_parent hp) hw)
    rw [List.filter_append, ancestors_of_parent hp, ← ih]
    by_cases hid : id ∈ g.ids
    · have hpmem : p ∈ g.ids := (h.parents id hid p hp).resolve_right fun ho =>
        horphan id ho (isWithin_self id)
      simp [missing_of_mem hid, missing_of_mem hpmem, hid]
    · simp [missing_of_parent hid hp, hid]

/-- **Adding an object** adds what is missing of its ancestors, and then the object. -/
theorem IntegralBut.ensure_eq (h : g.IntegralBut orphan)
    (horphan : ∀ x ∈ orphan, ¬ isWithin id x = true) :
    g.ensure id =
      g.addObjects (((ancestors id ++ [id]).filter (· ∉ g.ids)).map Object.blank) := by
  unfold Graph.ensure addObjects
  rw [h.missing_eq horphan]

theorem Integral.ensure_eq (h : g.Integral) (id : String) : g.ensure id =
    g.addObjects (((ancestors id ++ [id]).filter (· ∉ g.ids)).map Object.blank) :=
  (h.integralBut none).ensure_eq (by simp)

/-- **An orphan is given its ancestors**: those that are missing are added. -/
theorem IntegralBut.ensureParent_eq (h : g.IntegralBut (some id)) : g.ensureParent id =
    g.addObjects (((ancestors id).filter (· ∉ g.ids)).map Object.blank) := by
  unfold Graph.ensureParent
  cases hp : parent? id with
  | none =>
    rw [ancestors_of_root hp]
    simp [addObjects]
  | some p =>
    rw [ancestors_of_parent hp]
    refine h.ensure_eq fun x hx => ?_
    rw [← Option.some.inj hx]
    exact not_isWithin_child hp

end Graph

end BoxDiagram
