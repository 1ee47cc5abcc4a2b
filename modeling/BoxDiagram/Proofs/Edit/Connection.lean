import BoxDiagram.Edit.Delta
import BoxDiagram.Proofs.Edit.Slot
import BoxDiagram.Proofs.Graph.Position
import BoxDiagram.Proofs.Success

/-!
# Connections: what edits do with the key of a connection

Every edit by the key of a connection acts on the edge at one position, the one that the key
addresses: the edge with the number of the key among those with its source and its target. The arrow
of the key plays no part in it.
-/

namespace BoxDiagram

open Edit

namespace Graph

variable {g : Graph} {key : String} {k : EdgeKey} {i : Nat}

theorem resolve_eq_ok_iff : g.resolve k = .ok i ↔ g.edgeAt? k = some i := by
  unfold resolve
  cases g.edgeAt? k <;> simp

/-- The edge with a number from one id to another one has these ends, and as many edges between them
in front of it as the number says. -/
theorem nthEdge?_eq_some_iff {source target : String} {n : Nat} :
    g.nthEdge? source target n = some i ↔ ∃ e, g.edges[i]? = some e ∧
      (e.source = source ∧ e.target = target) ∧
        (g.edges.take i).countP (Edge.joins source target) = n := by
  unfold nthEdge? edgesBetween
  rw [getElem?_positions_iff]
  simp only [Edge.joins, Bool.and_eq_true, decide_eq_true_iff]

theorem exists_nthEdge?_zero {e : Edge} (he : e ∈ g.edges) :
    ∃ j, g.nthEdge? e.source e.target 0 = some j := by
  refine Option.ne_none_iff_exists'.mp fun hnone => ?_
  have hcount : g.edges.countP (Edge.joins e.source e.target) ≤ 0 :=
    getElem?_positions_eq_none_iff.mp hnone
  have hpos : 0 < g.edges.countP (Edge.joins e.source e.target) :=
    List.countP_pos_iff.mpr ⟨e, he, by simp [Edge.joins]⟩
  omega

theorem edgeAt?_eq_some_iff : g.edgeAt? k = some i ↔ ∃ e, g.edges[i]? = some e ∧
    (e.source = k.sourceId ∧ e.target = k.targetId) ∧
      (g.edges.take i).countP (Edge.joins k.sourceId k.targetId) = k.index.getD 0 :=
  nthEdge?_eq_some_iff

theorem isIn_of_edgeAt? (hi : g.edgeAt? k = some i) (name : String) : (Slot.edge i name).IsIn g := by
  obtain ⟨e, he, -⟩ := edgeAt?_eq_some_iff.mp hi
  exact (List.getElem?_eq_some_iff.mp he).1

section Edge
variable (hk : Key.parse key = .ok (.edge k))
include hk

theorem parseKey_of_parse : parseKey key = .ok (.edge k) := by
  unfold parseKey
  rw [hk]
  rfl

theorem set_of_parse (tag value : Option String) : g.set key tag value = g.setEdge k tag value := by
  unfold set
  rw [parseKey_of_parse hk]
  rfl

theorem set_eq_ok_iff {tag value : Option String} {g' : Graph} : g.set key tag value = .ok g' ↔
    ∃ i name, g.edgeAt? k = some i ∧ connectionAttribute tag k.attr = .ok name ∧
      checkConnectionName name = .ok () ∧ checkValue name value = .ok () ∧
        g' = g.assignEdge i name value := by
  rw [set_of_parse hk]
  unfold setEdge
  simp only [bind_eq_ok, resolve_eq_ok_iff]
  constructor
  · rintro ⟨i, hi, name, hname, ⟨⟩, hcheck, ⟨⟩, hvalue, hwrite⟩
    exact ⟨i, name, hi, hname, hcheck, hvalue, (eq_of_write hwrite).symm⟩
  · rintro ⟨i, name, hi, hname, hcheck, hvalue, rfl⟩
    exact ⟨i, hi, name, hname, (), hcheck, (), hvalue, write_of_isIn (isIn_of_edgeAt? hi name)⟩

theorem delete_of_parse (hattr : k.attr = []) :
    g.delete key = (g.resolve k).map fun i => g.removeEdge i := by
  obtain ⟨source, target, arrow, index, attr⟩ := k
  obtain rfl : attr = [] := hattr
  unfold delete
  rw [parseKey_of_parse hk]
  cases hr : g.resolve ⟨source, target, arrow, index, []⟩ <;>
    simp only [bind, Except.bind, Except.map, hr, pure, Except.pure]

theorem delete_eq_ok_iff {g' : Graph} (hattr : k.attr = []) :
    g.delete key = .ok g' ↔ ∃ i, g.edgeAt? k = some i ∧ g' = g.removeEdge i := by
  rw [delete_of_parse hk hattr, map_eq_ok]
  simp only [resolve_eq_ok_iff, @eq_comm _ g']

theorem deleteDeltas_of_parse (hattr : k.attr = []) :
    g.deleteDeltas key = (g.resolve k).map fun i => gone (g.publicId? i).toList := by
  unfold deleteDeltas
  rw [parseKey_of_parse hk]
  cases hr : g.resolve k <;>
    simp only [bind, Except.bind, Except.map, hr, pure, Except.pure, hattr, ne_eq,
      not_true_eq_false, if_false]

end Edge

end Graph

end BoxDiagram
