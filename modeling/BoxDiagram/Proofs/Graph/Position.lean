import BoxDiagram.Graph.Basic
import Mathlib.Data.List.Count

/-!
# Positions: which edge has a number

Edges with a property are numbered in their order. The edge at a position has the number of those
with the property in front of it (`getElem?_positions_iff`). If a property implies another one, an
edge has the same number with respect to both exactly if no edge in front of it has the weaker
property alone (`getElem?_positions_congr`, `exists_getElem?_positions`).
-/

namespace BoxDiagram

/-- The positions in a list of edges, counted from `first` on, of those with a property. -/
def positionsFrom (p : Edge → Bool) (first : Nat) (es : List Edge) : List Nat :=
  ((es.zipIdx first).filter (p ·.1)).map (·.2)

section Lists

variable {p q : Edge → Bool}

theorem positionsFrom_cons (p : Edge → Bool) (first : Nat) (e : Edge) (es : List Edge) :
    positionsFrom p first (e :: es) =
      if p e then first :: positionsFrom p (first + 1) es else positionsFrom p (first + 1) es := by
  unfold positionsFrom
  rw [List.zipIdx_cons, List.filter_cons]
  split_ifs <;> rfl

theorem le_of_mem_positionsFrom {first i : Nat} {es : List Edge} (h : i ∈ positionsFrom p first es) :
    first ≤ i := by
  obtain ⟨⟨e, j⟩, hmem, rfl⟩ := List.mem_map.mp h
  exact List.le_snd_of_mem_zipIdx (List.mem_filter.mp hmem).1

theorem length_positionsFrom (p : Edge → Bool) (first : Nat) (es : List Edge) :
    (positionsFrom p first es).length = es.countP p := by
  induction es generalizing first with
  | nil => rfl
  | cons e es ih =>
    rw [positionsFrom_cons, List.countP_cons]
    split_ifs with h
    · rw [List.length_cons, ih]
    · rw [ih, Nat.add_zero]

/-- **The edge with a number** has that many edges with the property in front of it. -/
theorem getElem?_positionsFrom_iff : ∀ {es : List Edge} {first n i : Nat},
    (positionsFrom p first es)[n]? = some (first + i) ↔
      ∃ e, es[i]? = some e ∧ p e = true ∧ (es.take i).countP p = n
  | [], first, n, i => by simp [positionsFrom]
  | e :: es, first, n, 0 => by
    have hlater : ∀ m, (positionsFrom p (first + 1) es)[m]? ≠ some first := fun m hm => by
      have hle := le_of_mem_positionsFrom (List.mem_of_getElem? hm)
      omega
    rw [positionsFrom_cons]
    by_cases h : p e = true
    · cases n with
      | zero => simp [h]
      | succ m => simp [h, hlater m]
    · simp [h, hlater n]
  | e :: es, first, n, i + 1 => by
    have ih : ∀ m, (positionsFrom p (first + 1) es)[m]? = some (first + (i + 1)) ↔
        ∃ e', es[i]? = some e' ∧ p e' = true ∧ (es.take i).countP p = m := fun m => by
      have hpos : first + (i + 1) = first + 1 + i := by omega
      rw [hpos]
      exact getElem?_positionsFrom_iff
    rw [positionsFrom_cons, List.getElem?_cons_succ, List.take_succ_cons]
    by_cases h : p e = true
    · rw [if_pos h, List.countP_cons_of_pos h]
      cases n with
      | zero => simp
      | succ m => simp [ih m]
    · rw [if_neg h, List.countP_cons_of_neg h, ih n]

theorem countP_eq_iff (hpq : ∀ e, p e = true → q e = true) (es : List Edge) :
    es.countP p = es.countP q ↔ ∀ e ∈ es, q e = true → p e = true := by
  induction es with
  | nil => simp
  | cons e es ih =>
    have hle : es.countP p ≤ es.countP q := List.countP_mono_left fun e _ => hpq e
    rw [List.forall_mem_cons, ← ih]
    by_cases hp : p e = true
    · rw [List.countP_cons_of_pos hp, List.countP_cons_of_pos (hpq e hp)]
      simp [hp]
    · rw [List.countP_cons_of_neg hp]
      by_cases hq : q e = true
      · rw [List.countP_cons_of_pos hq]
        have hne : es.countP p ≠ es.countP q + 1 := by omega
        simp [hp, hq, hne]
      · rw [List.countP_cons_of_neg hq]
        simp [hq]

end Lists

namespace Graph

variable {g : Graph} {p q : Edge → Bool} {n i : Nat}

theorem positions_eq (g : Graph) (p : Edge → Bool) : g.positions p = positionsFrom p 0 g.edges := rfl

theorem length_edgesBetween (g : Graph) (source target : String) :
    (g.edgesBetween source target).length = g.edges.countP (Edge.joins source target) :=
  length_positionsFrom _ _ _

/-- **The edge with a number** has that many edges with the property in front of it. -/
theorem getElem?_positions_iff : (g.positions p)[n]? = some i ↔
    ∃ e, g.edges[i]? = some e ∧ p e = true ∧ (g.edges.take i).countP p = n := by
  have hfrom : (positionsFrom p 0 g.edges)[n]? = some (0 + i) ↔
      ∃ e, g.edges[i]? = some e ∧ p e = true ∧ (g.edges.take i).countP p = n :=
    getElem?_positionsFrom_iff
  rwa [Nat.zero_add] at hfrom

theorem getElem?_positions_eq_none_iff :
    (g.positions p)[n]? = none ↔ g.edges.countP p ≤ n := by
  rw [positions_eq, List.getElem?_eq_none_iff, length_positionsFrom]

/-- **Two numberings agree at an edge** exactly if no edge in front of it has the weaker property
alone, and it has the stronger one. -/
theorem getElem?_positions_congr (hpq : ∀ e, p e = true → q e = true)
    (hq : (g.positions q)[n]? = some i) :
    (g.positions p)[n]? = some i ↔ ∀ e ∈ g.edges.take (i + 1), q e = true → p e = true := by
  obtain ⟨e, he, hqe, hcount⟩ := getElem?_positions_iff.mp hq
  rw [getElem?_positions_iff, List.take_add_one, he, Option.toList_some, List.forall_mem_append,
    List.forall_mem_singleton, ← countP_eq_iff hpq, hcount]
  constructor
  · rintro ⟨e', he', hp, hn⟩
    obtain rfl : e = e' := Option.some.inj he'
    exact ⟨hn, fun _ => hp⟩
  · rintro ⟨hn, hp⟩
    exact ⟨e, rfl, hp hqe, hn⟩

/-- **A number that one property gives, a weaker one gives too**, to the same edge if no edge in front
of it has the weaker property alone. -/
theorem exists_getElem?_positions (hpq : ∀ e, p e = true → q e = true)
    (hp : (g.positions p)[n]? = some i) : ∃ j, (g.positions q)[n]? = some j ∧
      ((∀ e ∈ g.edges.take i, q e = true → p e = true) → j = i) := by
  obtain ⟨e, he, hpe, hcount⟩ := getElem?_positions_iff.mp hp
  have hsome : (g.positions q)[n]? ≠ none := by
    intro hnone
    have hfew : g.edges.countP q ≤ n := getElem?_positions_eq_none_iff.mp hnone
    have hmany : ¬ g.edges.countP p ≤ n := fun hle => by
      rw [← getElem?_positions_eq_none_iff, hp] at hle
      simp at hle
    have hmore : g.edges.countP p ≤ g.edges.countP q := List.countP_mono_left fun e' _ => hpq e'
    omega
  obtain ⟨j, hj⟩ := Option.ne_none_iff_exists'.mp hsome
  refine ⟨j, hj, fun hclear => ?_⟩
  have hsame : (g.edges.take i).countP q = n := by
    rw [← hcount, eq_comm, countP_eq_iff hpq]
    exact hclear
  have hi : (g.positions q)[n]? = some i := getElem?_positions_iff.mpr ⟨e, he, hpq e hpe, hsame⟩
  exact Option.some.inj (hj.symm.trans hi)

theorem findIdx?_eq_getElem?_positions (g : Graph) (p : Edge → Bool) :
    g.edges.findIdx? p = (g.positions p)[0]? := by
  have hall : ∀ (es : List Edge) (first : Nat),
      (es.findIdx? p).map (first + ·) = (positionsFrom p first es)[0]? := by
    intro es
    induction es with
    | nil => intro first; rfl
    | cons e es ih =>
      intro first
      rw [positionsFrom_cons, List.findIdx?_cons]
      split_ifs with h
      · rfl
      · rw [← ih, Option.map_map]
        congr 1
        funext i
        simp only [Function.comp_apply]
        omega
  have hzero := hall g.edges 0
  simpa [positions_eq] using hzero

end Graph

end BoxDiagram
