import BoxDiagram.TextMap
import Mathlib.Tactic.Basic
import Mathlib.Data.List.Nodup

/-!
# Text maps: what they hold

A map is known by its values: its entries are the pairs of a key and the value there
(`mem_entries_iff`), and two maps with the same values are equal (`ext_get?`). The map of a list
whose keys each have one value holds exactly the pairs of the list (`get?_ofList_eq_some_iff`), and
the entries of a map give back the map (`ofList_entries`).
-/

namespace BoxDiagram.TextMap

variable {α : Type}

/-! ### Entries -/

theorem nodup_keys (m : TextMap α) : m.keys.Nodup :=
  List.pairwise_map.mpr (m.sorted.imp fun h => Std.ne_of_lt h)

theorem mem_entries_iff {m : TextMap α} {k : String} {v : α} :
    (k, v) ∈ m.entries ↔ m.get? k = some v := by
  unfold get?
  rw [List.lookup_eq_some_iff]
  constructor
  · intro h
    obtain ⟨before, after, he⟩ := List.append_of_mem h
    refine ⟨before, after, he, fun p hp => ?_⟩
    have hnodup := m.nodup_keys
    unfold keys at hnodup
    rw [he, List.map_append, List.nodup_append] at hnodup
    have hne := hnodup.2.2 p.1 (List.mem_map_of_mem hp) k (by simp)
    simpa using Ne.symm hne
  · rintro ⟨before, after, he, -⟩
    rw [he]
    simp

theorem contains_iff {m : TextMap α} {k : String} : m.contains k = true ↔ ∃ v, m.get? k = some v :=
  Option.isSome_iff_exists

/-- **Maps with the same values are equal.** -/
theorem ext_get? {m n : TextMap α} (h : ∀ k, m.get? k = n.get? k) : m = n := by
  apply ext
  have hmem : ∀ e, e ∈ m.entries ↔ e ∈ n.entries := fun ⟨k, v⟩ => by
    rw [mem_entries_iff, mem_entries_iff, h k]
  have hperm : m.entries.Perm n.entries :=
    (List.perm_ext_iff_of_nodup m.nodup_keys.of_map n.nodup_keys.of_map).mpr hmem
  refine hperm.eq_of_pairwise (fun a b _ _ hab hba => ?_) m.sorted n.sorted
  exact absurd (String.lt_trans hab hba) (String.lt_irrefl _)

/-! ### Writing -/

theorem get?_insert (m : TextMap α) (k k' : String) (v : α) :
    (m.insert k v).get? k' = if k' = k then some v else m.get? k' := by
  by_cases h : k' = k
  · rw [if_pos h, h, get?_insert_self]
  · rw [if_neg h, get?_insert_of_ne m v h]

theorem contains_insert {m : TextMap α} {k k' : String} {v : α} :
    (m.insert k v).contains k' = true ↔ k' = k ∨ m.contains k' = true := by
  unfold contains
  rw [get?_insert]
  split_ifs with h <;> simp [h]

theorem get?_erase (m : TextMap α) (k k' : String) :
    (m.erase k).get? k' = if k' = k then none else m.get? k' := by
  refine Option.ext fun v => ?_
  rw [← mem_entries_iff]
  unfold erase
  rw [List.mem_filter, mem_entries_iff]
  by_cases h : k' = k <;> simp [h]

theorem get?_assign (m : TextMap α) (k k' : String) (value : Option α) :
    (m.assign k value).get? k' = if k' = k then value else m.get? k' := by
  cases value with
  | none => exact get?_erase m k k'
  | some v => exact get?_insert m k k' v

theorem assign_assign (m : TextMap α) (k : String) (value : Option α) :
    (m.assign k value).assign k value = m.assign k value :=
  ext_get? fun k' => by
    rw [get?_assign, get?_assign]
    split_ifs <;> rfl

theorem forall_entries_assign {p : String × α → Prop} {m : TextMap α} (h : ∀ e ∈ m.entries, p e)
    {k : String} {value : Option α} (hv : ∀ v, value = some v → p (k, v)) :
    ∀ e ∈ (m.assign k value).entries, p e := by
  intro e he
  cases value with
  | none => exact h e (List.mem_of_mem_filter he)
  | some v =>
    rcases mem_put he with rfl | he
    · exact hv v rfl
    · exact h e he

/-! ### Maps of lists -/

/-- A key has one value in a list. -/
def Functional (es : List (String × α)) : Prop := ∀ k v w, (k, v) ∈ es → (k, w) ∈ es → v = w

theorem functional_of_nodup {es : List (String × α)} (h : (es.map Prod.fst).Nodup) : Functional es :=
  fun _ _ _ hv hw => (Prod.mk.inj (List.inj_on_of_nodup_map h hv hw rfl)).2

theorem get?_foldl_insert (es : List (String × α)) (m : TextMap α) (k : String) :
    (es.foldl (fun m e => m.insert e.1 e.2) m).get? k = (es.reverse.lookup k).or (m.get? k) := by
  induction es generalizing m with
  | nil => simp
  | cons e es ih =>
    obtain ⟨l, v⟩ := e
    rw [List.foldl_cons, ih, get?_insert, List.reverse_cons, List.lookup_append, Option.or_assoc,
      List.lookup_cons]
    by_cases h : k = l
    · simp [h]
    · simp [h, beq_false_of_ne h]

theorem mem_of_get?_ofList {es : List (String × α)} {k : String} {v : α}
    (h : (ofList es).get? k = some v) : (k, v) ∈ es := by
  unfold ofList at h
  rw [get?_foldl_insert, get?_empty, Option.or_none, List.lookup_eq_some_iff] at h
  obtain ⟨before, after, he, -⟩ := h
  rw [← List.mem_reverse, he]
  simp

theorem exists_get?_ofList {es : List (String × α)} {k : String} {v : α} (h : (k, v) ∈ es) :
    ∃ w, (ofList es).get? k = some w := by
  unfold ofList
  rw [← Option.isSome_iff_exists, get?_foldl_insert, get?_empty, Option.or_none,
    List.lookup_isSome_iff]
  exact ⟨(k, v), by simpa using h⟩

/-- **The map of a list** in which each key has one value holds exactly what the list holds. -/
theorem get?_ofList_eq_some_iff {es : List (String × α)} (hes : Functional es) {k : String}
    {v : α} : (ofList es).get? k = some v ↔ (k, v) ∈ es := by
  refine ⟨mem_of_get?_ofList, fun h => ?_⟩
  obtain ⟨w, hw⟩ := exists_get?_ofList h
  rw [hw, hes k v w h (mem_of_get?_ofList hw)]

theorem keys_eq_of_mem_iff {m n : TextMap α} (h : ∀ k, k ∈ m.keys ↔ k ∈ n.keys) : m.keys = n.keys := by
  have hsorted : ∀ m : TextMap α, m.keys.Pairwise (· < ·) := fun m =>
    List.pairwise_map.mpr m.sorted
  have hperm : m.keys.Perm n.keys := (List.perm_ext_iff_of_nodup m.nodup_keys n.nodup_keys).mpr h
  refine hperm.eq_of_pairwise (fun a b _ _ hab hba => ?_) (hsorted m) (hsorted n)
  exact absurd (String.lt_trans hab hba) (String.lt_irrefl _)

theorem mem_keys_ofList {es : List (String × α)} {k : String} :
    k ∈ (ofList es).keys ↔ k ∈ es.map Prod.fst := by
  unfold keys
  simp only [List.mem_map, Prod.exists, exists_and_right, exists_eq_right]
  constructor
  · rintro ⟨v, hv⟩
    exact ⟨v, mem_of_get?_ofList (mem_entries_iff.mp hv)⟩
  · rintro ⟨v, hv⟩
    obtain ⟨w, hw⟩ := exists_get?_ofList hv
    exact ⟨w, mem_entries_iff.mpr hw⟩

/-- **The keys of the map of a list** do not depend on the values. -/
theorem keys_ofList_congr {es fs : List (String × α)} (h : es.map Prod.fst = fs.map Prod.fst) :
    (ofList es).keys = (ofList fs).keys :=
  keys_eq_of_mem_iff fun _ => by rw [mem_keys_ofList, mem_keys_ofList, h]

theorem ofList_eq_of_mem_iff {es : List (String × α)} {m : TextMap α}
    (h : ∀ k v, (k, v) ∈ es ↔ m.get? k = some v) : ofList es = m := by
  have hes : Functional es := fun k v w hv hw =>
    Option.some.inj (((h k v).mp hv).symm.trans ((h k w).mp hw))
  refine ext_get? fun k => Option.ext fun v => ?_
  rw [get?_ofList_eq_some_iff hes, h]

theorem ofList_entries (m : TextMap α) : ofList m.entries = m :=
  ofList_eq_of_mem_iff fun _ _ => mem_entries_iff

theorem get?_ofList_map {β : Type} (m : TextMap α) (f : α → β) (k : String) :
    (ofList (m.entries.map fun (l, v) => (l, f v))).get? k = (m.get? k).map f := by
  have hmem : ∀ l w, (l, w) ∈ (m.entries.map fun (l, v) => (l, f v)) ↔
      ∃ v, m.get? l = some v ∧ f v = w := fun l w => by
    simp only [List.mem_map, Prod.exists, Prod.mk.injEq, mem_entries_iff]
    constructor
    · rintro ⟨l, v, hv, rfl, rfl⟩
      exact ⟨v, hv, rfl⟩
    · rintro ⟨v, hv, rfl⟩
      exact ⟨l, v, hv, rfl, rfl⟩
  have hfunctional : Functional (m.entries.map fun (l, v) => (l, f v)) := by
    intro l w w' hw hw'
    obtain ⟨v, hv, rfl⟩ := (hmem l w).mp hw
    obtain ⟨v', hv', rfl⟩ := (hmem l w').mp hw'
    rw [Option.some.inj (hv.symm.trans hv')]
  refine Option.ext fun w => ?_
  rw [get?_ofList_eq_some_iff hfunctional, hmem, Option.map_eq_some_iff]

end BoxDiagram.TextMap
