import BoxDiagram.Dotted
import Mathlib.Tactic.Basic
import Mathlib.Tactic.SplitIfs
import Mathlib.Data.List.Basic
import Mathlib.Data.List.Infix

/-!
# Dotted texts: ids as lists of segments

An id and its segments determine each other (`segments_join`, `segments_injective`), and what is
said about ids is said about lists: the parent drops the last segment (`parent?_eq_some_iff`), an id
lies within another one if its segments begin with the segments of the other (`isWithin_iff`), and
replacing a top replaces the segments in front (`segments_append_remainder`). The lineage of an id
is the id in front of the lineage of its parent (`lineage_of_parent`); induction over ids goes from
the roots downwards (`parentInduction`).
-/

namespace BoxDiagram.Dotted

/-! ### Segments -/

theorem not_mem_of_mem_splitOn : ∀ {cs w : List Char}, w ∈ cs.splitOn '.' → '.' ∉ w
  | [], w, h => by
    rw [List.splitOn_nil, List.mem_singleton] at h
    simp [h]
  | c :: cs, w, h => by
    rw [List.splitOn_cons_eq_if_modifyHead] at h
    split_ifs at h with hc
    · rcases List.mem_cons.mp h with rfl | h
      · simp
      · exact not_mem_of_mem_splitOn h
    · obtain ⟨r, rs, hr⟩ := List.exists_cons_of_ne_nil (List.splitOn_ne_nil '.' cs)
      rw [hr, List.modifyHead_cons] at h
      rcases List.mem_cons.mp h with rfl | h
      · have hmem : '.' ∉ r := not_mem_of_mem_splitOn (show r ∈ cs.splitOn '.' by rw [hr]; simp)
        have hne : c ≠ '.' := by simpa using hc
        simp [hmem, Ne.symm hne]
      · exact not_mem_of_mem_splitOn (show w ∈ cs.splitOn '.' by rw [hr]; simp [h])

theorem infix_intercalate {sep v : List Char} : ∀ {ls : List (List Char)}, v ∈ ls →
    v <:+: sep.intercalate ls
  | [l], h => by
    rw [List.intercalate_singleton, List.mem_singleton.mp h]
  | l :: m :: rest, h => by
    rw [List.intercalate_cons_cons]
    rcases List.mem_cons.mp h with rfl | h
    · exact ⟨[], sep ++ sep.intercalate (m :: rest), by simp⟩
    · exact List.infix_append_of_infix_right (infix_intercalate h)

theorem infix_of_mem_splitOn {c : Char} {cs v : List Char} (h : v ∈ cs.splitOn c) : v <:+: cs := by
  have hi : v <:+: [c].intercalate (cs.splitOn c) := infix_intercalate h
  rwa [List.intercalate_splitOn] at hi

theorem noDot_of_mem_segments {id s : String} (h : s ∈ segments id) : '.' ∉ s.toList := by
  obtain ⟨w, hw, rfl⟩ := List.mem_map.mp h
  rw [String.toList_ofList]
  exact not_mem_of_mem_splitOn hw

theorem segments_injective {x y : String} (h : segments x = segments y) : x = y := by
  rw [← join_segments x, h, join_segments]

theorem segments_join {ss : List String} (hne : ss ≠ []) (h : ∀ s ∈ ss, '.' ∉ s.toList) :
    segments (join ss) = ss := by
  unfold segments
  rw [toList_join, List.splitOn_intercalate '.' (by simpa using h) (by simpa using hne),
    List.map_map]
  simp [Function.comp_def]

theorem join_singleton (n : String) : join [n] = n := String.intercalate_singleton

theorem segments_of_noDot {n : String} (h : '.' ∉ n.toList) : segments n = [n] := by
  have hs : segments (join [n]) = [n] := segments_join (by simp) (by simpa using h)
  rwa [join_singleton] at hs

theorem join_append {ss ts : List String} (hs : ss ≠ []) (ht : ts ≠ []) :
    join (ss ++ ts) = join ss ++ "." ++ join ts := String.intercalate_append_of_ne_nil hs ht

theorem segments_append_dot (p q : String) : segments (p ++ "." ++ q) = segments p ++ segments q := by
  have hj : p ++ "." ++ q = join (segments p ++ segments q) := by
    rw [join_append (segments_ne_nil p) (segments_ne_nil q), join_segments, join_segments]
  rw [hj, segments_join (by simp [segments_ne_nil])]
  intro s hs
  rcases List.mem_append.mp hs with hs | hs <;> exact noDot_of_mem_segments hs

/-! ### Parents and leaves -/

theorem parent?_eq_some_iff {id p : String} :
    parent? id = some p ↔ ∃ n, segments id = segments p ++ [n] := by
  have hcut := List.dropLast_concat_getLast (segments_ne_nil id)
  constructor
  · intro h
    unfold parent? at h
    split at h
    · simp at h
    · next hd =>
      refine ⟨(segments id).getLast (segments_ne_nil id), ?_⟩
      rw [← Option.some.inj h, segments_join hd, hcut]
      exact fun s hs => noDot_of_mem_segments (List.mem_of_mem_dropLast hs)
  · rintro ⟨n, hn⟩
    unfold parent?
    rw [hn, List.dropLast_concat]
    split
    · next hd => exact absurd hd (segments_ne_nil p)
    · rw [join_segments]

theorem parent?_eq_none_iff {id : String} : parent? id = none ↔ segments id = [id] := by
  constructor
  · intro h
    unfold parent? at h
    split at h
    · next hd =>
      obtain ⟨n, hn⟩ : ∃ n, segments id = [n] := by
        have hcut := List.dropLast_concat_getLast (segments_ne_nil id)
        rw [hd, List.nil_append] at hcut
        exact ⟨_, hcut.symm⟩
      have hj := join_segments id
      rw [hn, join_singleton] at hj
      rw [hn, hj]
    · simp at h
  · intro h
    unfold parent?
    rw [h]
    rfl

theorem leaf_of_segments {id : String} {ss : List String} {n : String}
    (h : segments id = ss ++ [n]) : leaf id = n := by
  unfold leaf
  rw [h]
  simp

theorem segments_eq_append_leaf {id p : String} (h : parent? id = some p) :
    segments id = segments p ++ [leaf id] := by
  obtain ⟨n, hn⟩ := parent?_eq_some_iff.mp h
  rw [leaf_of_segments hn, hn]

theorem leaf_of_parent?_eq_none {id : String} (h : parent? id = none) : leaf id = id :=
  leaf_of_segments (show segments id = [] ++ [id] from parent?_eq_none_iff.mp h)

theorem leaf_mem_segments (id : String) : leaf id ∈ segments id := by
  cases h : parent? id with
  | none => rw [leaf_of_parent?_eq_none h, parent?_eq_none_iff.mp h]; simp
  | some p => rw [segments_eq_append_leaf h]; simp

theorem noDot_leaf (id : String) : '.' ∉ (leaf id).toList :=
  noDot_of_mem_segments (leaf_mem_segments id)

theorem segments_below {parent : Option String} {n : String} (h : '.' ∉ n.toList) :
    segments (below parent n) = (parent.map segments).getD [] ++ [n] := by
  cases parent with
  | none => exact segments_of_noDot h
  | some p =>
    show segments (p ++ "." ++ n) = _
    rw [segments_append_dot, segments_of_noDot h]
    rfl

theorem parent?_below {parent : Option String} {n : String} (h : '.' ∉ n.toList) :
    parent? (below parent n) = parent := by
  have hs : segments (below parent n) = (parent.map segments).getD [] ++ [n] := segments_below h
  cases parent with
  | none => exact parent?_eq_none_iff.mpr (by simpa [below] using hs)
  | some p => exact parent?_eq_some_iff.mpr ⟨n, by simpa using hs⟩

theorem leaf_below {parent : Option String} {n : String} (h : '.' ∉ n.toList) :
    leaf (below parent n) = n := leaf_of_segments (segments_below h)

theorem below_leaf (id : String) : below (parent? id) (leaf id) = id := by
  apply segments_injective
  rw [segments_below (noDot_leaf id)]
  cases h : parent? id with
  | none => simp [parent?_eq_none_iff.mp h, leaf_of_parent?_eq_none h]
  | some p => simp [segments_eq_append_leaf h]

/-- The parent is the dotted prefix: a root has no dot, any other id is its parent, a dot and a name
without a dot. -/
theorem parent?_spec (id : String) :
    (parent? id = none ∧ '.' ∉ id.toList) ∨
      ∃ p, parent? id = some p ∧ id = p ++ "." ++ leaf id ∧ '.' ∉ (leaf id).toList := by
  have hb := below_leaf id
  cases h : parent? id with
  | none =>
    have hd := noDot_leaf id
    rw [leaf_of_parent?_eq_none h] at hd
    exact Or.inl ⟨rfl, hd⟩
  | some p =>
    rw [h] at hb
    exact Or.inr ⟨p, rfl, hb.symm, noDot_leaf id⟩

/-- **Induction from the roots downwards.** -/
theorem parentInduction {motive : String → Prop} (root : ∀ id, parent? id = none → motive id)
    (child : ∀ id p, parent? id = some p → motive p → motive id) (id : String) : motive id :=
  match h : parent? id with
  | none => root id h
  | some p =>
    have := length_lt_of_parent? h
    child id p h (parentInduction root child p)
termination_by id.length

/-! ### Ids within other ids -/

theorem isWithin_iff_eq_or {id top : String} :
    isWithin id top = true ↔ id = top ∨ ∃ r, id = top ++ "." ++ r := by
  unfold isWithin
  rw [Bool.or_eq_true, beq_iff_eq, List.isPrefixOf_iff_prefix]
  refine or_congr Iff.rfl ⟨?_, ?_⟩
  · rintro ⟨r, hr⟩
    refine ⟨String.ofList r, String.toList_injective ?_⟩
    simpa using hr.symm
  · rintro ⟨r, rfl⟩
    exact ⟨r.toList, by simp⟩

/-- **An id lies within another one if its segments begin with those of the other.** -/
theorem isWithin_iff {id top : String} :
    isWithin id top = true ↔ segments top <+: segments id := by
  rw [isWithin_iff_eq_or]
  constructor
  · rintro (rfl | ⟨r, rfl⟩)
    · exact List.prefix_rfl
    · exact ⟨segments r, (segments_append_dot top r).symm⟩
  · rintro ⟨t, ht⟩
    by_cases hne : t = []
    · left
      exact segments_injective (by rw [← ht, hne, List.append_nil])
    · right
      refine ⟨join t, ?_⟩
      rw [← join_segments id, ← ht, join_append (segments_ne_nil top) hne, join_segments]

theorem isWithin_trans {x y z : String} (h : isWithin x y = true) (h' : isWithin y z = true) :
    isWithin x z = true :=
  isWithin_iff.mpr ((isWithin_iff.mp h').trans (isWithin_iff.mp h))

theorem isWithin_antisymm {x y : String} (h : isWithin x y = true) (h' : isWithin y x = true) :
    x = y := by
  have hp := isWithin_iff.mp h
  have hp' := isWithin_iff.mp h'
  exact segments_injective (hp'.eq_of_length (le_antisymm hp'.length_le hp.length_le))

theorem isWithin_parent {id p : String} (h : parent? id = some p) : isWithin id p = true := by
  rw [isWithin_iff, segments_eq_append_leaf h]
  exact List.prefix_append _ _

theorem not_isWithin_child {id p : String} (h : parent? id = some p) : ¬ isWithin p id = true := by
  intro hw
  have hlt := length_lt_of_parent? h
  rw [isWithin_antisymm hw (isWithin_parent h)] at hlt
  exact absurd hlt (Nat.lt_irrefl _)

theorem isWithin_parent?_of_ne {id top : String} (h : isWithin id top = true) (hne : id ≠ top) :
    ∃ p, parent? id = some p ∧ isWithin p top = true := by
  obtain ⟨t, ht⟩ := isWithin_iff.mp h
  have htne : t ≠ [] := by
    rintro rfl
    exact hne (segments_injective (by rw [← ht, List.append_nil]))
  have hcut := List.dropLast_concat_getLast htne
  rw [← hcut, ← List.append_assoc] at ht
  have hsp : segments (join (segments top ++ t.dropLast)) = segments top ++ t.dropLast := by
    refine segments_join (by simp [segments_ne_nil]) fun s hs => ?_
    have hmem : s ∈ segments id := by rw [← ht]; exact List.mem_append_left _ hs
    exact noDot_of_mem_segments hmem
  refine ⟨join (segments top ++ t.dropLast),
    parent?_eq_some_iff.mpr ⟨t.getLast htne, by rw [hsp, ht]⟩, ?_⟩
  rw [isWithin_iff, hsp]
  exact List.prefix_append _ _

theorem isWithin_total {x y z : String} (h : isWithin x y = true) (h' : isWithin x z = true) :
    isWithin y z = true ∨ isWithin z y = true := by
  rw [isWithin_iff, isWithin_iff]
  exact List.prefix_or_prefix_of_prefix (isWithin_iff.mp h') (isWithin_iff.mp h)

theorem eq_of_isWithin_siblings {x y z : String} (hp : parent? y = parent? z)
    (h : isWithin x y = true) (h' : isWithin x z = true) : y = z := by
  have hlen : (segments y).length = (segments z).length := by
    cases hy : parent? y with
    | none =>
      rw [parent?_eq_none_iff.mp hy, parent?_eq_none_iff.mp (hp.symm.trans hy)]
      rfl
    | some p =>
      rw [segments_eq_append_leaf hy, segments_eq_append_leaf (hp.symm.trans hy)]
      simp
  apply segments_injective
  rcases isWithin_total h h' with hw | hw
  · exact ((isWithin_iff.mp hw).eq_of_length hlen.symm).symm
  · exact (isWithin_iff.mp hw).eq_of_length hlen

/-! ### Replacing a top -/

/-- **Replacing the top of an id replaces the segments in front.** -/
theorem segments_append_remainder {id top : String} (h : isWithin id top = true) (new : String) :
    segments (new ++ remainder id top) =
      segments new ++ (segments id).drop (segments top).length := by
  rcases isWithin_iff_eq_or.mp h with rfl | ⟨r, rfl⟩
  · simp [remainder]
  · have hr : remainder (top ++ "." ++ r) top = "." ++ r := by
      apply String.toList_injective
      simp [remainder, String.toList_append]
    rw [hr, ← String.append_assoc, segments_append_dot, segments_append_dot, List.drop_left]

theorem remainder_self (id : String) : remainder id id = "" := by
  simp [remainder]

theorem append_remainder {id top : String} (h : isWithin id top = true) :
    top ++ remainder id top = id := by
  apply segments_injective
  rw [segments_append_remainder h]
  exact List.prefix_iff_eq_append.mp (isWithin_iff.mp h)

theorem isWithin_append_remainder {id top : String} (h : isWithin id top = true) (new : String) :
    isWithin (new ++ remainder id top) new = true := by
  rw [isWithin_iff, segments_append_remainder h]
  exact List.prefix_append _ _

theorem parent?_append_remainder {id p top : String} (hp : parent? id = some p)
    (h : isWithin p top = true) (new : String) :
    parent? (new ++ remainder id top) = some (new ++ remainder p top) := by
  rw [parent?_eq_some_iff]
  refine ⟨leaf id, ?_⟩
  rw [segments_append_remainder (isWithin_trans (isWithin_parent hp) h),
    segments_append_remainder h, segments_eq_append_leaf hp,
    List.drop_append_of_le_length (isWithin_iff.mp h).length_le, List.append_assoc]

/-! ### Lineages -/

theorem prefixes_concat {α : Type} : ∀ (l : List α) (x : α),
    prefixes (l ++ [x]) = prefixes l ++ [l ++ [x]]
  | [], x => rfl
  | y :: l, x => by
    rw [List.cons_append, prefixes, prefixes, prefixes_concat l x]
    simp

theorem lineage_of_root {id : String} (h : parent? id = none) : lineage id = [id] := by
  unfold lineage
  rw [parent?_eq_none_iff.mp h]
  simp [prefixes, join_singleton]

theorem lineage_of_parent {id p : String} (h : parent? id = some p) :
    lineage id = id :: lineage p := by
  unfold lineage
  rw [segments_eq_append_leaf h, prefixes_concat, List.map_append, List.reverse_append,
    ← segments_eq_append_leaf h]
  simp [join_segments]

theorem mem_lineage {x id : String} : x ∈ lineage id ↔ isWithin id x = true := by
  induction id using parentInduction with
  | root id h =>
    rw [lineage_of_root h, List.mem_singleton]
    constructor
    · rintro rfl
      exact isWithin_self x
    · intro hw
      by_contra hne
      obtain ⟨p, hp, -⟩ := isWithin_parent?_of_ne hw (Ne.symm hne)
      rw [h] at hp
      simp at hp
  | child id p h ih =>
    rw [lineage_of_parent h, List.mem_cons, ih]
    constructor
    · rintro (rfl | hw)
      · exact isWithin_self x
      · exact isWithin_trans (isWithin_parent h) hw
    · intro hw
      by_cases hx : id = x
      · exact Or.inl hx.symm
      · obtain ⟨q, hq, hw'⟩ := isWithin_parent?_of_ne hw hx
        rw [h] at hq
        exact Or.inr (Option.some.inj hq ▸ hw')

end BoxDiagram.Dotted
