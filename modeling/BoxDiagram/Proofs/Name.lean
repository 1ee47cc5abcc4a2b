import BoxDiagram.Key
import BoxDiagram.Proofs.Arrow
import BoxDiagram.Proofs.Dotted
import BoxDiagram.Proofs.Text

/-!
# Names: the segments of paths that can be written and read back

A *segment* is what reading a path can give: it is not empty, has no blanks around it, no dot and no
forbidden character. A *name* is a segment in which no arrow occurs. What is read from a text
without arrows are names (`isPath_of_readPath`), and names joined by dots are read back
(`readPath_join`).
-/

namespace BoxDiagram

open Text

/-- What can stand between the dots of a path. -/
structure IsSegment (s : String) : Prop where
  ne_empty : s ≠ ""
  trimmed : Text.trimmed s = s
  noDot : '.' ∉ s.toList
  allowed : ∀ c ∈ s.toList, c ∉ Key.forbidden

/-- **A name**: a segment in which no arrow occurs. -/
structure IsName (s : String) : Prop extends IsSegment s where
  noArrow : Arrow.Free s.toList

/-- A path of segments, in which arrows may occur. -/
structure IsSegmentPath (path : List String) : Prop where
  ne_nil : path ≠ []
  segments : ∀ n ∈ path, IsSegment n

/-- A path of names. -/
structure IsPath (path : List String) : Prop where
  ne_nil : path ≠ []
  names : ∀ n ∈ path, IsName n

instance : DecidablePred IsName := fun s =>
  decidable_of_iff ((s ≠ "" ∧ Text.trimmed s = s ∧ '.' ∉ s.toList ∧
      s.toList.filter Key.forbidden.contains = []) ∧ (Arrow.cut s.toList).2 = [])
    ⟨fun ⟨⟨h₁, h₂, h₃, h₄⟩, h⟩ => ⟨⟨h₁, h₂, h₃, by simpa using h₄⟩, Arrow.cut_snd_eq_nil_iff.mp h⟩,
      fun h => ⟨⟨h.ne_empty, h.trimmed, h.noDot, by simpa using h.allowed⟩,
        Arrow.cut_snd_eq_nil_iff.mpr h.noArrow⟩⟩

instance : DecidablePred IsPath := fun path =>
  decidable_of_iff (path ≠ [] ∧ ∀ n ∈ path, IsName n)
    ⟨fun ⟨h₁, h₂⟩ => ⟨h₁, h₂⟩, fun h => ⟨h.ne_nil, h.names⟩⟩

theorem IsSegment.trim_toList {s : String} (h : IsSegment s) : trim s.toList = s.toList := by
  rw [← toList_trimmed, h.trimmed]

theorem IsSegment.toList_ne_nil {s : String} (h : IsSegment s) : s.toList ≠ [] := by
  simpa using h.ne_empty

theorem IsSegment.solid {s : String} (h : IsSegment s) :
    OpensSolid s.toList ∧ ClosesSolid s.toList :=
  (trim_eq_self_iff.mp h.trim_toList).resolve_left h.toList_ne_nil

theorem IsPath.segmented {path : List String} (h : IsPath path) : IsSegmentPath path :=
  ⟨h.ne_nil, fun n hn => (h.names n hn).toIsSegment⟩

theorem IsSegmentPath.noDot {path : List String} (h : IsSegmentPath path) :
    ∀ n ∈ path, '.' ∉ n.toList := fun n hn => (h.segments n hn).noDot

theorem IsPath.noDot {path : List String} (h : IsPath path) : ∀ n ∈ path, '.' ∉ n.toList :=
  h.segmented.noDot

theorem IsPath.segments_join {path : List String} (h : IsPath path) :
    Dotted.segments (Dotted.join path) = path := Dotted.segments_join h.ne_nil h.noDot

theorem IsPath.append {path rest : List String} (h : IsPath path) (hrest : IsPath rest) :
    IsPath (path ++ rest) :=
  ⟨by simp [h.ne_nil], fun n hn => (List.mem_append.mp hn).elim (h.names n) (hrest.names n)⟩

theorem isPath_singleton {n : String} (h : IsName n) : IsPath [n] :=
  ⟨by simp, by simpa using h⟩

/-! ### Joined names -/

theorem toList_join_cons_cons (m n : String) (rest : List String) :
    (Dotted.join (m :: n :: rest)).toList =
      m.toList ++ '.' :: (Dotted.join (n :: rest)).toList := by
  rw [← List.singleton_append, Dotted.join_append (by simp) (by simp), String.toList_append,
    String.toList_append, Dotted.join_singleton]
  simp

theorem forall_mem_join {p : Char → Prop} (hdot : p '.') : ∀ {path : List String},
    (∀ n ∈ path, ∀ c ∈ n.toList, p c) → ∀ c ∈ (Dotted.join path).toList, p c
  | [], _ => by simp [Dotted.join]
  | [n], h => by
    rw [Dotted.join_singleton]
    exact h n (by simp)
  | m :: n :: rest, h => by
    rw [toList_join_cons_cons]
    intro c hc
    rcases List.mem_append.mp hc with hc | hc
    · exact h m (by simp) c hc
    · rcases List.mem_cons.mp hc with rfl | hc
      · exact hdot
      · exact forall_mem_join hdot (fun n hn => h n (List.mem_cons_of_mem _ hn)) c hc

theorem closesSolid_join : ∀ {path : List String}, path ≠ [] → (∀ n ∈ path, IsSegment n) →
    ClosesSolid (Dotted.join path).toList
  | [n], _, h => by
    rw [Dotted.join_singleton]
    exact (h n (by simp)).solid.2
  | m :: n :: rest, _, h => by
    have ih : ClosesSolid (Dotted.join (n :: rest)).toList :=
      closesSolid_join (by simp) fun n hn => h n (List.mem_cons_of_mem _ hn)
    rw [toList_join_cons_cons, ← List.singleton_append, ← List.append_assoc]
    exact ih.append _

theorem opensSolid_join : ∀ {path : List String}, path ≠ [] → (∀ n ∈ path, IsSegment n) →
    OpensSolid (Dotted.join path).toList
  | [n], _, h => by
    rw [Dotted.join_singleton]
    exact (h n (by simp)).solid.1
  | m :: n :: rest, _, h => by
    have hm : OpensSolid m.toList := (h m (by simp)).solid.1
    rw [toList_join_cons_cons]
    exact hm.append _

section SegmentPath
variable {path : List String} (h : IsSegmentPath path)
include h

theorem IsSegmentPath.opensSolid : OpensSolid (Dotted.join path).toList :=
  opensSolid_join h.ne_nil h.segments

theorem IsSegmentPath.closesSolid : ClosesSolid (Dotted.join path).toList :=
  closesSolid_join h.ne_nil h.segments

theorem IsSegmentPath.trim_join : trim (Dotted.join path).toList = (Dotted.join path).toList :=
  trim_eq_self h.opensSolid h.closesSolid

theorem IsSegmentPath.allowed : ∀ c ∈ (Dotted.join path).toList, c ∉ Key.forbidden :=
  forall_mem_join (by decide) fun n hn => (h.segments n hn).allowed

end SegmentPath

theorem free_join : ∀ {path : List String}, (∀ n ∈ path, Arrow.Free n.toList) →
    Arrow.Free (Dotted.join path).toList
  | [], _ => by simpa [Dotted.join] using Arrow.free_nil
  | [n], h => by
    rw [Dotted.join_singleton]
    exact h n (by simp)
  | m :: n :: rest, h => by
    have hdot : Arrow.IsSeparator '.' := by unfold Arrow.IsSeparator; decide
    have ih : Arrow.Free (Dotted.join (n :: rest)).toList :=
      free_join fun n hn => h n (List.mem_cons_of_mem _ hn)
    rw [toList_join_cons_cons]
    exact Arrow.free_append hdot (h m (by simp)) ih

section Path
variable {path : List String} (h : IsPath path)
include h

theorem IsPath.segments : ∀ n ∈ path, IsSegment n := h.segmented.segments

theorem IsPath.opensSolid : OpensSolid (Dotted.join path).toList := h.segmented.opensSolid

theorem IsPath.closesSolid : ClosesSolid (Dotted.join path).toList := h.segmented.closesSolid

theorem IsPath.trim_join : trim (Dotted.join path).toList = (Dotted.join path).toList :=
  h.segmented.trim_join

theorem IsPath.free : Arrow.Free (Dotted.join path).toList :=
  free_join fun n hn => (h.names n hn).noArrow

theorem IsPath.allowed : ∀ c ∈ (Dotted.join path).toList, c ∉ Key.forbidden :=
  h.segmented.allowed

end Path

/-! ### Arrows and blanks -/

theorem isSeparator_of_isBlank {c : Char} (h : isBlank c = true) : Arrow.IsSeparator c := by
  refine ⟨?_, ?_, ?_⟩ <;> rintro rfl <;> revert h <;> decide

theorem free_of_trimStart : ∀ {cs : List Char}, Arrow.Free (trimStart cs) → Arrow.Free cs
  | [], h => h
  | c :: cs, h => by
    by_cases hb : isBlank c = true
    · have hnone : Arrow.NoneStarts (c :: cs) := (isSeparator_of_isBlank hb).noneStarts cs
      rw [trimStart, List.dropWhile_cons_of_pos hb] at h
      exact Arrow.free_cons.mpr ⟨hnone, free_of_trimStart h⟩
    · rwa [trimStart, List.dropWhile_cons_of_neg hb] at h

theorem free_of_trimEnd {cs : List Char} (h : Arrow.Free (trimEnd cs)) : Arrow.Free cs := by
  induction cs using List.reverseRecOn with
  | nil => exact h
  | append_singleton cs c ih =>
    by_cases hb : isBlank c = true
    · rw [trimEnd_concat_of_blank hb] at h
      exact Arrow.free_append (isSeparator_of_isBlank hb) (ih h) Arrow.free_nil
    · have hsolid : ClosesSolid (cs ++ [c]) := closesSolid_concat.mpr (by simpa using hb)
      rwa [trimEnd_eq_self hsolid] at h

theorem free_trim_iff {cs : List Char} : Arrow.Free (trim cs) ↔ Arrow.Free cs :=
  ⟨fun h => free_of_trimStart (free_of_trimEnd h), fun h => h.of_isInfix (trim_isInfix cs)⟩

/-! ### Reading paths and chains -/

namespace Key

theorem readPath_eq_ok_iff {cs : List Char} {path : List String} :
    readPath cs = .ok path ↔ trim cs ≠ [] ∧ (∀ c ∈ trim cs, c ∉ forbidden) ∧
      [] ∉ ((trim cs).splitOn '.').map trim ∧
      path = (((trim cs).splitOn '.').map trim).map String.ofList := by
  unfold readPath
  by_cases hne : trim cs = []
  · simp [hne]
  · simp only [ne_eq, hne, not_false_eq_true, true_and, if_false]
    cases hf : (trim cs).find? forbidden.contains with
    | some c =>
      have hm := List.mem_of_find?_eq_some hf
      have hc := List.find?_some hf
      constructor
      · intro h
        simp at h
      · rintro ⟨h, -⟩
        exact absurd (by simpa using hc) (h c hm)
    | none =>
      have hall : ∀ c ∈ trim cs, c ∉ forbidden := by simpa using hf
      by_cases he : [] ∈ ((trim cs).splitOn '.').map trim
      · have hb : (((trim cs).splitOn '.').map trim).contains [] = true := by simpa using he
        simp only [hb, if_true]
        constructor
        · intro h
          simp at h
        · rintro ⟨-, h, -⟩
          exact absurd he h
      · have hb : (((trim cs).splitOn '.').map trim).contains [] = false := by
          simpa using he
        simp only [hb, Bool.false_eq_true, if_false, Except.ok.injEq]
        exact ⟨fun h => ⟨hall, he, h.symm⟩, fun h => h.2.2.symm⟩

/-- **What is read are segments**, parts of the text. -/
theorem isSegment_of_readPath {cs : List Char} {path : List String} (h : readPath cs = .ok path) :
    path ≠ [] ∧ ∀ n ∈ path, IsSegment n ∧ n.toList <:+: cs := by
  obtain ⟨-, hall, hne, rfl⟩ := readPath_eq_ok_iff.mp h
  refine ⟨by simp, fun n hn => ?_⟩
  obtain ⟨w, hw, rfl⟩ := List.mem_map.mp hn
  obtain ⟨v, hv, rfl⟩ := List.mem_map.mp hw
  rw [String.toList_ofList]
  have hi : trim v <:+: trim cs := (trim_isInfix v).trans (Dotted.infix_of_mem_splitOn hv)
  refine ⟨⟨?_, ?_, ?_, ?_⟩, hi.trans (trim_isInfix cs)⟩
  · intro he
    exact hne (List.mem_map.mpr ⟨v, hv, by simpa using he⟩)
  · simp [Text.trimmed, trim_trim]
  · rw [String.toList_ofList]
    exact fun hd => Dotted.not_mem_of_mem_splitOn hv ((trim_isInfix v).subset hd)
  · rw [String.toList_ofList]
    exact fun c hc => hall c (hi.subset hc)

theorem isSegmentPath_of_readPath {cs : List Char} {path : List String}
    (h : readPath cs = .ok path) : IsSegmentPath path := by
  obtain ⟨hne, hs⟩ := isSegment_of_readPath h
  exact ⟨hne, fun n hn => (hs n hn).1⟩

theorem isPath_of_readPath {cs : List Char} {path : List String} (h : readPath cs = .ok path)
    (hf : Arrow.Free cs) : IsPath path := by
  obtain ⟨hne, hs⟩ := isSegment_of_readPath h
  exact ⟨hne, fun n hn => ⟨(hs n hn).1, hf.of_isInfix (hs n hn).2⟩⟩

theorem toList_of_readPath_singleton {cs : List Char} {name : String}
    (h : readPath cs = .ok [name]) : name.toList = trim cs := by
  obtain ⟨-, -, -, hpath⟩ := readPath_eq_ok_iff.mp h
  obtain ⟨w, hw⟩ : ∃ w, (trim cs).splitOn '.' = [w] := by
    rw [← List.length_eq_one_iff]
    simpa using (congrArg List.length hpath).symm
  have hjoin : ['.'].intercalate ((trim cs).splitOn '.') = trim cs := List.intercalate_splitOn ..
  rw [hw, List.intercalate_singleton] at hjoin
  rw [hw, hjoin] at hpath
  obtain rfl : name = String.ofList (trim (trim cs)) := by simpa using hpath
  rw [String.toList_ofList, trim_trim]

/-- **Joined segments are read back.** -/
theorem readPath_join_of_segments {cs : List Char} {path : List String} (h : IsSegmentPath path)
    (hcs : trim cs = (Dotted.join path).toList) : readPath cs = .ok path := by
  have hsplit : (trim cs).splitOn '.' = path.map String.toList := by
    rw [hcs, Dotted.toList_join]
    exact List.splitOn_intercalate '.' (by simpa using h.noDot) (by simpa using h.ne_nil)
  have htrim : (path.map String.toList).map trim = path.map String.toList := by
    rw [List.map_map]
    exact List.map_congr_left fun n hn => (h.segments n hn).trim_toList
  have hnonempty : [] ∉ path.map String.toList := by
    intro he
    obtain ⟨n, hn, hn'⟩ := List.mem_map.mp he
    exact (h.segments n hn).toList_ne_nil hn'
  have hback : path = (path.map String.toList).map String.ofList := by
    simp [List.map_map, Function.comp_def]
  rw [readPath_eq_ok_iff, hsplit, htrim, hcs]
  exact ⟨h.opensSolid.ne_nil, h.allowed, hnonempty, hback⟩

/-- **Joined names are read back.** -/
theorem readPath_join {cs : List Char} {path : List String} (h : IsPath path)
    (hcs : trim cs = (Dotted.join path).toList) : readPath cs = .ok path :=
  readPath_join_of_segments h.segmented hcs

/-- The gaps of a chain hold no arrow, and there is one more of them than there are arrows. -/
theorem splitChain?_eq_some {cs : List Char} {endpoints : List (List Char)}
    {arrows : List Arrow} (h : splitChain? cs = some (endpoints, arrows)) :
    arrows ≠ [] ∧ endpoints.length = arrows.length + 1 ∧ ∀ e ∈ endpoints, Arrow.Free e := by
  obtain ⟨hfirst, hrest⟩ := Arrow.free_of_mem_cut cs
  unfold splitChain? at h
  split at h
  · simp at h
  · next first hops hne heq =>
    rw [heq] at hfirst hrest
    obtain ⟨rfl, rfl⟩ := Prod.mk.inj (Option.some.inj h)
    refine ⟨by simpa using hne, by simp, fun e he => ?_⟩
    rcases List.mem_cons.mp he with rfl | he
    · exact hfirst.of_isInfix (trim_isInfix _)
    · obtain ⟨hop, hhop, rfl⟩ := List.mem_map.mp he
      exact (hrest hop hhop).of_isInfix (trim_isInfix _)

theorem splitChain?_eq_none_iff {cs : List Char} : splitChain? cs = none ↔ Arrow.Free cs := by
  rw [← Arrow.cut_snd_eq_nil_iff]
  unfold splitChain?
  split
  · next first heq => simp [heq]
  · next first hops hne heq => simpa [heq] using hne

end Key

end BoxDiagram
