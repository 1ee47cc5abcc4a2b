import BoxDiagram.Proofs.Key
import BoxDiagram.Proofs.Statement.RoundTrip

/-!
# Keys as heads: a key is a line of a diagram text

The head of a statement is read by the same scans as a key. A text on one line that is read as a
head, without blanks around it, holds no character that could end the head early (`isHead_of_read`):
a forbidden one can only stand around an arrow, where blanks are dropped, and there it is a carriage
return. So the key of an object is the head of its declaration, and the key of a connection without
an index is the head of that connection (`isHead_of_parse_object`, `isHead_of_parse_edge`).
-/

namespace BoxDiagram

open Text

namespace Key

theorem eq_of_forbidden_of_isBlank {c : Char} (h : c ∈ forbidden) (hb : isBlank c = true) :
    c = '\n' ∨ c = '\r' := by
  have hnone : ((forbidden.erase '\n').erase '\r').any isBlank = false := by decide
  by_contra hne
  obtain ⟨hline, hreturn⟩ := not_or.mp hne
  have hmem : c ∈ (forbidden.erase '\n').erase '\r' :=
    (List.mem_erase_of_ne hreturn).mpr ((List.mem_erase_of_ne hline).mpr h)
  exact List.any_eq_false.mp hnone c hmem hb

theorem isBlank_of_readPath {cs : List Char} {path : List String} (h : readPath cs = .ok path)
    {c : Char} (hc : c ∈ cs) (hf : c ∈ forbidden) : isBlank c = true :=
  (mem_trim_or hc).resolve_left fun hm => (readPath_eq_ok_iff.mp h).2.1 c hm hf

theorem mem_of_splitChain? {cs : List Char} {endpoints : List (List Char)} {arrows : List Arrow}
    (h : splitChain? cs = some (endpoints, arrows)) {c : Char} (hc : c ∈ cs) :
    (∃ e ∈ endpoints, c ∈ e) ∨ (∃ a : Arrow, c ∈ a.token.toList) ∨ isBlank c = true := by
  rw [← Arrow.append_cut cs, List.mem_append, List.mem_flatMap] at hc
  unfold splitChain? at h
  split at h
  · simp at h
  · next first hops hne heq =>
    rw [heq] at hc
    obtain ⟨rfl, rfl⟩ := Prod.mk.inj (Option.some.inj h)
    rcases hc with hc | ⟨hop, hhop, hc⟩
    · exact (mem_trim_or hc).imp (fun hm => ⟨trim first, by simp, hm⟩) Or.inr
    · rcases List.mem_append.mp hc with hc | hc
      · exact Or.inr (Or.inl ⟨hop.1, hc⟩)
      · have hmem : trim hop.2 ∈ trim first :: hops.map (trim ·.2) :=
          List.mem_cons_of_mem _ (List.mem_map_of_mem hhop)
        exact (mem_trim_or hc).imp (fun hm => ⟨trim hop.2, hmem, hm⟩) Or.inr

end Key

/-! ### Heads -/

theorem Head.isBlank_of_read {piece cs : List Char} {head : Head}
    (h : Head.read piece cs = .ok head) {c : Char} (hc : c ∈ cs) (hf : c ∈ Key.forbidden) :
    isBlank c = true := by
  refine (mem_trim_or hc).elim (fun hc => ?_) id
  unfold Head.read at h
  dsimp only at h
  split_ifs at h
  cases hs : Key.splitChain? (trim cs) with
  | none =>
    simp only [hs, map_eq_ok, mapError_eq_ok] at h
    obtain ⟨path, hpath, -⟩ := h
    exact Key.isBlank_of_readPath hpath hc hf
  | some chain =>
    obtain ⟨endpoints, arrows⟩ := chain
    simp only [hs, bind_eq_ok] at h
    obtain ⟨paths, hpaths, -⟩ := h
    rcases Key.mem_of_splitChain? hs hc with ⟨e, he, hc⟩ | ⟨a, ha⟩ | hblank
    · obtain ⟨path, hpath⟩ := exists_of_mem_of_mapM hpaths e he
      exact Key.isBlank_of_readPath (mapError_eq_ok.mp hpath) hc hf
    · rcases Arrow.mem_token ha with rfl | rfl | rfl <;> revert hf <;> decide
    · exact hblank

/-- **A text on one line that is read as a head is one**, if no blanks stand around it. -/
theorem isHead_of_read {cs : List Char} {head : Head} (htrim : trim cs = cs) (hn : '\n' ∉ cs)
    (h : ∀ piece, Head.read piece cs = .ok head) : IsHead head cs := by
  have hsolid := trim_eq_nil_or cs
  rw [htrim] at hsolid
  have hne : cs ≠ [] := by
    rintro rfl
    cases h []
  obtain ⟨hopens, hcloses⟩ := hsolid.resolve_left hne
  refine ⟨hopens, hcloses, fun c hc hf => ?_, h⟩
  have hblank := Head.isBlank_of_read (h []) hc hf
  exact (Key.eq_of_forbidden_of_isBlank hf hblank).resolve_left fun he => hn (he ▸ hc)

namespace Key

variable {key : String}

/-- **The key of an object is the head of a declaration**. -/
theorem isHead_of_parse_object {path attr : List String}
    (h : parse key = .ok (.object path attr)) :
    IsHead (.declaration (path ++ attr)) (trimmed key).toList := by
  obtain ⟨hfree, hread, -⟩ := readPath_of_parse h
  rw [toList_trimmed]
  have htrim := trim_trim key.toList
  obtain ⟨hne, hallowed, -, -⟩ := readPath_eq_ok_iff.mp hread
  rw [htrim] at hne hallowed
  have hsplit : splitChain? (trim key.toList) = none := splitChain?_eq_none_iff.mpr hfree
  refine isHead_of_read htrim (fun hm => hallowed _ hm (by decide)) fun piece => ?_
  unfold Head.read
  rw [htrim]
  dsimp only
  rw [if_neg hne, hsplit]
  simp only [map_eq_ok, mapError_eq_ok]
  exact ⟨_, hread, rfl⟩

/-- **The key of a connection without an index is the head of the connection**, if it is one line. -/
theorem isHead_of_parse_edge {k : EdgeKey} (h : parse key = .ok (.edge k))
    (hindex : k.index = none) (hn : '\n' ∉ key.toList) :
    IsHead (.connection [k.source, k.target] [k.arrow]) (trimmed key).toList := by
  have htrim := trim_trim key.toList
  obtain ⟨source, target, hsplit, hsource, htarget, -, -⟩ := of_readEdge (readEdge_of_parse h hindex)
  rw [htrim] at hsplit
  have hne : trim key.toList ≠ [] := by
    intro he
    rw [he] at hsplit
    cases hsplit
  rw [toList_trimmed]
  refine isHead_of_read htrim (fun hm => hn ((trim_isInfix _).subset hm)) fun piece => ?_
  unfold Head.read
  rw [htrim]
  dsimp only
  rw [if_neg hne, hsplit]
  simp only [bind_eq_ok, pure_eq_ok]
  refine ⟨[k.source, k.target], mapM_eq_ok_iff.mpr ?_, rfl⟩
  have hs : readPath source = .ok k.source := (of_readEndpoint hsource).1
  have ht : readPath target = .ok k.target := (of_readEndpoint htarget).1
  simp [hs, ht]

end Key

end BoxDiagram
