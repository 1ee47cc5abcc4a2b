import BoxDiagram.Proofs.Name
import BoxDiagram.Proofs.Success
import BoxDiagram.Statement.Parser

/-!
# Well-formed statements, and that reading gives no others

A statement is well formed if its path, or each of its endpoints, is a path of names, its arrows are
one fewer than its endpoints and at least one, and the statements of its block are well formed.
Values are arbitrary. Whatever a text holds, the statements read from it are well formed
(`wellFormed_of_readLines`): the pieces of the lines go through a reading whose complete statements
and open blocks all are.
-/

namespace BoxDiagram

open Text

/-- A head with names throughout, and arrows between all endpoints. -/
def Head.WellFormed : Head → Prop
  | .declaration path => IsPath path
  | .connection endpoints arrows =>
    arrows ≠ [] ∧ endpoints.length = arrows.length + 1 ∧ ∀ e ∈ endpoints, IsPath e

instance : DecidablePred Head.WellFormed
  | .declaration path => inferInstanceAs (Decidable (IsPath path))
  | .connection endpoints arrows => inferInstanceAs (Decidable
      (arrows ≠ [] ∧ endpoints.length = arrows.length + 1 ∧ ∀ e ∈ endpoints, IsPath e))

/-- **A well-formed statement**: its head is well formed, and so are the statements of its block. -/
inductive Statement.WellFormed : Statement → Prop
  | intro {s : Statement} (head : s.head.WellFormed)
      (block : ∀ t ∈ s.block.getD [], t.WellFormed) : s.WellFormed

/-! ### Entries -/

theorem Head.wellFormed_of_read {piece cs : List Char} {head : Head}
    (h : Head.read piece cs = .ok head) : head.WellFormed := by
  unfold Head.read at h
  dsimp only at h
  split_ifs at h
  cases hs : Key.splitChain? (trim cs) with
  | some chain =>
    obtain ⟨endpoints, arrows⟩ := chain
    obtain ⟨hne, hlen, hfree⟩ := Key.splitChain?_eq_some hs
    simp only [hs, bind_eq_ok, pure_eq_ok] at h
    obtain ⟨paths, hpaths, rfl⟩ := h
    refine ⟨hne, by rw [← length_of_mapM hpaths, hlen], fun path hpath => ?_⟩
    obtain ⟨e, he, hread⟩ := exists_of_mapM hpaths path hpath
    exact Key.isPath_of_readPath (mapError_eq_ok.mp hread) (hfree e he)
  | none =>
    simp only [hs, map_eq_ok, mapError_eq_ok] at h
    obtain ⟨path, hpath, rfl⟩ := h
    exact Key.isPath_of_readPath hpath (Key.splitChain?_eq_none_iff.mp hs)

theorem Entry.wellFormed_of_read {piece : List Char} {e : Entry} (h : Entry.read piece = .ok e) :
    e.head.WellFormed := by
  unfold Entry.read at h
  simp only [bind_eq_ok, pure_eq_ok] at h
  obtain ⟨value, -, head, hhead, rfl⟩ := h
  exact Head.wellFormed_of_read hhead

theorem Entry.statement_wellFormed {e : Entry} (h : e.head.WellFormed) : e.statement.WellFormed := by
  refine .intro h ?_
  cases hm : e.marker <;> simp [Entry.statement, Marker.block?, hm]

/-! ### Readings -/

namespace Reading

/-- The complete statements of a reading are well formed, and those of its open blocks too. -/
structure WellFormed (r : Reading) : Prop where
  statements : ∀ s ∈ r.statements, s.WellFormed
  openers : ∀ f ∈ r.frames, f.opener.head.WellFormed
  inner : ∀ f ∈ r.frames, ∀ s ∈ f.statements, s.WellFormed

theorem wellFormed_start : start.WellFormed := ⟨by simp [start], by simp [start], by simp [start]⟩

theorem WellFormed.add {r : Reading} (h : r.WellFormed) {s : Statement} (hs : s.WellFormed) :
    (r.add s).WellFormed := by
  obtain ⟨statements, frames⟩ := r
  cases frames with
  | nil =>
    refine ⟨fun t ht => ?_, by simp [Reading.add], by simp [Reading.add]⟩
    rcases List.mem_append.mp ht with ht | ht
    · exact h.statements t ht
    · rwa [List.mem_singleton.mp ht]
  | cons f outer =>
    obtain ⟨ho, houter⟩ := List.forall_mem_cons.mp h.openers
    obtain ⟨hf, hinner⟩ := List.forall_mem_cons.mp h.inner
    refine ⟨h.statements, List.forall_mem_cons.mpr ⟨ho, houter⟩,
      List.forall_mem_cons.mpr ⟨fun t ht => ?_, hinner⟩⟩
    rcases List.mem_append.mp ht with ht | ht
    · exact hf t ht
    · rwa [List.mem_singleton.mp ht]

/-- **One piece keeps a reading well formed.** -/
theorem WellFormed.step {r r' : Reading} (h : r.WellFormed) {line : Nat} {piece : Piece}
    (hstep : Reading.step line r piece = .ok r') : r'.WellFormed := by
  cases piece with
  | close =>
    obtain ⟨statements, frames⟩ := r
    cases frames with
    | nil => simp [Reading.step] at hstep
    | cons f outer =>
      obtain ⟨ho, houter⟩ := List.forall_mem_cons.mp h.openers
      obtain ⟨hf, hinner⟩ := List.forall_mem_cons.mp h.inner
      have hs : (f.opener.withBlock f.statements).WellFormed := .intro ho hf
      have hr : Reading.WellFormed ⟨statements, outer⟩ := ⟨h.statements, houter, hinner⟩
      simp only [Reading.step, Except.ok.injEq] at hstep
      exact hstep ▸ hr.add hs
  | text cs =>
    simp only [Reading.step, bind_eq_ok] at hstep
    obtain ⟨e, he, hstep⟩ := hstep
    have hhead := Entry.wellFormed_of_read he
    split_ifs at hstep
    · rw [← pure_eq_ok.mp hstep]
      refine ⟨h.statements, List.forall_mem_cons.mpr ⟨hhead, h.openers⟩,
        List.forall_mem_cons.mpr ⟨by simp, h.inner⟩⟩
    · rw [← pure_eq_ok.mp hstep]
      exact h.add (Entry.statement_wellFormed hhead)

theorem WellFormed.readLine {r r' : Reading} (h : r.WellFormed) {line : List Char × Nat}
    (hread : r.readLine line = .ok r') : r'.WellFormed := by
  unfold Reading.readLine at hread
  simp only [mapError_eq_ok, except_bind_eq_ok] at hread
  obtain ⟨pieces, -, hfold⟩ := hread
  have hstep : ∀ piece ∈ pieces, ∀ b b', b.WellFormed → Reading.step line.2 b piece = .ok b' →
      b'.WellFormed := fun _ _ _ _ hb hb' => hb.step hb'
  exact foldlM_invariant hstep h hfold

/-- **Any lines keep a reading well formed.** -/
theorem wellFormed_of_readLines {r r' : Reading} (h : r.WellFormed) {lines : List (List Char)}
    {first : Nat} (hread : r.readLines lines first = .ok r') : r'.WellFormed :=
  foldlM_invariant (fun _ _ _ _ hb hb' => hb.readLine hb') h hread

end Reading

/-- **What is read from a text is well formed.** -/
theorem Statement.wellFormed_of_parse {text : String} {statements : List Statement}
    (h : Statement.parse text = .ok statements) : ∀ s ∈ statements, s.WellFormed := by
  unfold Statement.parse at h
  obtain ⟨r, hr, hfinish⟩ := bind_eq_ok.mp h
  have hw := Reading.wellFormed_of_readLines Reading.wellFormed_start hr
  unfold Reading.finish at hfinish
  split at hfinish
  · exact Except.ok.inj hfinish ▸ hw.statements
  · simp at hfinish

end BoxDiagram
