import BoxDiagram.Proofs.Statement.WellFormed
import BoxDiagram.Statement.Printer

/-!
# Heads: written chains are cut where they were joined

The written form of a well-formed head is solid at both ends and holds no forbidden character. A
chain of endpoints is cut back into the endpoints and the arrows between them (`cut_renderChain`),
since the endpoints are free of arrows and each arrow stands between blanks. A head is read back
from its written form (`Head.read_render`).
-/

namespace BoxDiagram

open Text

namespace Head

/-! ### Chains -/

theorem toList_renderChain_cons (e f : String) (rest : List String) (a : Arrow)
    (arrows : List Arrow) : (renderChain (e :: f :: rest) (a :: arrows)).toList =
      e.toList ++ ' ' :: (a.token.toList ++ ' ' :: (renderChain (f :: rest) arrows).toList) := by
  rw [renderChain]
  · simp
  · simp

theorem renderChain_singleton (e : String) : renderChain [e] [] = e := by
  rw [renderChain]
  simp

section Chain

variable {arrows : List Arrow} {endpoints : List (List String)}

theorem render_connection : ∀ {arrows : List Arrow} {endpoints : List (List String)},
    endpoints.length = arrows.length + 1 → (∀ e ∈ endpoints, IsPath e) →
      OpensSolid (renderChain (endpoints.map Dotted.join) arrows).toList ∧
      ClosesSolid (renderChain (endpoints.map Dotted.join) arrows).toList ∧
      ∀ c ∈ (renderChain (endpoints.map Dotted.join) arrows).toList, c ∉ Key.forbidden
  | [], [e], _, h => by
    rw [List.map_singleton, renderChain_singleton]
    have he := h e (by simp)
    exact ⟨he.opensSolid, he.closesSolid, he.allowed⟩
  | a :: arrows, e :: f :: rest, hlen, h => by
    have he := h e (by simp)
    have hlen' : (f :: rest).length = arrows.length + 1 := by simpa using hlen
    obtain ⟨-, hc, hall⟩ := render_connection hlen' fun e he => h e (List.mem_cons_of_mem _ he)
    rw [List.map_cons, List.map_cons, toList_renderChain_cons, ← List.map_cons]
    refine ⟨he.opensSolid.append _, ?_, ?_⟩
    · exact (((hc.append [' ']).append a.token.toList).append [' ']).append _
    · have htoken : ∀ c ∈ a.token.toList, c ∉ Key.forbidden := by
        intro c hc
        rcases Arrow.mem_token hc with rfl | rfl | rfl <;> decide
      simp only [List.forall_mem_append, List.forall_mem_cons]
      exact ⟨he.allowed, by decide, htoken, by decide, hall⟩

/-- **Chains are cut where they were joined.** -/
theorem cut_renderChain : ∀ {arrows : List Arrow} {endpoints : List (List String)},
    endpoints.length = arrows.length + 1 → (∀ e ∈ endpoints, IsPath e) →
      let p := Arrow.cut (renderChain (endpoints.map Dotted.join) arrows).toList
      trim p.1 :: p.2.map (trim ·.2) = endpoints.map (fun e => (Dotted.join e).toList) ∧
        p.2.map (·.1) = arrows
  | [], [e], _, h => by
    have he := h e (by simp)
    rw [List.map_singleton, renderChain_singleton, Arrow.cut_of_free he.free]
    simp [he.trim_join]
  | a :: arrows, e :: f :: rest, hlen, h => by
    have he := h e (by simp)
    have hlen' : (f :: rest).length = arrows.length + 1 := by simpa using hlen
    obtain ⟨ih, ih'⟩ := cut_renderChain hlen' fun e he => h e (List.mem_cons_of_mem _ he)
    rw [List.map_cons, List.map_cons, toList_renderChain_cons, ← List.map_cons,
      Arrow.cut_append_token he.free]
    -- the blanks around the arrow go to the ends of the gaps, where trimming drops them
    have hleft : trim ((Dotted.join e).toList ++ [' ']) = (Dotted.join e).toList := by
      rw [trim_concat (by decide), he.trim_join]
    have hright : ∀ cs, trim (' ' :: cs) = trim cs := trim_cons_of_blank (by decide)
    simp only [List.map_cons, hleft, hright] at ih ih' ⊢
    rw [ih, ih']
    exact ⟨rfl, rfl⟩

theorem splitChain?_renderChain (hlen : endpoints.length = arrows.length + 1)
    (h : ∀ e ∈ endpoints, IsPath e) (hne : arrows ≠ []) :
    Key.splitChain? (renderChain (endpoints.map Dotted.join) arrows).toList =
      some (endpoints.map (fun e => (Dotted.join e).toList), arrows) := by
  obtain ⟨hpaths, harrows⟩ := cut_renderChain hlen h
  unfold Key.splitChain?
  split
  · next heq =>
    rw [heq] at harrows
    exact absurd harrows.symm hne
  · next heq =>
    rw [heq] at hpaths harrows
    rw [hpaths, harrows]

end Chain

/-! ### Written heads -/

section Written

variable {head : Head} (h : head.WellFormed)
include h

theorem WellFormed.render : OpensSolid head.render.toList ∧ ClosesSolid head.render.toList ∧
    ∀ c ∈ head.render.toList, c ∉ Key.forbidden := by
  cases head with
  | declaration path =>
    have hp : IsPath path := h
    exact ⟨hp.opensSolid, hp.closesSolid, hp.allowed⟩
  | connection endpoints arrows => exact render_connection h.2.1 h.2.2

/-- **A head is read back** from its written form. -/
theorem read_render (piece : List Char) {cs : List Char} (hcs : trim cs = head.render.toList) :
    read piece cs = .ok head := by
  obtain ⟨hopens, -, -⟩ := h.render
  have hne := hopens.ne_nil
  unfold read
  rw [hcs]
  dsimp only
  rw [if_neg hne]
  cases head with
  | declaration path =>
    have hp : IsPath path := h
    have hsplit : Key.splitChain? (Head.declaration path).render.toList = none :=
      Key.splitChain?_eq_none_iff.mpr hp.free
    rw [hsplit]
    simp only [map_eq_ok, mapError_eq_ok]
    exact ⟨path, Key.readPath_join hp hp.trim_join, rfl⟩
  | connection endpoints arrows =>
    obtain ⟨hne, hlen, hall⟩ := h
    rw [show Key.splitChain? (Head.connection endpoints arrows).render.toList = _ from
      splitChain?_renderChain hlen hall hne]
    simp only [bind_eq_ok, pure_eq_ok]
    refine ⟨endpoints, mapM_eq_ok_iff.mpr ?_, rfl⟩
    rw [List.forall₂_map_left_iff, List.forall₂_same]
    intro e he
    have hread : Key.readPath (Dotted.join e).toList = .ok e :=
      Key.readPath_join (hall e he) (hall e he).trim_join
    exact mapError_eq_ok.mpr hread

end Written

end Head

end BoxDiagram
