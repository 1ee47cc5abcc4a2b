import BoxDiagram.Proofs.Name
import Mathlib.Data.List.Pairwise
import Mathlib.Data.String.Basic

/-!
# Spans: where the arrows of a text stand

The spans of a text are given in bytes of its UTF-8 form. They follow one another without overlap,
each spells the token of its arrow, and every token that occurs in the text begins within one of
them: so they are the leftmost ones, and none is left over in a gap. Where two tokens begin at one
place, they are `<->` and `<-`, and the span is that of `<->` (`spans_partition`). The texts of the
endpoints of a chain are the gaps, without the blanks around them (`splitChain?_eq_gaps`).

All this is proved along the cuts of a text (`cutInduction`), for spans that begin to count at any
number of bytes.
-/

namespace BoxDiagram

namespace Arrow

/-! ### Bytes -/

theorem byteLength_eq_utf8Len (cs : List Char) : byteLength cs = String.utf8Len cs := by
  induction cs with
  | nil => rfl
  | cons c cs ih => rw [String.utf8Len_cons, ← ih, Nat.add_comm]; rfl

@[simp] theorem byteLength_cons (c : Char) (cs : List Char) :
    byteLength (c :: cs) = c.utf8Size + byteLength cs := rfl

@[simp] theorem byteLength_append (cs ds : List Char) :
    byteLength (cs ++ ds) = byteLength cs + byteLength ds := by
  simp only [byteLength_eq_utf8Len, String.utf8Len_append]

theorem byteLength_pos {cs : List Char} (h : cs ≠ []) : 0 < byteLength cs := by
  rw [byteLength_eq_utf8Len, Nat.pos_iff_ne_zero, ne_eq, String.utf8Len_eq_zero]
  exact h

theorem byteLength_token_pos (a : Arrow) : 0 < byteLength a.token.toList :=
  byteLength_pos (toList_token_ne_nil a)

theorem extract_append (before cs after : List Char) :
    String.Pos.Raw.extract (String.ofList (before ++ cs ++ after)) ⟨byteLength before⟩
      ⟨byteLength before + byteLength cs⟩ = String.ofList cs := by
  simp only [byteLength_eq_utf8Len, String.extract_of_valid]

/-! ### Spans along the cuts -/

/-- The spans of a text in front of which there are `start` bytes. -/
def spansOf (start : Nat) (cs : List Char) : List Span := spansFrom start (cut cs).1 (cut cs).2

theorem spansOf_nil (start : Nat) : spansOf start [] = [] := by
  simp [spansOf, cut, spansFrom]

theorem spansOf_cons {c : Char} {r : List Char} (h : NoneStarts (c :: r)) (start : Nat) :
    spansOf start (c :: r) = spansOf (start + c.utf8Size) r := by
  unfold spansOf
  rw [cut_cons h]
  cases (cut r).2 with
  | nil => rfl
  | cons hop hops => simp only [spansFrom, byteLength_cons, Nat.add_assoc]

theorem spansOf_token {a : Arrow} {r : List Char} (h : a = .backward → r.head? ≠ some '>')
    (start : Nat) : spansOf start (a.token.toList ++ r) =
      ⟨start, start + byteLength a.token.toList, a⟩ ::
        spansOf (start + byteLength a.token.toList) r := by
  unfold spansOf
  rw [cut_token h]
  simp only [spansFrom, byteLength, List.foldr_nil, Nat.add_zero]

/-- **A span spells its token**; `<-` only where it does not go on to be `<->`. -/
theorem spelled_of_mem_spansOf {cs : List Char} {start : Nat} {p : Span}
    (h : p ∈ spansOf start cs) : ∃ before after, cs = before ++ p.arrow.token.toList ++ after ∧
      p.start = start + byteLength before ∧ p.stop = p.start + byteLength p.arrow.token.toList ∧
        (p.arrow = .backward → after.head? ≠ some '>') := by
  induction cs using cutInduction generalizing start with
  | nil => simp [spansOf_nil] at h
  | gap c r hnone ih =>
    rw [spansOf_cons hnone] at h
    obtain ⟨before, after, rfl, hstart, hstop, hback⟩ := ih h
    exact ⟨c :: before, after, rfl, by rw [hstart, byteLength_cons, Nat.add_assoc], hstop, hback⟩
  | token a r hr ih =>
    rw [spansOf_token hr] at h
    rcases List.mem_cons.mp h with rfl | h
    · exact ⟨[], r, rfl, rfl, rfl, hr⟩
    · obtain ⟨before, after, rfl, hstart, hstop, hback⟩ := ih h
      exact ⟨a.token.toList ++ before, after, by simp,
        by rw [hstart, byteLength_append, Nat.add_assoc], hstop, hback⟩

theorem start_le_of_mem_spansOf {cs : List Char} {start : Nat} {p : Span}
    (h : p ∈ spansOf start cs) : start ≤ p.start := by
  obtain ⟨before, -, -, hstart, -⟩ := spelled_of_mem_spansOf h
  omega

/-- **The spans follow one another without overlap.** -/
theorem pairwise_spansOf (start : Nat) (cs : List Char) :
    (spansOf start cs).Pairwise fun p q => p.stop ≤ q.start := by
  induction cs using cutInduction generalizing start with
  | nil => simp [spansOf_nil]
  | gap c r hnone ih => rw [spansOf_cons hnone]; exact ih _
  | token a r hr ih =>
    rw [spansOf_token hr, List.pairwise_cons]
    exact ⟨fun q hq => start_le_of_mem_spansOf hq, ih _⟩

/-- **Every token of the text begins within a span.** -/
theorem exists_span_of_token {cs before after : List Char} {a : Arrow} (start : Nat)
    (h : cs = before ++ a.token.toList ++ after) : ∃ p ∈ spansOf start cs,
      p.start ≤ start + byteLength before ∧ start + byteLength before < p.stop := by
  induction cs using cutInduction generalizing start before with
  | nil =>
    obtain ⟨⟨-, htoken⟩, -⟩ : (before = [] ∧ a.token.toList = []) ∧ after = [] := by
      simpa only [List.append_eq_nil_iff] using h.symm
    exact absurd htoken (toList_token_ne_nil a)
  | gap c r hnone ih =>
    rw [spansOf_cons hnone]
    cases before with
    | nil => exact absurd ⟨after, h.symm⟩ (hnone a)
    | cons d before =>
      obtain ⟨rfl, hr⟩ := List.cons.inj h
      obtain ⟨p, hp, hstart, hstop⟩ := ih (start + c.utf8Size) hr
      rw [byteLength_cons, ← Nat.add_assoc]
      exact ⟨p, hp, hstart, hstop⟩
  | token b r hr ih =>
    rw [spansOf_token hr]
    have hbefore : before <+: b.token.toList ++ r := ⟨a.token.toList ++ after, by rw [h]; simp⟩
    by_cases hb : b.token.toList <+: before
    · -- the token begins behind the one that is cut off
      obtain ⟨more, rfl⟩ := hb
      have hrest : r = more ++ a.token.toList ++ after := by simpa using h
      obtain ⟨p, hp, hstart, hstop⟩ := ih (start + byteLength b.token.toList) hrest
      rw [byteLength_append, ← Nat.add_assoc]
      exact ⟨p, List.mem_cons_of_mem _ hp, hstart, hstop⟩
    · -- the token begins within the one that is cut off
      obtain ⟨more, hmore⟩ : before <+: b.token.toList :=
        (List.prefix_or_prefix_of_prefix hbefore (List.prefix_append _ r)).resolve_right hb
      have hne : more ≠ [] := by
        rintro rfl
        exact hb ⟨[], by rw [← hmore]; simp⟩
      have hpos : 0 < byteLength more := byteLength_pos hne
      have hlength : byteLength b.token.toList = byteLength before + byteLength more := by
        rw [← hmore, byteLength_append]
      refine ⟨_, List.mem_cons_self, Nat.le_add_right start _, ?_⟩
      show start + byteLength before < start + byteLength b.token.toList
      omega

/-! ### The places of tokens -/

/-- The token of the arrow stands in the text at a place, which is given in bytes. -/
def StandsAt (a : Arrow) (s : String) (place : Nat) : Prop :=
  ∃ before after, s.toList = before ++ a.token.toList ++ after ∧ byteLength before = place

theorem isValid_of_append {s : String} {before after : List Char} (h : s.toList = before ++ after) :
    String.Pos.Raw.IsValid s ⟨byteLength before⟩ := by
  refine String.Pos.Raw.isValid_iff_exists_append.mpr
    ⟨String.ofList before, String.ofList after, ?_, ?_⟩
  · rw [← String.ofList_append, ← h, String.ofList_toList]
  · rw [String.rawEndPos_ofList, byteLength_eq_utf8Len]

theorem eq_of_byteLength_eq {before before' cs : List Char} (h : before <+: cs) (h' : before' <+: cs)
    (hlength : byteLength before = byteLength before') : before = before' := by
  have hshort : ∀ {ds es : List Char}, ds <+: es → byteLength ds = byteLength es → ds = es := by
    rintro ds es ⟨more, rfl⟩ hlen
    by_contra hne
    have hpos : 0 < byteLength more := byteLength_pos fun hnil => hne (by rw [hnil, List.append_nil])
    rw [byteLength_append] at hlen
    omega
  rcases List.prefix_or_prefix_of_prefix h h' with hp | hp
  · exact hshort hp hlength
  · exact (hshort hp hlength.symm).symm

/-- **The spans of a text**: they follow one another without overlap, begin and end between
characters and spell their tokens. Where another token begins at the place of a span, it is `<-` in
`<->`. Every token that stands in the text begins within a span, so none begins in a gap; and if it
begins in front of a span, it does so within an earlier one, so each span is the leftmost one behind
those before it. -/
structure IsPartition (s : String) (ps : List Span) : Prop where
  ascending : ps.Pairwise fun p q => p.stop ≤ q.start
  onBoundaries : ∀ p ∈ ps, p.start < p.stop ∧ String.Pos.Raw.IsValid s ⟨p.start⟩ ∧
    String.Pos.Raw.IsValid s ⟨p.stop⟩
  spelled : ∀ p ∈ ps, String.Pos.Raw.extract s ⟨p.start⟩ ⟨p.stop⟩ = p.arrow.token
  preferred : ∀ p ∈ ps, ∀ a, StandsAt a s p.start → a = p.arrow ∨ a = .backward ∧ p.arrow = .both
  covered : ∀ a place, StandsAt a s place → ∃ p ∈ ps, p.start ≤ place ∧ place < p.stop
  leftmost : ∀ p ∈ ps, ∀ a place, StandsAt a s place → place < p.start →
    ∃ q ∈ ps, q.stop ≤ p.start ∧ q.start ≤ place ∧ place < q.stop

section Span

variable {s : String} {p : Span} (h : p ∈ spans s)
include h

/-- What stands before a span, and what after it. -/
theorem exists_around : ∃ before after, s.toList = before ++ p.arrow.token.toList ++ after ∧
    p.start = byteLength before ∧ p.stop = byteLength (before ++ p.arrow.token.toList) ∧
      (p.arrow = .backward → after.head? ≠ some '>') := by
  obtain ⟨before, after, hs, hstart, hstop, hback⟩ := spelled_of_mem_spansOf h
  rw [Nat.zero_add] at hstart
  exact ⟨before, after, hs, hstart, by rw [hstop, hstart, byteLength_append], hback⟩

theorem isValid_span : p.start < p.stop ∧ String.Pos.Raw.IsValid s ⟨p.start⟩ ∧
    String.Pos.Raw.IsValid s ⟨p.stop⟩ := by
  obtain ⟨before, after, hs, hstart, hstop, -⟩ := exists_around h
  have hpos : 0 < byteLength p.arrow.token.toList := byteLength_token_pos p.arrow
  refine ⟨?_, hstart ▸ isValid_of_append (hs.trans (List.append_assoc ..)),
    hstop ▸ isValid_of_append hs⟩
  rw [hstart, hstop, byteLength_append]
  omega

theorem extract_span : String.Pos.Raw.extract s ⟨p.start⟩ ⟨p.stop⟩ = p.arrow.token := by
  obtain ⟨before, after, hs, hstart, hstop, -⟩ := exists_around h
  have hextract := extract_append before p.arrow.token.toList after
  rw [← hs, String.ofList_toList, String.ofList_toList] at hextract
  rw [hstart, hstop, byteLength_append, hextract]

theorem preferred_span {a : Arrow} (ha : StandsAt a s p.start) :
    a = p.arrow ∨ a = .backward ∧ p.arrow = .both := by
  obtain ⟨before, after, hs, hstart, -, hback⟩ := exists_around h
  obtain ⟨before', after', hs', hplace⟩ := ha
  rw [List.append_assoc] at hs hs'
  obtain rfl : before' = before :=
    eq_of_byteLength_eq ⟨_, hs'.symm⟩ ⟨_, hs.symm⟩ (hplace.trans hstart)
  have htokens : p.arrow.token.toList ++ after = a.token.toList ++ after' :=
    List.append_cancel_left (hs.symm.trans hs')
  rcases List.prefix_or_prefix_of_prefix (List.prefix_append a.token.toList after')
    ⟨after, htokens⟩ with hp | hp
  · exact eq_or_of_token_isPrefix hp
  · rcases eq_or_of_token_isPrefix hp with heq | ⟨hbackward, rfl⟩
    · exact Or.inl heq.symm
    · -- `<-` was cut off, although it goes on to be `<->`
      rw [hbackward] at htokens
      obtain rfl : after = '>' :: after' := by simpa [token] using htokens
      exact absurd rfl (hback hbackward)

end Span

theorem exists_span_of_standsAt {s : String} {a : Arrow} {place : Nat} (h : StandsAt a s place) :
    ∃ p ∈ spans s, p.start ≤ place ∧ place < p.stop := by
  obtain ⟨before, after, hs, rfl⟩ := h
  obtain ⟨p, hp, hstart, hstop⟩ := exists_span_of_token 0 hs
  rw [Nat.zero_add] at hstart hstop
  exact ⟨p, hp, hstart, hstop⟩

theorem stop_le_or_stop_le {s : String} {p q : Span} (hp : p ∈ spans s) (hq : q ∈ spans s)
    (hne : p ≠ q) : p.stop ≤ q.start ∨ q.stop ≤ p.start := by
  have hapart : (spans s).Pairwise fun p q => p.stop ≤ q.start ∨ q.stop ≤ p.start :=
    (pairwise_spansOf 0 s.toList).imp Or.inl
  have hsymm : Std.Symm fun p q : Span => p.stop ≤ q.start ∨ q.stop ≤ p.start :=
    ⟨fun _ _ => Or.symm⟩
  exact hapart.forall hp hq hne

theorem isPartition_spans (s : String) : IsPartition s (spans s) where
  ascending := pairwise_spansOf 0 s.toList
  onBoundaries _ hp := isValid_span hp
  spelled _ hp := extract_span hp
  preferred _ hp _ ha := preferred_span hp ha
  covered _ _ ha := exists_span_of_standsAt ha
  leftmost p hp a place ha hlt := by
    obtain ⟨q, hq, hstart, hstop⟩ := exists_span_of_standsAt ha
    have hne : p ≠ q := by
      rintro rfl
      omega
    have hpos : p.start < p.stop := (isValid_span hp).1
    have horder : q.stop ≤ p.start := by
      rcases stop_le_or_stop_le hp hq hne with hle | hle <;> omega
    exact ⟨q, hq, horder, hstart, hstop⟩

/-! ### Gaps -/

/-- The texts before, between and after spans, the first one from a place on. -/
def gapsFrom (s : String) (start : Nat) : List Span → List String
  | [] => [String.Pos.Raw.extract s ⟨start⟩ s.rawEndPos]
  | p :: ps => String.Pos.Raw.extract s ⟨start⟩ ⟨p.start⟩ :: gapsFrom s p.stop ps

/-- The texts before, between and after the arrows. -/
def gaps (s : String) : List String := gapsFrom s 0 (spans s)

theorem length_gapsFrom (s : String) (start : Nat) (ps : List Span) :
    (gapsFrom s start ps).length = ps.length + 1 := by
  induction ps generalizing start with
  | nil => rfl
  | cons p ps ih => rw [gapsFrom, List.length_cons, ih, List.length_cons]

theorem map_arrow_spansFrom (start : Nat) (gap : List Char) (hops : List (Arrow × List Char)) :
    (spansFrom start gap hops).map (·.arrow) = hops.map (·.1) := by
  induction hops generalizing start gap with
  | nil => rfl
  | cons hop hops ih => rw [spansFrom, List.map_cons, List.map_cons, ih]

theorem gapsFrom_spansFrom (before gap : List Char) (hops : List (Arrow × List Char)) :
    gapsFrom (String.ofList (before ++ (gap ++ hops.flatMap fun hop => hop.1.token.toList ++ hop.2)))
      (byteLength before) (spansFrom (byteLength before) gap hops) =
        String.ofList gap :: hops.map fun hop => String.ofList hop.2 := by
  induction hops generalizing before gap with
  | nil =>
    have hextract := extract_append before gap []
    rw [← byteLength_append, List.append_nil] at hextract
    rw [spansFrom, gapsFrom, List.flatMap_nil, List.append_nil, String.rawEndPos_ofList,
      ← byteLength_eq_utf8Len, hextract, List.map_nil]
  | cons hop hops ih =>
    obtain ⟨arrow, next⟩ := hop
    have hextract := extract_append before gap
      (arrow.token.toList ++ (next ++ hops.flatMap fun hop => hop.1.token.toList ++ hop.2))
    have hrest := ih (before ++ gap ++ arrow.token.toList) next
    rw [byteLength_append, byteLength_append] at hrest
    simp only [List.append_assoc] at hextract hrest
    simp only [spansFrom, gapsFrom, List.flatMap_cons, List.map_cons, List.append_assoc, hextract,
      hrest]

theorem gaps_eq (s : String) : gaps s =
    String.ofList (cut s.toList).1 :: (cut s.toList).2.map fun hop => String.ofList hop.2 := by
  have hgaps := gapsFrom_spansFrom [] (cut s.toList).1 (cut s.toList).2
  rw [List.nil_append, append_cut, String.ofList_toList] at hgaps
  exact hgaps

/-- **No arrow occurs in a gap.** -/
theorem free_of_mem_gaps {s gap : String} (h : gap ∈ gaps s) : Free gap.toList := by
  obtain ⟨hfirst, hrest⟩ := free_of_mem_cut s.toList
  rw [gaps_eq] at h
  rcases List.mem_cons.mp h with rfl | h
  · rwa [String.toList_ofList]
  · obtain ⟨hop, hhop, rfl⟩ := List.mem_map.mp h
    rw [String.toList_ofList]
    exact hrest hop hhop

end Arrow

namespace Key

open Arrow Text

/-- **The endpoints of a chain are its gaps**, without the blanks around them. -/
theorem splitChain?_eq_gaps (s : String) : splitChain? s.toList =
    if spans s = [] then none
    else some ((gaps s).map fun gap => trim gap.toList, (spans s).map (·.arrow)) := by
  have hnil : spans s = [] ↔ (cut s.toList).2 = [] := by
    rw [← List.map_eq_nil_iff (f := (·.arrow)), spans, map_arrow_spansFrom, List.map_eq_nil_iff]
  have harrows : (spans s).map (·.arrow) = (cut s.toList).2.map (·.1) := map_arrow_spansFrom ..
  rw [gaps_eq, harrows]
  unfold splitChain?
  split
  · next first heq => rw [if_pos (hnil.mpr (by rw [heq]))]
  · next first hops hne heq =>
    rw [if_neg fun h => hne (by simpa [heq] using hnil.mp h), heq]
    simp [Function.comp_def]

end Key

namespace Arrow

open Text

/-- **Finding arrows partitions a text.** The spans follow one another between characters, spell their
tokens, are the leftmost ones and prefer `<->` to `<-`. No arrow occurs in a gap. There is one gap
more than there are spans, and the endpoints of a chain are the gaps without the blanks around
them. -/
theorem spans_partition (s : String) : IsPartition s (spans s) ∧
    (gaps s).length = (spans s).length + 1 ∧ (∀ gap ∈ gaps s, Free gap.toList) ∧
      Key.splitChain? s.toList = (if spans s = [] then none else
        some ((gaps s).map fun gap => trim gap.toList, (spans s).map (·.arrow))) ∧
        ∀ gap ∈ gaps s, Free (trim gap.toList) :=
  ⟨isPartition_spans s, length_gapsFrom s 0 (spans s), fun _ h => free_of_mem_gaps h,
    Key.splitChain?_eq_gaps s, fun _ h => free_trim_iff.mpr (free_of_mem_gaps h)⟩

/-- After a name of two bytes comes `<->`; of the three dashes the first two are an arrow, and the
third one is left to the gap. -/
theorem spans_partition_dashes : spans "é <-> b---c" = [⟨3, 6, .both⟩, ⟨8, 10, .plain⟩] ∧
    "-c" ∈ gaps "é <-> b---c" ∧ Free "-c".toList ∧ Free (trim "-c".toList) := by
  have hgap : "-c" ∈ gaps "é <-> b---c" := by decide
  obtain ⟨-, -, hfree, -, htrim⟩ := spans_partition "é <-> b---c"
  exact ⟨by decide, hgap, hfree "-c" hgap, htrim "-c" hgap⟩

end Arrow

end BoxDiagram
