import BoxDiagram.Proofs.Text
import BoxDiagram.Statement.Entry

/-!
# Quotes: scanning over values, and reading them back

Only a quote leads a scan out of quotes or into them (`after_eq_outside_iff`). A text is *clear* of
a mark if the mark does not occur in it outside quotes; scanning for the mark then passes over the
text, and a text is broken at the first mark in front of which it is clear
(`breakOutside?_eq_some_iff`). Whatever a value holds, its written form leaves a scan where it
entered, outside quotes, and is clear of every mark that makes a value need quotes (`after_quote`,
`clear_quote`), and the value is read back from it (`read_quote`).
-/

namespace BoxDiagram

open Text

namespace QuoteState

/-- Outside quotes the mark does not occur in the text. -/
def Clear (mark : Char) : QuoteState → List Char → Prop
  | _, [] => True
  | q, c :: rest => ¬ (q = outside ∧ c = mark) ∧ Clear mark (q.next c) rest

theorem after_append (q : QuoteState) (cs ds : List Char) :
    q.after (cs ++ ds) = (q.after cs).after ds := List.foldl_append

theorem after_cons (q : QuoteState) (c : Char) (cs : List Char) :
    q.after (c :: cs) = (q.next c).after cs := rfl

theorem clear_append {mark : Char} : ∀ {q : QuoteState} {cs ds : List Char},
    Clear mark q (cs ++ ds) ↔ Clear mark q cs ∧ Clear mark (q.after cs) ds
  | q, [], ds => by simp [Clear, after]
  | q, c :: cs, ds => by
    rw [List.cons_append, Clear, Clear, clear_append, after_cons, and_assoc]

theorem clear_of_notMem {mark : Char} : ∀ {q : QuoteState} {cs : List Char}, mark ∉ cs →
    Clear mark q cs
  | _, [], _ => trivial
  | q, c :: cs, h => by
    obtain ⟨hc, hcs⟩ := not_or.mp (fun hm => h (List.mem_cons.mpr hm))
    exact ⟨fun ⟨_, he⟩ => hc he.symm, clear_of_notMem hcs⟩

theorem next_eq_outside_iff {q : QuoteState} {c : Char} (hc : c ≠ '"') :
    q.next c = outside ↔ q = outside := by
  cases q with
  | outside => simp [next, hc]
  | inside => simp only [next, if_neg hc]; split_ifs <;> simp
  | escaped => simp [next]

/-- **A text without quotes keeps a scan outside of them, or inside.** -/
theorem after_eq_outside_iff {cs : List Char} (h : '"' ∉ cs) {q : QuoteState} :
    q.after cs = outside ↔ q = outside := by
  induction cs generalizing q with
  | nil => rfl
  | cons c cs ih =>
    obtain ⟨hc, hcs⟩ := not_or.mp (fun hm => h (List.mem_cons.mpr hm))
    rw [after_cons, ih hcs, next_eq_outside_iff (Ne.symm hc)]

theorem after_outside {cs : List Char} (h : '"' ∉ cs) : outside.after cs = outside :=
  (after_eq_outside_iff h).mpr rfl

theorem clear_iff {mark : Char} : ∀ {q : QuoteState} {cs : List Char},
    Clear mark q cs ↔ ∀ before after, cs = before ++ mark :: after → q.after before ≠ outside
  | q, [] => by simp [Clear]
  | q, c :: cs => by
    rw [Clear, clear_iff]
    constructor
    · rintro ⟨hc, hcs⟩ before after h
      cases before with
      | nil =>
        obtain ⟨rfl, rfl⟩ := List.cons.inj h
        exact fun hq => hc ⟨hq, rfl⟩
      | cons d before =>
        obtain ⟨rfl, rfl⟩ := List.cons.inj h
        exact hcs before after rfl
    · intro h
      refine ⟨fun ⟨hq, hc⟩ => h [] cs (by rw [hc]; rfl) hq, fun before after hcs => ?_⟩
      exact h (c :: before) after (by rw [hcs]; rfl)

theorem splitOutside_of_clear {mark : Char} : ∀ {q : QuoteState} {cs : List Char},
    Clear mark q cs → splitOutside mark q cs = [cs]
  | _, [], _ => rfl
  | q, c :: cs, h => by
    rw [splitOutside, if_neg h.1, splitOutside_of_clear h.2]

theorem splitOutside_append {mark : Char} : ∀ {q : QuoteState} {cs : List Char},
    Clear mark q cs → q.after cs = outside → ∀ rest,
      splitOutside mark q (cs ++ mark :: rest) = cs :: splitOutside mark outside rest
  | q, [], _, ha, rest => by
    rw [show q = outside from ha, List.nil_append, splitOutside, if_pos ⟨rfl, rfl⟩]
  | q, c :: cs, h, ha, rest => by
    rw [List.cons_append, splitOutside, if_neg h.1, splitOutside_append h.2 ha rest]

theorem breakOutside?_eq_none_iff {mark : Char} : ∀ {q : QuoteState} {cs : List Char},
    breakOutside? mark q cs = none ↔ Clear mark q cs
  | _, [] => by simp [breakOutside?, Clear]
  | q, c :: cs => by
    rw [breakOutside?, Clear]
    split_ifs with h
    · simp [h]
    · rw [Option.map_eq_none_iff, breakOutside?_eq_none_iff, and_iff_right h]

theorem breakOutside?_of_clear {mark : Char} {q : QuoteState} {cs : List Char}
    (h : Clear mark q cs) : breakOutside? mark q cs = none := breakOutside?_eq_none_iff.mpr h

/-- **The search for a mark goes on in the state that a clear text leaves.** -/
theorem breakOutside?_clear_append {mark : Char} : ∀ {q : QuoteState} {cs : List Char},
    Clear mark q cs → ∀ ds, breakOutside? mark q (cs ++ ds) =
      (breakOutside? mark (q.after cs) ds).map fun (before, after) => (cs ++ before, after)
  | q, [], _, ds => by
    simp [after]
  | q, c :: cs, h, ds => by
    rw [List.cons_append, breakOutside?, if_neg h.1, breakOutside?_clear_append h.2, Option.map_map]
    rfl

theorem breakOutside?_append {mark : Char} {q : QuoteState} {cs : List Char} (h : Clear mark q cs)
    (ha : q.after cs = outside) (rest : List Char) :
    breakOutside? mark q (cs ++ mark :: rest) = some (cs, rest) := by
  rw [breakOutside?_clear_append h, ha, breakOutside?, if_pos ⟨rfl, rfl⟩]
  simp

/-- **A text is broken at the first mark outside quotes**, and nowhere else. -/
theorem breakOutside?_eq_some_iff {mark : Char} {q : QuoteState} {cs before rest : List Char} :
    breakOutside? mark q cs = some (before, rest) ↔
      cs = before ++ mark :: rest ∧ q.after before = outside ∧ Clear mark q before := by
  constructor
  · intro h
    induction cs generalizing q before with
    | nil => cases h
    | cons c cs ih =>
      rw [breakOutside?] at h
      split_ifs at h with hc
      · obtain ⟨rfl, rfl⟩ := Prod.mk.inj (Option.some.inj h)
        exact ⟨by rw [hc.2]; rfl, hc.1, trivial⟩
      · obtain ⟨⟨before', rest'⟩, hbreak, heq⟩ := Option.map_eq_some_iff.mp h
        obtain ⟨rfl, rfl⟩ := Prod.mk.inj heq
        obtain ⟨rfl, hafter, hclear⟩ := ih hbreak
        exact ⟨rfl, hafter, hc, hclear⟩
  · rintro ⟨rfl, hafter, hclear⟩
    exact breakOutside?_append hclear hafter rest

end QuoteState

namespace Value

open QuoteState

/-! ### Escaped characters -/

theorem after_escapeChar (c : Char) : inside.after (escapeChar c) = inside := by
  unfold escapeChar
  split_ifs with h₁ h₂ h₃ h₄
  · rfl
  · rfl
  · rfl
  · rfl
  · simp [after, next, h₁, h₂]

theorem clear_escapeChar (mark c : Char) : Clear mark inside (escapeChar c) := by
  unfold escapeChar
  split_ifs with h₁ h₂ h₃ h₄ <;> simp [Clear, next]

theorem after_escape : ∀ cs : List Char, inside.after (cs.flatMap escapeChar) = inside
  | [] => rfl
  | c :: cs => by rw [List.flatMap_cons, after_append, after_escapeChar, after_escape cs]

theorem clear_escape (mark : Char) : ∀ cs : List Char, Clear mark inside (cs.flatMap escapeChar)
  | [] => trivial
  | c :: cs => by
    rw [List.flatMap_cons, clear_append, after_escapeChar]
    exact ⟨clear_escapeChar mark c, clear_escape mark cs⟩

theorem notMem_escapeChar (c : Char) : '\n' ∉ escapeChar c := by
  unfold escapeChar
  split_ifs with h₁ h₂ h₃ h₄
  · decide
  · decide
  · decide
  · decide
  · simpa using Ne.symm h₃

/-- An escaped character is read back, in front of what can be read. -/
theorem readQuoted?_escapeChar (c : Char) {rest value left : List Char}
    (h : readQuoted? rest = some (value, left)) :
    readQuoted? (escapeChar c ++ rest) = some (c :: value, left) := by
  unfold escapeChar
  split_ifs with h₁ h₂ h₃ h₄
  · simp [readQuoted?, h, unescapeChar, h₁]
  · simp [readQuoted?, h, unescapeChar, h₂]
  · simp [readQuoted?, h, unescapeChar, h₃]
  · simp [readQuoted?, h, unescapeChar, h₄]
  · rw [List.singleton_append, readQuoted?, h]
    · rfl
    · exact h₁
    · exact fun he _ => h₂ he
    · exact fun _ _ he _ => h₂ he

/-- **Escaped characters are read back.** -/
theorem readQuoted?_escape : ∀ cs rest : List Char,
    readQuoted? (cs.flatMap escapeChar ++ '"' :: rest) = some (cs, rest)
  | [], rest => by simp [readQuoted?]
  | c :: cs, rest => by
    rw [List.flatMap_cons, List.append_assoc]
    exact readQuoted?_escapeChar c (readQuoted?_escape cs rest)

/-! ### Written values -/

/-- A value that is written as it stands: not empty, without blanks around it, without
triggers. -/
theorem of_not_needsQuotes {cs : List Char} (h : needsQuotes cs = false) :
    (OpensSolid cs ∧ ClosesSolid cs) ∧ ∀ c ∈ cs, c ∉ triggers := by
  unfold needsQuotes at h
  simp only [Bool.or_eq_false_iff, decide_eq_false_iff_not, not_not, List.any_eq_false,
    List.contains_iff_mem] at h
  exact ⟨(trim_eq_self_iff.mp (by simpa using h.1.2)).resolve_left h.1.1, h.2⟩

theorem toList_quote (s : String) :
    ((quote s).toList = s.toList ∧ needsQuotes s.toList = false) ∨
      (quote s).toList = '"' :: (s.toList.flatMap escapeChar ++ ['"']) := by
  unfold quote
  split_ifs with h
  · right
    rw [String.toList_ofList]
    rfl
  · left
    exact ⟨rfl, by simpa using h⟩

theorem opensSolid_quote (s : String) : OpensSolid (quote s).toList := by
  rcases toList_quote s with ⟨hq, hn⟩ | hq <;> rw [hq]
  · exact (of_not_needsQuotes hn).1.1
  · exact opensSolid_cons.mpr (by decide)

theorem closesSolid_quote (s : String) : ClosesSolid (quote s).toList := by
  rcases toList_quote s with ⟨hq, hn⟩ | hq <;> rw [hq]
  · exact (of_not_needsQuotes hn).1.2
  · rw [← List.cons_append]
    exact closesSolid_concat.mpr (by decide)

theorem after_quote (s : String) : outside.after (quote s).toList = outside := by
  rcases toList_quote s with ⟨hq, hn⟩ | hq <;> rw [hq]
  · have hquote : '"' ∉ s.toList := fun h => (of_not_needsQuotes hn).2 _ h (by decide)
    exact after_outside hquote
  · rw [after_cons, show outside.next '"' = inside from rfl, after_append, after_escape]
    rfl

/-- **Written values are clear of all marks** that make a value need quotes. -/
theorem clear_quote {mark : Char} (hm : mark ∈ triggers) (hne : mark ≠ '"') (s : String) :
    Clear mark outside (quote s).toList := by
  rcases toList_quote s with ⟨hq, hn⟩ | hq <;> rw [hq]
  · have hmark : mark ∉ s.toList := fun h => (of_not_needsQuotes hn).2 _ h hm
    exact clear_of_notMem hmark
  · refine ⟨fun h => hne h.2.symm, ?_⟩
    rw [show outside.next '"' = inside from rfl, clear_append, after_escape]
    exact ⟨clear_escape mark _, fun h => by simp at h, trivial⟩

theorem notMem_quote (s : String) : '\n' ∉ (quote s).toList := by
  rcases toList_quote s with ⟨hq, hn⟩ | hq <;> rw [hq]
  · have hmem := (of_not_needsQuotes hn).2
    exact fun h => hmem _ h (by decide)
  · simp only [List.mem_cons, List.mem_append, List.mem_flatMap, not_or, not_exists, not_and]
    exact ⟨by decide, fun c _ => notMem_escapeChar c, by decide, by simp⟩

theorem getLast?_quote (s : String) :
    (quote s).toList.getLast? ≠ some '\x7b' ∧ (quote s).toList.getLast? ≠ some '\x7d' := by
  rcases toList_quote s with ⟨hq, hn⟩ | hq <;> rw [hq]
  · have hmem := (of_not_needsQuotes hn).2
    exact ⟨fun h => hmem _ (List.mem_of_getLast? h) (by decide),
      fun h => hmem _ (List.mem_of_getLast? h) (by decide)⟩
  · rw [← List.cons_append, List.getLast?_concat]
    decide

/-- **Written values are read back**, with a blank in front. -/
theorem read_quote (s : String) : read (' ' :: (quote s).toList) = .ok (some s) := by
  have htrim : trim (' ' :: (quote s).toList) = (quote s).toList := by
    rw [trim_cons_of_blank (by decide)]
    exact trim_eq_self (opensSolid_quote s) (closesSolid_quote s)
  unfold read
  rw [htrim]
  rcases toList_quote s with ⟨hq, hn⟩ | hq <;> rw [hq]
  · obtain ⟨⟨ho, -⟩, hmem⟩ := of_not_needsQuotes hn
    split
    · next h => exact absurd h ho.ne_nil
    · next rest h => exact absurd (by decide) (hmem '"' (by rw [h]; simp))
    · simp
  · simp [readQuoted?_escape, trim, trimStart, trimEnd]

end Value

end BoxDiagram
