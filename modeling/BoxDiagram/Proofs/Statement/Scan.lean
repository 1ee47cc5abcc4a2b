import BoxDiagram.Proofs.Statement.Quote

/-!
# Scans: where the pieces of a line stand

A text is cut at the marks that stand outside quotes, from the first one to the last one
(`QuoteState.splitInduction`). So each piece of a line that ends outside quotes stands between two
parts of the line, which hold the pieces in front of it and behind it, and the scan of the line is
outside quotes at both its ends (`Piece.exists_standsIn`). A value that opens with a quote is read up
to the quote at which a scan leaves the quotes (`Value.exists_readQuoted?`).
-/

namespace BoxDiagram

open Text

namespace QuoteState

/-- **Induction along the cuts**: outside quotes a text is clear of the mark, or it goes on after
the first mark in it. -/
theorem splitInduction (mark : Char) {motive : List Char → Prop}
    (clear : ∀ cs, Clear mark outside cs → motive cs)
    (cut : ∀ cs rest, Clear mark outside cs → outside.after cs = outside → motive rest →
      motive (cs ++ mark :: rest)) (cs : List Char) : motive cs := by
  cases h : breakOutside? mark outside cs with
  | none => exact clear cs (breakOutside?_eq_none_iff.mp h)
  | some p =>
    obtain ⟨piece, rest⟩ := p
    obtain ⟨hcs, hafter, hclear⟩ := breakOutside?_eq_some_iff.mp h
    have hlength : rest.length < cs.length := by
      rw [hcs, List.length_append, List.length_cons]
      omega
    exact hcs ▸ cut piece rest hclear hafter (splitInduction mark clear cut rest)
termination_by cs.length

end QuoteState

open QuoteState

theorem quote_notMem_of_blank {bs : List Char} (h : ∀ c ∈ bs, isBlank c = true) : '"' ∉ bs :=
  fun hm => absurd (h _ hm) (by decide)

/-! ### Values in quotes -/

namespace Value

/-- A text that can stand between quotes: a scan does not leave the quotes on the way through it,
and no backslash waits for its character at the end. -/
structure BetweenQuotes (cs : List Char) : Prop where
  stays : ∀ before, before <+: cs → inside.after before ≠ .outside
  ends : inside.after cs = .inside

theorem betweenQuotes_nil : BetweenQuotes [] where
  stays before h := by
    rw [List.prefix_nil.mp h]
    decide
  ends := rfl

theorem BetweenQuotes.cons {c : Char} {cs : List Char} (h : BetweenQuotes cs)
    (hc : inside.next c = .inside) : BetweenQuotes (c :: cs) where
  stays before hbefore := by
    rcases List.prefix_cons_iff.mp hbefore with rfl | ⟨tail, rfl, htail⟩
    · decide
    · rw [after_cons, hc]
      exact h.stays tail htail
  ends := by rw [after_cons, hc, h.ends]

theorem BetweenQuotes.escaped {cs : List Char} (h : BetweenQuotes cs) (c : Char) :
    BetweenQuotes ('\\' :: c :: cs) where
  stays before hbefore := by
    rcases List.prefix_cons_iff.mp hbefore with rfl | ⟨tail, rfl, htail⟩
    · decide
    rcases List.prefix_cons_iff.mp htail with rfl | ⟨rest, rfl, hrest⟩
    · decide
    · exact h.stays rest hrest
  ends := h.ends

/-- **A scan that gets out of the quotes shows the value reader its closing quote.** -/
theorem exists_readQuoted? {cs : List Char} (h : inside.after cs = .outside) :
    ∃ inner left value, cs = inner ++ '"' :: left ∧ BetweenQuotes inner ∧
      readQuoted? cs = some (value, left) := by
  fun_induction readQuoted? cs with
  | case1 => cases h
  | case2 rest => exact ⟨[], rest, [], rfl, betweenQuotes_nil, rfl⟩
  | case3 => cases h
  | case4 c rest ih =>
    obtain ⟨inner, left, value, rfl, hinner, hread⟩ := ih h
    refine ⟨'\\' :: c :: inner, left, unescapeChar c :: value, rfl, hinner.escaped c, ?_⟩
    rw [hread]
    rfl
  | case5 c rest hquote hlast hescape ih =>
    have hbackslash : c ≠ '\\' := by
      rintro rfl
      cases rest with
      | nil => exact hlast rfl rfl
      | cons d rest => exact hescape d rest rfl rfl
    have hnext : inside.next c = .inside := by
      rw [next, if_neg hbackslash, if_neg hquote]
    rw [after_cons, hnext] at h
    obtain ⟨inner, left, value, rfl, hinner, hread⟩ := ih h
    refine ⟨c :: inner, left, c :: value, rfl, hinner.cons hnext, ?_⟩
    rw [hread]
    rfl

/-- A value that begins with a quote, in a text that ends outside quotes. -/
theorem exists_of_trim {cs quoted : List Char} (h : outside.after cs = .outside)
    (hquoted : trim cs = '"' :: quoted) : ∃ blanks, (∀ c ∈ blanks, isBlank c = true) ∧
      blanks ++ '"' :: quoted <+: cs ∧ inside.after quoted = .outside := by
  obtain ⟨blanks, es, hblanks, hes, hcs⟩ := exists_append_trim_append cs
  rw [hquoted] at hcs
  refine ⟨blanks, hblanks, ⟨es, hcs.symm⟩, ?_⟩
  rw [hcs, after_append, after_eq_outside_iff (quote_notMem_of_blank hes), after_append,
    after_outside (quote_notMem_of_blank hblanks)] at h
  exact h

/-- **A text that ends outside quotes is not refused for an open quote.** -/
theorem read_ne_unterminatedQuote {cs : List Char} (h : outside.after cs = .outside) :
    read cs ≠ .error .unterminatedQuote := by
  intro herror
  unfold read at herror
  split at herror
  · cases herror
  · next quoted hquoted =>
    obtain ⟨-, -, -, hafter⟩ := exists_of_trim h hquoted
    obtain ⟨inner, left, value, -, -, hread⟩ := exists_readQuoted? hafter
    rw [hread] at herror
    dsimp only at herror
    split_ifs at herror
    cases herror
  · cases herror

end Value

/-! ### The pieces of a line -/

namespace Piece

/-- The pieces of a text between its semicolons, whether or not it is a comment and wherever its
quotes end. -/
def split (cs : List Char) : List Piece :=
  (splitOutside ';' .outside cs).flatMap fun piece => peel (trimEnd piece)

theorem split_of_clear {cs : List Char} (h : Clear ';' .outside cs) :
    split cs = peel (trimEnd cs) := by
  unfold split
  rw [splitOutside_of_clear h, List.flatMap_singleton]

theorem split_append {cs : List Char} (h : Clear ';' .outside cs)
    (hafter : QuoteState.outside.after cs = .outside) (rest : List Char) :
    split (cs ++ ';' :: rest) = peel (trimEnd cs) ++ split rest := by
  unfold split
  rw [splitOutside_append h hafter, List.flatMap_cons]

theorem ofTrimmed_eq_ok_iff {cs : List Char} {pieces : List Piece} :
    ofTrimmed cs = .ok pieces ↔ (cs.head? = some '#' ∧ pieces = []) ∨
      (cs.head? ≠ some '#' ∧ QuoteState.outside.after cs = .outside ∧ split cs = pieces) := by
  unfold ofTrimmed
  split_ifs with hcomment hafter
  · simp [hcomment, eq_comm]
  · simp [hcomment, hafter]
  · simp [hcomment, not_not.mp hafter, split]

theorem ofTrimmed_eq_error_iff {cs : List Char} {cause : SyntaxCause} :
    ofTrimmed cs = .error cause ↔ cs.head? ≠ some '#' ∧ QuoteState.outside.after cs ≠ .outside ∧
      cause = .unterminatedQuote := by
  unfold ofTrimmed
  split_ifs with hcomment hafter
  · simp [hcomment]
  · simp [hcomment, hafter, eq_comm]
  · simp [hcomment, hafter]

/-! ### Blanks and closing braces in front -/

/-- What is taken off in front of a piece. -/
def IsFront (cs : List Char) : Prop := ∀ c ∈ cs, isBlank c = true ∨ c = '\x7d'

theorem IsFront.notMem {cs : List Char} (h : IsFront cs) {c : Char} (hc : isBlank c = false)
    (hne : c ≠ '\x7d') : c ∉ cs := fun hm => by
  rcases h c hm with hblank | heq
  · rw [hc] at hblank
    cases hblank
  · exact hne heq

theorem peel_append {front : List Char} (h : IsFront front) (cs : List Char) :
    peel (front ++ cs) = peel front ++ peel cs := by
  induction front with
  | nil => rfl
  | cons c front ih =>
    obtain ⟨hc, hfront⟩ := List.forall_mem_cons.mp h
    rw [List.cons_append, peel, peel, ih hfront]
    split_ifs with hblank hbrace
    · rfl
    · rfl
    · exact absurd hc (not_or.mpr ⟨hblank, hbrace⟩)

theorem peel_of_blank {bs : List Char} (h : ∀ c ∈ bs, isBlank c = true) : peel bs = [] := by
  induction bs with
  | nil => rfl
  | cons c bs ih =>
    obtain ⟨hc, hbs⟩ := List.forall_mem_cons.mp h
    rw [peel, if_pos hc, ih hbs]

/-- What is taken off in front is cut like any text: into its closing braces. -/
theorem IsFront.split_eq {front : List Char} (h : IsFront front) : split front = peel front := by
  have hclear : Clear ';' .outside front := clear_of_notMem (h.notMem (by decide) (by decide))
  obtain ⟨bs, hbs, hfront⟩ := exists_trimEnd_append front
  have hstart : IsFront (trimEnd front) := fun c hc => h c ((trimEnd_isPrefix front).subset hc)
  rw [split_of_clear hclear]
  conv_rhs => rw [hfront, peel_append hstart, peel_of_blank hbs, List.append_nil]

/-- **A text among the pieces is what is left of them**, at the end. -/
theorem exists_of_peel {cs text : List Char} {xs ys : List Piece}
    (h : peel cs = xs ++ .text text :: ys) :
    ys = [] ∧ ∃ front, cs = front ++ text ∧ IsFront front ∧ peel front = xs := by
  induction cs generalizing xs with
  | nil => simp [peel] at h
  | cons c cs ih =>
    rw [peel] at h
    split_ifs at h with hblank hbrace
    · obtain ⟨rfl, front, rfl, hfront, rfl⟩ := ih h
      refine ⟨rfl, c :: front, rfl, List.forall_mem_cons.mpr ⟨Or.inl hblank, hfront⟩, ?_⟩
      rw [peel, if_pos hblank]
    · cases xs with
      | nil => cases h
      | cons x xs =>
        obtain ⟨rfl, hpeel⟩ := List.cons.inj h
        obtain ⟨rfl, front, rfl, hfront, rfl⟩ := ih hpeel
        refine ⟨rfl, c :: front, rfl, List.forall_mem_cons.mpr ⟨Or.inr hbrace, hfront⟩, ?_⟩
        rw [peel, if_neg hblank, if_pos hbrace]
    · cases xs with
      | nil =>
        obtain ⟨htext, rfl⟩ := List.cons.inj h
        obtain rfl := Piece.text.inj htext
        exact ⟨rfl, [], rfl, by simp [IsFront], rfl⟩
      | cons x xs => simp at h

/-! ### Places -/

/-- **The text stands as a piece between two parts of the line**: the scan of the line enters and
leaves it outside quotes, and the other pieces are those of the two parts. -/
structure StandsIn (line : List Char) (xs : List Piece) (text : List Char) (ys : List Piece)
    (front back : List Char) : Prop where
  line_eq : line = front ++ text ++ back
  enters : QuoteState.outside.after front = .outside
  leaves : QuoteState.outside.after (front ++ text) = .outside
  split_front : split front = xs
  split_back : split back = ys

theorem exists_standsIn_of_peel {cs text : List Char} {xs ys : List Piece}
    (hafter : QuoteState.outside.after cs = .outside)
    (h : peel (trimEnd cs) = xs ++ .text text :: ys) :
    ∃ front bs, (∀ c ∈ bs, isBlank c = true) ∧ StandsIn cs xs text ys front bs := by
  obtain ⟨rfl, front, htext, hfront, hxs⟩ := exists_of_peel h
  obtain ⟨bs, hbs, hcs⟩ := exists_trimEnd_append cs
  rw [htext] at hcs
  have hquote : '"' ∉ front := hfront.notMem (by decide) (by decide)
  have hsplit : split bs = peel bs := IsFront.split_eq fun c hc => Or.inl (hbs c hc)
  refine ⟨front, bs, hbs, hcs, after_outside hquote, ?_, hfront.split_eq.trans hxs, ?_⟩
  · rwa [hcs, after_append, after_eq_outside_iff (quote_notMem_of_blank hbs)] at hafter
  · rw [hsplit, peel_of_blank hbs]

section Cut

variable {cs rest text front back : List Char} {xs ys : List Piece}

theorem StandsIn.behind (h : StandsIn rest xs text ys front back) (hclear : Clear ';' .outside cs)
    (hcs : QuoteState.outside.after cs = .outside) :
    StandsIn (cs ++ ';' :: rest) (peel (trimEnd cs) ++ xs) text ys (cs ++ ';' :: front) back := by
  have hafter : ∀ ds, QuoteState.outside.after (cs ++ ';' :: ds) = QuoteState.outside.after ds :=
    fun ds => by rw [after_append, hcs]; rfl
  refine ⟨?_, ?_, ?_, ?_, h.split_back⟩
  · rw [h.line_eq]
    simp
  · rw [hafter, h.enters]
  · rw [List.append_assoc, List.cons_append, hafter, h.leaves]
  · rw [split_append hclear hcs, h.split_front]

theorem StandsIn.before (h : StandsIn cs xs text ys front back)
    (hback : ∀ c ∈ back, isBlank c = true) (rest : List Char) :
    StandsIn (cs ++ ';' :: rest) xs text (ys ++ split rest) front (back ++ ';' :: rest) := by
  have hclear : Clear ';' .outside back := clear_of_notMem fun hm => absurd (hback _ hm) (by decide)
  have hafter := after_outside (quote_notMem_of_blank hback)
  refine ⟨?_, h.enters, h.leaves, h.split_front, ?_⟩
  · rw [h.line_eq]
    simp
  · rw [← h.split_back, split_append hclear hafter, split_of_clear hclear]

end Cut

/-- **Every text among the pieces stands in the line**, the induction being along the cuts. -/
theorem exists_standsIn {line text : List Char} {xs ys : List Piece}
    (hafter : QuoteState.outside.after line = .outside) (h : split line = xs ++ .text text :: ys) :
    ∃ front back, StandsIn line xs text ys front back := by
  induction line using splitInduction ';' generalizing xs with
  | clear cs hclear =>
    rw [split_of_clear hclear] at h
    obtain ⟨front, bs, -, hstands⟩ := exists_standsIn_of_peel hafter h
    exact ⟨front, bs, hstands⟩
  | cut cs rest hclear hcs ih =>
    have hrest : QuoteState.outside.after rest = .outside := by
      rwa [after_append, hcs] at hafter
    rw [split_append hclear hcs] at h
    -- the text comes from behind the cut, or it is what is left in front of it
    rcases List.append_eq_append_iff.mp h with ⟨as, rfl, hsplit⟩ | ⟨bs, hpeel, hys⟩
    · obtain ⟨front, back, hstands⟩ := ih hrest hsplit
      exact ⟨cs ++ ';' :: front, back, hstands.behind hclear hcs⟩
    · cases bs with
      | nil =>
        rw [List.append_nil] at hpeel
        have hsplit : split rest = [] ++ .text text :: ys := hys.symm
        obtain ⟨front, back, hstands⟩ := ih hrest hsplit
        have hbehind := hstands.behind hclear hcs
        rw [List.append_nil, hpeel] at hbehind
        exact ⟨_, back, hbehind⟩
      | cons b bs =>
        obtain ⟨rfl, rfl⟩ := List.cons.inj hys
        obtain ⟨front, back, hback, hstands⟩ := exists_standsIn_of_peel hcs hpeel
        exact ⟨front, _, hstands.before hback rest⟩

end Piece

end BoxDiagram
