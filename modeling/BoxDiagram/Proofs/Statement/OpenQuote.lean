import BoxDiagram.Proofs.Statement.Joined
import BoxDiagram.Proofs.Statement.Scan

/-!
# Open quotes: the readers of a line agree on its quotes

Three readers go along the quotes of a line: one cuts the line at its semicolons, one looks in a
piece for the colon in front of the value, and one reads a value up to its closing quote. They begin
at different characters, and blanks, closing braces and marks are taken off in between. Still they
agree (`ScansAgree`): the body of a piece begins and ends where the scan of the whole line is outside
quotes, so a scan of the body is at each character in the state of the scan of the line; the colon is
the first one that stands outside quotes in the line; and a value ends at the quote at which the scan
of the line leaves the quotes. So no value is found open, and a text is refused for an open quote
exactly where a line ends inside quotes (`Statement.scans_agree`).
-/

namespace BoxDiagram

open Text QuoteState

/-! ### Bodies and values -/

theorem Marker.exists_strip_append (cs : List Char) :
    ∃ tail, cs = (strip cs).1 ++ tail ∧ '"' ∉ tail := by
  have taken : ∀ rest mark : List Char, '"' ∉ mark → cs.reverse = mark ++ rest →
      ∃ tail, cs = trimEnd rest.reverse ++ tail ∧ '"' ∉ tail := by
    intro rest mark hmark hcs
    obtain ⟨bs, hbs, hrest⟩ := exists_trimEnd_append rest.reverse
    refine ⟨bs ++ mark.reverse, ?_, ?_⟩
    · rw [← List.append_assoc, ← hrest, ← List.reverse_append, ← hcs, List.reverse_reverse]
    · rw [List.mem_append, List.mem_reverse, not_or]
      exact ⟨quote_notMem_of_blank hbs, hmark⟩
  unfold strip
  split
  · next rest h => exact taken rest ['\x7d', '\x7b'] (by decide) h
  · next rest h => exact taken rest ['\x7b'] (by decide) h
  · exact ⟨[], by simp, by simp⟩

theorem Marker.strip_isPrefix (cs : List Char) : (strip cs).1 <+: cs := by
  obtain ⟨tail, hcs, -⟩ := exists_strip_append cs
  exact ⟨tail, hcs.symm⟩

/-- **The body of a piece ends outside quotes if the piece does.** -/
theorem Marker.after_strip {cs : List Char} {q : QuoteState} (h : q.after cs = .outside) :
    q.after (strip cs).1 = .outside := by
  obtain ⟨tail, hcs, htail⟩ := exists_strip_append cs
  rwa [hcs, after_append, after_eq_outside_iff htail] at h

theorem QuoteState.after_rest {body : List Char} (h : outside.after body = outside) :
    outside.after ((breakOutside? ':' outside body).getD (body, [])).2 = outside := by
  cases hbreak : breakOutside? ':' outside body with
  | none => rfl
  | some p =>
    obtain ⟨key, rest⟩ := p
    obtain ⟨rfl, hkey, -⟩ := breakOutside?_eq_some_iff.mp hbreak
    rwa [after_append, hkey] at h

/-! ### Agreement -/

/-- **The value reader agrees with the scan of the line** about the value that is quoted behind the
front of the line: it reads up to the quote at which the scan leaves the quotes. -/
def ClosesInLine (front quoted : List Char) : Prop :=
  outside.after front = .outside ∧ ∃ inner left value, quoted = inner ++ '"' :: left ∧
    Value.readQuoted? quoted = some (value, left) ∧
    (∀ before, before <+: inner → outside.after (front ++ '"' :: before) ≠ .outside) ∧
    outside.after (front ++ '"' :: (inner ++ ['"'])) = .outside

/-- **The readers of the body of a piece agree with the scan of the line**, in which the body stands
behind the front. -/
structure ScansAgree (front body : List Char) : Prop where
  enters : outside.after front = .outside
  leaves : outside.after (front ++ body) = .outside
  /-- A scan of the body is at each character in the state of the scan of the line. -/
  states : ∀ before, before <+: body → outside.after before = outside.after (front ++ before)
  /-- As long as no colon is found, the search for it is in the state of the scan of the line. -/
  search : ∀ before after, body = before ++ after → Clear ':' .outside before →
    breakOutside? ':' .outside body =
      (breakOutside? ':' (outside.after (front ++ before)) after).map
        fun (key, rest) => (before ++ key, rest)
  /-- The colon that is found is the first one that the scan of the line sees outside quotes. -/
  colon : ∀ key rest, breakOutside? ':' .outside body = some (key, rest) ↔
    body = key ++ ':' :: rest ∧ outside.after (front ++ key) = .outside ∧
      ∀ before after, key = before ++ ':' :: after → outside.after (front ++ before) ≠ .outside
  /-- A value in quotes is closed where the scan of the line says so. -/
  closing : ∀ key rest quoted, breakOutside? ':' .outside body = some (key, rest) →
    trim rest = '"' :: quoted → ∃ blanks, (∀ c ∈ blanks, isBlank c = true) ∧
      key ++ ':' :: blanks ++ '"' :: quoted <+: body ∧
      ClosesInLine (front ++ (key ++ ':' :: blanks)) quoted
  /-- So the value is not refused for an open quote. -/
  value : Value.read ((breakOutside? ':' .outside body).getD (body, [])).2 ≠
    .error .unterminatedQuote

theorem closesInLine {front quoted : List Char} (hfront : outside.after front = .outside)
    (hquoted : inside.after quoted = .outside) : ClosesInLine front quoted := by
  obtain ⟨inner, left, value, heq, hinner, hread⟩ := Value.exists_readQuoted? hquoted
  have hafter : ∀ ds, outside.after (front ++ '"' :: ds) = inside.after ds := fun ds => by
    rw [after_append, hfront]
    rfl
  refine ⟨hfront, inner, left, value, heq, hread, fun before hbefore => ?_, ?_⟩
  · rw [hafter]
    exact hinner.stays before hbefore
  · rw [hafter, after_append, hinner.ends]
    rfl

/-- **The readers agree wherever the body begins and ends outside quotes.** -/
theorem scansAgree {front body : List Char} (hfront : outside.after front = .outside)
    (hbody : outside.after (front ++ body) = .outside) : ScansAgree front body := by
  have hafter : ∀ ds, outside.after (front ++ ds) = outside.after ds := fun ds => by
    rw [after_append, hfront]
  have hends : outside.after body = .outside := hafter body ▸ hbody
  refine ⟨hfront, hbody, fun before _ => (hafter before).symm, ?_, ?_, ?_,
    Value.read_ne_unterminatedQuote (after_rest hends)⟩
  · rintro before after rfl hclear
    rw [hafter, breakOutside?_clear_append hclear]
  · intro key rest
    simp only [hafter]
    rw [breakOutside?_eq_some_iff, clear_iff]
  · intro key rest quoted hbreak hquoted
    obtain ⟨hcolon, hkey, -⟩ := breakOutside?_eq_some_iff.mp hbreak
    have hrest : outside.after rest = .outside := by
      rwa [hcolon, after_append, hkey] at hends
    obtain ⟨blanks, hblanks, hprefix, hinside⟩ := Value.exists_of_trim hrest hquoted
    refine ⟨blanks, hblanks, ?_, closesInLine ?_ hinside⟩
    · rw [hcolon, List.append_assoc, List.prefix_append_right_inj, List.cons_append,
        List.prefix_cons_inj]
      exact hprefix
    · have hblank : outside.after blanks = .outside := after_outside (quote_notMem_of_blank hblanks)
      rw [hafter, after_append, hkey]
      exact hblank

/-! ### Entries -/

theorem Head.read_ne_unterminatedQuote (piece cs : List Char) :
    Head.read piece cs ≠ .error .unterminatedQuote := by
  intro h
  unfold Head.read at h
  dsimp only at h
  split_ifs at h
  · cases h
  cases hs : Key.splitChain? (trim cs) with
  | none =>
    simp only [hs, map_eq_error, mapError_eq_error] at h
    obtain ⟨error, -, heq⟩ := h
    cases heq
  | some chain =>
    obtain ⟨endpoints, arrows⟩ := chain
    simp only [hs] at h
    rcases bind_eq_error.mp h with hpaths | ⟨paths, -, hpure⟩
    · obtain ⟨e, -, hread⟩ := exists_of_mapM_eq_error hpaths
      obtain ⟨error, -, heq⟩ := mapError_eq_error.mp hread
      cases heq
    · cases hpure

/-- **An entry that ends outside quotes is not refused for an open quote.** -/
theorem Entry.read_ne_unterminatedQuote {piece : List Char}
    (h : outside.after piece = .outside) : Entry.read piece ≠ .error .unterminatedQuote := by
  intro herror
  unfold Entry.read at herror
  rcases bind_eq_error.mp herror with hvalue | ⟨value, -, hrest⟩
  · exact Value.read_ne_unterminatedQuote (after_rest (Marker.after_strip h)) hvalue
  · rcases bind_eq_error.mp hrest with hhead | ⟨head, -, hpure⟩
    · exact Head.read_ne_unterminatedQuote _ _ hhead
    · cases hpure

/-! ### Lines -/

/-- A line that is no comment and whose scan ends inside quotes. -/
def EndsInQuotes (l : List Char) : Prop :=
  (trim l).head? ≠ some '#' ∧ outside.after (trim l) ≠ .outside

instance (l : List Char) : Decidable (EndsInQuotes l) := inferInstanceAs (Decidable (_ ∧ _))

/-- **A text among the pieces of a line stands in it.** -/
theorem Piece.exists_standsIn_of_ofLine {l text : List Char} {xs ys : List Piece}
    (h : ofLine l = .ok (xs ++ .text text :: ys)) :
    ∃ front back, StandsIn (trim l) xs text ys front back := by
  rcases ofTrimmed_eq_ok_iff.mp h with ⟨-, hnil⟩ | ⟨-, hafter, hsplit⟩
  · simp at hnil
  · exact exists_standsIn hafter hsplit

section Stands

variable {line text front back : List Char} {xs ys : List Piece}
  (h : Piece.StandsIn line xs text ys front back)
include h

theorem Piece.StandsIn.after_text : outside.after text = .outside := by
  have hleaves := h.leaves
  rwa [after_append, h.enters] at hleaves

theorem Piece.StandsIn.scansAgree_body : ScansAgree front (Marker.strip text).1 := by
  refine scansAgree h.enters ?_
  rw [after_append, h.enters]
  exact Marker.after_strip h.after_text

end Stands

namespace Reading

theorem exists_of_step_eq_error {line : Nat} {r : Reading} {piece : Piece}
    (h : step line r piece = .error .unterminatedQuote) :
    ∃ text, piece = .text text ∧ Entry.read text = .error .unterminatedQuote := by
  cases piece with
  | close =>
    obtain ⟨statements, _ | ⟨f, outer⟩⟩ := r <;> cases h
  | text text =>
    refine ⟨text, rfl, ?_⟩
    rcases bind_eq_error.mp h with hread | ⟨e, -, hadd⟩
    · exact hread
    · split_ifs at hadd <;> cases hadd

/-- **A line is refused for an open quote exactly if it ends inside quotes.** -/
theorem readLine_eq_error_iff {r : Reading} {l : List Char} {m n : Nat} :
    r.readLine (l, m) = .error ⟨n, .unterminatedQuote⟩ ↔ n = m ∧ EndsInQuotes l := by
  have hline : r.readLine (l, m) = .error ⟨n, .unterminatedQuote⟩ ↔
      n = m ∧ Piece.ofLine l >>= (fun pieces => pieces.foldlM (step m) r) =
        .error .unterminatedQuote := by
    unfold readLine
    rw [mapError_eq_error]
    constructor
    · rintro ⟨cause, hcause, heq⟩
      cases heq
      exact ⟨rfl, hcause⟩
    · rintro ⟨rfl, hcause⟩
      exact ⟨_, hcause, rfl⟩
  rw [hline, bind_eq_error, and_congr_right_iff]
  intro
  constructor
  · rintro (hcut | ⟨pieces, hpieces, hfold⟩)
    · obtain ⟨hcomment, hafter, -⟩ := Piece.ofTrimmed_eq_error_iff.mp hcut
      exact ⟨hcomment, hafter⟩
    · obtain ⟨xs, piece, ys, r', rfl, -, hstep⟩ := foldlM_eq_error_iff.mp hfold
      obtain ⟨text, rfl, hread⟩ := exists_of_step_eq_error hstep
      obtain ⟨front, back, hstands⟩ := Piece.exists_standsIn_of_ofLine hpieces
      exact absurd hread (Entry.read_ne_unterminatedQuote hstands.after_text)
  · rintro ⟨hcomment, hafter⟩
    exact Or.inl (Piece.ofTrimmed_eq_error_iff.mpr ⟨hcomment, hafter, rfl⟩)

theorem readLines_eq_error_iff {r : Reading} {ls : List (List Char)} {first : Nat}
    {e : SyntaxError} : r.readLines ls first = .error e ↔ ∃ before l after r',
      ls = before ++ l :: after ∧ r.readLines before first = .ok r' ∧
        r'.readLine (l, first + before.length) = .error e := by
  unfold readLines
  rw [foldlM_eq_error_iff]
  constructor
  · rintro ⟨xs, x, ys, r', hzip, hok, herror⟩
    obtain ⟨before, tail, rfl, rfl, htail⟩ := List.zipIdx_eq_append_iff.mp hzip
    obtain ⟨l, after, rfl, rfl, -⟩ := List.zipIdx_eq_cons_iff.mp htail.symm
    exact ⟨before, l, after, r', rfl, hok, herror⟩
  · rintro ⟨before, l, after, r', rfl, hok, herror⟩
    refine ⟨before.zipIdx first, (l, first + before.length),
      after.zipIdx (first + before.length + 1), r', ?_, hok, herror⟩
    rw [List.zipIdx_append, List.zipIdx_cons]

end Reading

namespace Statement

/-- **A text is refused for an open quote exactly at its first line that ends inside quotes**, if the
lines before are read. -/
theorem parse_eq_error_iff {text : String} {n : Nat} :
    parse text = .error ⟨n, .unterminatedQuote⟩ ↔ ∃ before l after r,
      Text.lines text.toList = before ++ l :: after ∧ n = 1 + before.length ∧
        Reading.start.readLines before 1 = .ok r ∧ EndsInQuotes l := by
  unfold parse
  rw [bind_eq_error, Reading.readLines_eq_error_iff]
  constructor
  · rintro (⟨before, l, after, r, hlines, hok, herror⟩ | ⟨r, -, hfinish⟩)
    · obtain ⟨hn, hquotes⟩ := Reading.readLine_eq_error_iff.mp herror
      exact ⟨before, l, after, r, hlines, hn, hok, hquotes⟩
    · obtain ⟨statements, _ | ⟨f, outer⟩⟩ := r <;> cases hfinish
  · rintro ⟨before, l, after, r, hlines, hn, hok, hquotes⟩
    refine Or.inl ⟨before, l, after, r, hlines, hok, ?_⟩
    exact Reading.readLine_eq_error_iff.mpr ⟨hn, hquotes⟩

/-- **The readers of a text agree on its quotes.** Each piece of each line that is read as a statement
stands between two parts of the line, which hold the other pieces; there, and at the ends of its body,
the scan of the line is outside quotes, and all readers of the piece go along with that scan. So
reading the piece never finds a quote open, and the text is refused for an open quote only where the
scan of a line ends inside quotes. -/
theorem scans_agree (text : String) :
    (∀ l ∈ Text.lines text.toList, ∀ xs piece ys, Piece.ofLine l = .ok (xs ++ .text piece :: ys) →
      ∃ front back, Piece.StandsIn (trim l) xs piece ys front back ∧
        (Marker.strip piece).1 <+: piece ∧ ScansAgree front (Marker.strip piece).1 ∧
        Entry.read piece ≠ .error .unterminatedQuote) ∧
    ∀ n, parse text = .error ⟨n, .unterminatedQuote⟩ ↔ ∃ before l after r,
      Text.lines text.toList = before ++ l :: after ∧ n = 1 + before.length ∧
        Reading.start.readLines before 1 = .ok r ∧ EndsInQuotes l := by
  refine ⟨fun l _ xs piece ys hpieces => ?_, fun n => parse_eq_error_iff⟩
  obtain ⟨front, back, hstands⟩ := Piece.exists_standsIn_of_ofLine hpieces
  exact ⟨front, back, hstands, Marker.strip_isPrefix piece, hstands.scansAgree_body,
    Entry.read_ne_unterminatedQuote hstands.after_text⟩

/-- A line with two pieces that hold quotes, escapes and braces, and a closing brace between them. -/
def tangledLine : String :=
  " x: \"p; \\\"q\\\" \x7b\" \x7b; \x7d a -> b : \"\x7d\\\\\" \x7b\x7d "

/-- Behind it a line with an open quote. -/
def tangledText : String := tangledLine ++ "\n" ++ "c: \"open\\\""

/-- The second piece of the first line is read, and the second line is refused. -/
theorem scans_agree_tangled :
    let piece := "a -> b : \"\x7d\\\\\" \x7b\x7d".toList
    (tangledLine.toList ∈ Text.lines tangledText.toList ∧
      (∃ xs, Piece.ofLine tangledLine.toList = .ok (xs ++ [.text piece]) ∧
        ∃ front back, Piece.StandsIn (trim tangledLine.toList) xs piece [] front back ∧
          (Marker.strip piece).1 <+: piece ∧ ScansAgree front (Marker.strip piece).1 ∧
          Entry.read piece ≠ .error .unterminatedQuote)) ∧
      parse tangledText = .error ⟨2, .unterminatedQuote⟩ := by
  intro piece
  have hlines : Text.lines tangledText.toList = [tangledLine.toList, "c: \"open\\\"".toList] := by
    decide +kernel
  have hpieces : Piece.ofLine tangledLine.toList =
      .ok ([.text "x: \"p; \\\"q\\\" \x7b\" \x7b".toList, .close] ++ .text piece :: []) := by
    decide +kernel
  have hread : Reading.start.readLines [tangledLine.toList] 1 =
      .ok ⟨[⟨.declaration ["x"], some "p; \"q\" \x7b", some []⟩,
        ⟨.connection [["a"], ["b"]] [.forward], some "\x7d\\", some []⟩], []⟩ := by
    decide +kernel
  have hmem : tangledLine.toList ∈ Text.lines tangledText.toList := by
    rw [hlines]
    exact List.mem_cons_self
  refine ⟨⟨hmem, _, hpieces, (scans_agree tangledText).1 _ hmem _ _ _ hpieces⟩, ?_⟩
  exact ((scans_agree tangledText).2 2).mpr ⟨_, _, _, _, hlines, rfl, hread, by decide +kernel⟩

end Statement

end BoxDiagram
