import BoxDiagram.Proofs.Statement.RoundTrip

/-!
# Joined texts: reading one text after another

A carriage return at the end of a line is a blank, and a line of blanks is read as nothing. So a text
is read piece by piece between its line feeds (`readLines_lines`), and a text that is joined to
another one by a line feed is read from where that one has left the reader (`readLines_joined`). A
line that spells statements adds them at the end of a text (`Statement.parse_joined`), and a text of
blanks has none (`Statement.parse_of_blank`). What has been read before changes nothing but the numbers
of the lines (`readLines_behind`), so reading is compositional (`Statement.parse_compositional`).
-/

namespace BoxDiagram

open Text

namespace Reading

/-! ### Lines and pieces -/

theorem readLine_congr (r : Reading) {l l' : List Char} (h : trim l = trim l') (n : Nat) :
    r.readLine (l, n) = r.readLine (l', n) := by
  unfold readLine Piece.ofLine
  rw [h]

theorem readLine_nil (r : Reading) (n : Nat) : r.readLine ([], n) = .ok r := rfl

theorem readLines_cons (r : Reading) (l : List Char) (ls : List (List Char)) (first : Nat) :
    r.readLines (l :: ls) first =
      (r.readLine (l, first)).bind fun r' => r'.readLines ls (first + 1) := by
  unfold readLines
  rw [List.zipIdx_cons, List.foldlM_cons]
  rfl

theorem readLines_linesOfPieces : ∀ (r : Reading) (pieces : List (List Char)) (first : Nat),
    r.readLines (linesOfPieces pieces) first = r.readLines pieces first
  | _, [], _ => rfl
  | r, [last], first => by
    unfold linesOfPieces
    split_ifs with h
    · rw [h, readLines_cons, readLine_nil]
      rfl
    · rfl
  | r, piece :: next :: rest, first => by
    have htrim : trim (dropReturn piece) = trim piece := trim_dropReturn piece
    rw [linesOfPieces_cons (by simp), readLines_cons, readLines_cons, readLine_congr r htrim]
    congr 1
    funext r'
    exact readLines_linesOfPieces r' (next :: rest) (first + 1)

/-- **The lines of a text are read like the pieces between its line feeds.** -/
theorem readLines_lines (r : Reading) (cs : List Char) (first : Nat) :
    r.readLines (lines cs) first = r.readLines (cs.splitOn '\n') first :=
  readLines_linesOfPieces r _ first

/-- **Joined texts are read one after the other.** -/
theorem readLines_joined (r : Reading) (cs ds : List Char) (first : Nat) :
    r.readLines (lines (cs ++ '\n' :: ds)) first =
      (r.readLines (lines cs) first).bind fun r' =>
        r'.readLines (lines ds) (first + (cs.splitOn '\n').length) := by
  simp only [readLines_lines]
  rw [List.splitOn_append_cons_self, readLines_append]

theorem readLines_of_blank (r : Reading) : ∀ {ls : List (List Char)}, (∀ l ∈ ls, trim l = []) →
    ∀ first, r.readLines ls first = .ok r
  | [], _, _ => rfl
  | l :: ls, h, first => by
    obtain ⟨hl, hls⟩ := List.forall_mem_cons.mp h
    have hnil : trim l = trim [] := hl
    rw [readLines_cons, readLine_congr r hnil, readLine_nil]
    exact readLines_of_blank r hls (first + 1)

end Reading

theorem IsBody.spells {head : Head} {value : Option String} {line : String}
    (h : IsBody head value line.toList) : Spells [line] [⟨head, value, none⟩] :=
  spells_of_isBody h 0 (m := .absent) (by decide) (by simp [Marker.text, Statement.indent])

namespace Statement

theorem readLines_of_parse {text : String} {ss : List Statement} (h : parse text = .ok ss) :
    Reading.start.readLines (Text.lines text.toList) 1 = .ok ⟨ss, []⟩ := by
  unfold parse at h
  rw [bind_eq_ok] at h
  obtain ⟨⟨statements, frames⟩, hread, hfinish⟩ := h
  unfold Reading.finish at hfinish
  split at hfinish
  · next hframes =>
    obtain rfl : frames = [] := hframes
    obtain rfl : statements = ss := Except.ok.inj hfinish
    exact hread
  · cases hfinish

/-- **A text of blanks has no statements.** -/
theorem parse_of_blank {text : String} (h : Text.trimmed text = "") : parse text = .ok [] := by
  have hblank : ∀ c ∈ text.toList, isBlank c = true := by
    refine Text.trim_eq_nil_iff.mp ?_
    rw [← Text.toList_trimmed, h]
    rfl
  have hread : Reading.start.readLines (Text.lines text.toList) 1 = .ok .start := by
    rw [Reading.readLines_lines]
    refine Reading.readLines_of_blank _ (fun l hl => Text.trim_eq_nil_iff.mpr fun c hc => ?_) 1
    exact hblank c ((Dotted.infix_of_mem_splitOn hl).subset hc)
  unfold parse
  rw [hread]
  rfl

/-- **A line that spells statements adds them** at the end of a text. -/
theorem parse_joined {text line : String} {ss ts : List Statement} (h : parse text = .ok ss)
    (hl : Spells [line] ts) : parse (text ++ "\n" ++ line) = .ok (ss ++ ts) := by
  have htext : (text ++ "\n" ++ line).toList = text.toList ++ '\n' :: line.toList := by simp
  have hline : line.toList.splitOn '\n' = [line.toList] := by
    have hnewline : '\n' ∉ line.toList := (hl.isLine line (List.mem_singleton_self line)).noNewline
    exact List.splitOn_eq_singleton hnewline
  have hread : Reading.readLines ⟨ss, []⟩ (Text.lines line.toList)
      (1 + (text.toList.splitOn '\n').length) = .ok ⟨ss ++ ts, []⟩ := by
    rw [Reading.readLines_lines, hline]
    exact (hl.reads _ _).trans (congrArg _ (Reading.foldl_add_start ts ss))
  unfold parse
  rw [htext, Reading.readLines_joined, readLines_of_parse h]
  simp only [Except.bind, hread]
  rfl

end Statement

/-! ### Reading behind what has been read before -/

/-- The same error, some lines further down. -/
def SyntaxError.later (n : Nat) (e : SyntaxError) : SyntaxError := { e with line := e.line + n }

namespace Reading

/-- A reading behind complete statements, with its open blocks some lines further down. -/
def behind (done : List Statement) (n : Nat) (r : Reading) : Reading :=
  ⟨done ++ r.statements, r.frames.map fun f => { f with line := f.line + n }⟩

section Behind

variable (done : List Statement) (n : Nat)

theorem add_behind (r : Reading) (s : Statement) :
    (r.behind done n).add s = (r.add s).behind done n := by
  obtain ⟨statements, _ | ⟨f, outer⟩⟩ := r
  · simp [behind, add]
  · rfl

theorem step_behind (line : Nat) (r : Reading) (piece : Piece) :
    step (line + n) (r.behind done n) piece = (step line r piece).map (behind done n) := by
  cases piece with
  | close =>
    obtain ⟨statements, _ | ⟨f, outer⟩⟩ := r
    · rfl
    · exact congrArg Except.ok (add_behind done n ⟨statements, outer⟩ _)
  | text cs =>
    simp only [step]
    cases Entry.read cs with
    | error cause => rfl
    | ok e =>
      rw [ok_bind, ok_bind]
      split_ifs with hopening
      · rfl
      · exact congrArg Except.ok (add_behind done n r e.statement)

theorem foldlM_step_behind (line : Nat) : ∀ (pieces : List Piece) (r : Reading),
    pieces.foldlM (step (line + n)) (r.behind done n) =
      (pieces.foldlM (step line) r).map (behind done n)
  | [], _ => rfl
  | piece :: pieces, r => by
    rw [List.foldlM_cons, List.foldlM_cons, step_behind]
    cases step line r piece with
    | error cause => rfl
    | ok r' => exact foldlM_step_behind line pieces r'

theorem readLine_behind (r : Reading) (l : List Char) (line : Nat) :
    (r.behind done n).readLine (l, line + n) =
      ((r.readLine (l, line)).map (behind done n)).mapError (.later n) := by
  unfold readLine
  cases Piece.ofLine l with
  | error cause => rfl
  | ok pieces =>
    simp only [Except.bind]
    rw [foldlM_step_behind]
    cases pieces.foldlM (step line) r <;> rfl

/-- **Behind what has been read before, lines are read in the same way**, and only their numbers are
others. -/
theorem readLines_behind : ∀ (ls : List (List Char)) (r : Reading) (first : Nat),
    (r.behind done n).readLines ls (first + n) =
      ((r.readLines ls first).map (behind done n)).mapError (.later n)
  | [], _, _ => rfl
  | l :: ls, r, first => by
    rw [readLines_cons, readLines_cons, readLine_behind]
    cases r.readLine (l, first) with
    | error e => rfl
    | ok r' =>
      have hnext : first + n + 1 = first + 1 + n := by omega
      simp only [Except.map, Except.mapError, Except.bind]
      rw [hnext, readLines_behind ls r' (first + 1)]
      rfl

/-- An open block is reported at the line that has become of its own. -/
theorem finish_behind (r : Reading) :
    (r.behind done n).finish = (r.finish.map (done ++ ·)).mapError (.later n) := by
  obtain ⟨statements, _ | ⟨f, outer⟩⟩ := r <;> rfl

end Behind

end Reading

namespace Statement

/-- Behind a text that is read and a line feed, any text is read as it is read alone. -/
theorem parse_behind {front : String} {ss : List Statement} (h : parse front = .ok ss)
    (text : String) : parse (front ++ "\n" ++ text) =
      ((parse text).map (ss ++ ·)).mapError (.later (front.toList.count '\n' + 1)) := by
  have htext : (front ++ "\n" ++ text).toList = front.toList ++ '\n' :: text.toList := by simp
  have hbehind : (⟨ss, []⟩ : Reading) = Reading.start.behind ss (front.toList.count '\n' + 1) := by
    simp [Reading.behind, Reading.start]
  unfold parse
  rw [htext, Reading.readLines_joined, readLines_of_parse h, Text.length_splitOn_newline, hbehind]
  simp only [Except.bind]
  rw [Reading.readLines_behind]
  cases Reading.start.readLines (Text.lines text.toList) 1 with
  | error e => rfl
  | ok r => exact Reading.finish_behind ss _ r

/-- **Reading is compositional.** Behind a text that is read and a line feed, the statements of any text
follow those of the first one; and a text that is refused is refused there for the same reason, one line
further down for that line feed and for each one in the first text. -/
theorem parse_compositional {front : String} {ss : List Statement} (h : parse front = .ok ss)
    (text : String) :
    (∀ ts, parse text = .ok ts → parse (front ++ "\n" ++ text) = .ok (ss ++ ts)) ∧
      ∀ line cause, parse text = .error ⟨line, cause⟩ →
        parse (front ++ "\n" ++ text) = .error ⟨line + (front.toList.count '\n' + 1), cause⟩ := by
  rw [parse_behind h]
  constructor
  · intro ts hts
    rw [hts]
    rfl
  · intro line cause herror
    rw [herror]
    rfl

/-- A text with a comment, carriage returns, a block that is closed behind its last statement, and a
line feed at its end. -/
def bracedText : String := "# top\r\na: \x7b\r\n b; c: \"\x7d\" \x7b\x7d; \x7d\r\n"

/-- Its statement. -/
def braced : Statement := ⟨.declaration ["a"], none,
  some [⟨.declaration ["b"], none, none⟩, ⟨.declaration ["c"], some "\x7d", some []⟩]⟩

/-- Behind it stand a text that is read, and one of two lines whose second one opens a block that is
never closed. -/
theorem parse_compositional_braced : parse bracedText = .ok [braced] ∧
    parse (bracedText ++ "\n" ++ "\rd -- e: f") =
      .ok [braced, ⟨.connection [["d"], ["e"]] [.plain], some "f", none⟩] ∧
    parse (bracedText ++ "\n" ++ "a\nb \x7b; c") = .error ⟨6, .unclosedBlock⟩ := by
  have hbraced : parse bracedText = .ok [braced] := by decide +kernel
  have hread : parse "\rd -- e: f" = .ok [⟨.connection [["d"], ["e"]] [.plain], some "f", none⟩] := by
    decide +kernel
  have hrefused : parse "a\nb \x7b; c" = .error ⟨2, .unclosedBlock⟩ := by decide +kernel
  have hcount : bracedText.toList.count '\n' = 3 := by decide +kernel
  refine ⟨hbraced, (parse_compositional hbraced _).1 _ hread, ?_⟩
  have hlater := (parse_compositional hbraced _).2 _ _ hrefused
  rwa [hcount] at hlater

end Statement

end BoxDiagram
