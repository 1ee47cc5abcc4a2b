import BoxDiagram.Proofs.Statement.RoundTrip
import BoxDiagram.Proofs.Patch.Line

/-!
# Blocks: a removed line takes its block along

Braces are counted outside quotes only, so the lines of a well-formed statement open as many blocks
as they close, whatever the values in it. A statement whose line is chosen is therefore removed whole
(`kept_of_chosen`), and one whose line is not chosen is kept whole (`kept_of_not_chosen`), if no line
inside of it passes for a connection.
-/

namespace BoxDiagram

open Text QuoteState Patch

/-! ### Braces -/

namespace Patch

theorem balance_append (q : QuoteState) (cs ds : List Char) :
    balance q (cs ++ ds) = balance q cs + balance (q.after cs) ds := by
  induction cs generalizing q with
  | nil => simp [balance, after]
  | cons c cs ih => rw [List.cons_append, balance, balance, ih, after_cons, Int.add_assoc]

theorem braceValue_eq_zero {q : QuoteState} {c : Char} (hopen : ¬ (q = .outside ∧ c = '\x7b'))
    (hclose : ¬ (q = .outside ∧ c = '\x7d')) : braceValue q c = 0 := by
  unfold braceValue
  split_ifs with hq hc hc
  · rfl
  · exact absurd ⟨not_not.mp hq, hc⟩ hopen
  · exact absurd ⟨not_not.mp hq, hc⟩ hclose
  · rfl

theorem balance_of_clear {q : QuoteState} {cs : List Char} (hopen : Clear '\x7b' q cs)
    (hclose : Clear '\x7d' q cs) : balance q cs = 0 := by
  induction cs generalizing q with
  | nil => rfl
  | cons c cs ih =>
    rw [balance, braceValue_eq_zero hopen.1 hclose.1, ih hopen.2 hclose.2, Int.add_zero]

theorem balance_of_notMem {q : QuoteState} {cs : List Char} (hopen : '\x7b' ∉ cs)
    (hclose : '\x7d' ∉ cs) : balance q cs = 0 :=
  balance_of_clear (clear_of_notMem hopen) (clear_of_notMem hclose)

end Patch

theorem notMem_indent {c : Char} (hc : c ≠ ' ') (depth : Nat) :
    c ∉ (Statement.indent depth).toList := by
  unfold Statement.indent
  rw [String.toList_ofList]
  exact fun hm => hc (List.eq_of_mem_replicate hm)

theorem balance_indent (depth : Nat) (cs : List Char) :
    balance .outside ((Statement.indent depth).toList ++ cs) = balance .outside cs := by
  have hblank : balance .outside (Statement.indent depth).toList = 0 :=
    balance_of_notMem (notMem_indent (by decide) depth) (notMem_indent (by decide) depth)
  have hafter : QuoteState.outside.after (Statement.indent depth).toList = .outside :=
    after_outside (notMem_indent (by decide) depth)
  rw [balance_append, hblank, hafter, Int.zero_add]

section Heads

variable {head : Head} (h : head.WellFormed)
include h

theorem clear_renderTop {mark : Char} (hname : mark ∈ Key.forbidden) (hvalue : mark ∈ Value.triggers)
    (hquote : mark ≠ '"') (value : Option String) :
    Clear mark .outside (Statement.renderTop head value).toList := by
  have hhead : Clear mark .outside head.render.toList := clear_of_notMem (h.notMem hname)
  have hafter : QuoteState.outside.after head.render.toList = .outside :=
    after_outside (h.notMem (by decide))
  cases value with
  | none => exact hhead
  | some v =>
    have hcolon : mark ≠ ':' ∧ mark ≠ ' ' := by
      constructor <;> rintro rfl <;> exact absurd hvalue (by decide)
    rw [show (Statement.renderTop head (some v)).toList =
      head.render.toList ++ ':' :: ' ' :: (Value.quote v).toList by simp [Statement.renderTop],
      clear_append, hafter]
    exact ⟨hhead, fun he => hcolon.1 he.2.symm, fun he => hcolon.2 he.2.symm,
      Value.clear_quote hvalue hquote v⟩

theorem clear_renderOpener {mark : Char} (hname : mark ∈ Key.forbidden)
    (hvalue : mark ∈ Value.triggers) (hquote : mark ≠ '"') (value : Option String) :
    Clear mark .outside (Statement.renderOpener head value).toList := by
  cases value with
  | none =>
    have hcolon : mark ≠ ':' := by
      rintro rfl
      exact absurd hvalue (by decide)
    rw [show (Statement.renderOpener head none).toList = head.render.toList ++ [':'] by
      simp [Statement.renderOpener, Statement.renderTop]]
    exact clear_of_notMem (by simpa using ⟨h.notMem hname, hcolon⟩)
  | some v => exact clear_renderTop h hname hvalue hquote (some v)

end Heads

/-- What the mark after a body adds to the balance. -/
def Marker.opened : Marker → Int
  | .absent | .empty => 0
  | .opening => 1

theorem IsBody.balance_text {head : Head} {value : Option String} {cs : List Char}
    (h : IsBody head value cs) (hcs : balance .outside cs = 0) (depth : Nat) (m : Marker) :
    balance .outside ((Statement.indent depth).toList ++ (cs ++ m.text)) = m.opened := by
  rw [balance_indent, balance_append, hcs, h.outside, Int.zero_add]
  cases m <;> rfl

/-! ### Lines of statements -/

namespace Statement

/-- The mark after the body on the first line of a statement. -/
def marker (s : Statement) : Marker :=
  match s.block with
  | none => .absent
  | some [] => .empty
  | some (_ :: _) => .opening

/-- The body on the first line of a statement. -/
def body (s : Statement) : String :=
  if s.block.isSome then renderOpener s.head s.value else renderTop s.head s.value

theorem isBody_body {s : Statement} (h : s.head.WellFormed) :
    IsBody s.head s.value s.body.toList := by
  unfold body
  split_ifs
  · exact isBody_renderOpener h s.value
  · exact isBody_renderTop h s.value

theorem clear_body {s : Statement} (h : s.head.WellFormed) {mark : Char}
    (hname : mark ∈ Key.forbidden) (hvalue : mark ∈ Value.triggers) (hquote : mark ≠ '"') :
    Clear mark .outside s.body.toList := by
  unfold body
  split_ifs
  · exact clear_renderOpener h hname hvalue hquote s.value
  · exact clear_renderTop h hname hvalue hquote s.value

theorem balance_body {s : Statement} (h : s.head.WellFormed) :
    balance .outside s.body.toList = 0 :=
  balance_of_clear (clear_body h (by decide) (by decide) (by decide))
    (clear_body h (by decide) (by decide) (by decide))

/-- The lines of the block of a statement, and the line that closes it. -/
def innerLines (depth : Nat) (s : Statement) : List String :=
  match s.block with
  | none | some [] => []
  | some (t :: rest) => linesAll (depth + 1) (t :: rest) ++ [indent depth ++ "\x7d"]

/-- **The lines of a statement**: its body with the mark, and what is inside. -/
theorem map_lines (depth : Nat) (s : Statement) : (lines depth s).map String.toList =
    ((indent depth).toList ++ (s.body.toList ++ s.marker.text)) ::
      (innerLines depth s).map String.toList := by
  obtain ⟨head, value, _ | (_ | ⟨t, rest⟩)⟩ := s <;>
    simp [lines, linesAll, body, marker, innerLines, Marker.text]

theorem lines_ne_nil (depth : Nat) (s : Statement) : lines depth s ≠ [] := by
  intro h
  have hmap := map_lines depth s
  rw [h] at hmap
  simp at hmap

theorem linesAll_append (depth : Nat) (ss ts : List Statement) :
    linesAll depth (ss ++ ts) = linesAll depth ss ++ linesAll depth ts := by
  induction ss with
  | nil => simp [linesAll]
  | cons s ss ih => rw [List.cons_append, linesAll, linesAll, ih, List.append_assoc]

section Lines
variable {p : List Char → Prop} {depth : Nat}

theorem forall_mem_linesAll {ss : List Statement}
    (h : ∀ s ∈ ss, ∀ l ∈ (lines depth s).map String.toList, p l) :
    ∀ l ∈ (linesAll depth ss).map String.toList, p l := by
  induction ss with
  | nil => simp [linesAll]
  | cons s ss ih =>
    obtain ⟨hs, hss⟩ := List.forall_mem_cons.mp h
    rw [linesAll, List.map_append]
    exact List.forall_mem_append.mpr ⟨hs, ih hss⟩

/-- What holds of the lines of each statement inside, and of the line that closes a block, holds of all
lines inside. -/
theorem forall_mem_innerLines {s : Statement}
    (h : ∀ t ∈ s.block.getD [], ∀ l ∈ (lines (depth + 1) t).map String.toList, p l)
    (hclose : p (indent depth ++ "\x7d").toList) :
    ∀ l ∈ (innerLines depth s).map String.toList, p l := by
  obtain ⟨head, value, _ | (_ | ⟨t, rest⟩)⟩ := s
  · simp [innerLines]
  · simp [innerLines]
  · have hall : ∀ l ∈ (linesAll (depth + 1) (t :: rest)).map String.toList, p l :=
      forall_mem_linesAll h
    unfold innerLines
    rw [List.map_append]
    exact List.forall_mem_append.mpr ⟨hall, by simpa using hclose⟩

end Lines

theorem length_linesAll_add_le (depth : Nat) {ss ts : List Statement} (h : ss.Sublist ts) :
    (linesAll depth ss).length + ts.length ≤ (linesAll depth ts).length + ss.length := by
  induction h with
  | slnil => exact le_rfl
  | cons s _ ih =>
    have hpos : 0 < (lines depth s).length := List.length_pos_iff.mpr (lines_ne_nil depth s)
    simp only [linesAll, List.length_append, List.length_cons]
    omega
  | cons_cons s _ ih =>
    simp only [linesAll, List.length_append, List.length_cons]
    omega

/-- The body of a statement is its head, with nothing after it or a colon. -/
theorem exists_body (s : Statement) : ∃ rest, ColonLed rest ∧
    s.body.toList ++ s.marker.text = s.head.render.toList ++ rest := by
  obtain ⟨head, value, _ | (_ | ⟨t, rest⟩)⟩ := s <;> cases value <;>
    simp [body, marker, renderOpener, renderTop, Marker.text, ColonLed]

end Statement

/-! ### Removed blocks -/

namespace Patch

variable {isDeclaring : List Char → Bool} {isChosen : Nat → Bool} {ls : List (List Char)}

/-- The lines are passed over while a removed block is open, and leave it as open as it was. -/
def Skipped (isDeclaring : List Char → Bool) (isChosen : Nat → Bool) (ls : List String) : Prop :=
  ∀ (seen : Nat) (depth : Int) (more : List (List Char)), 0 < depth →
    kept isDeclaring isChosen seen depth (ls.map String.toList ++ more) =
      kept isDeclaring isChosen seen depth more

theorem Skipped.linesAll {level : Nat} {ss : List Statement}
    (h : ∀ s ∈ ss, Skipped isDeclaring isChosen (Statement.lines level s)) :
    Skipped isDeclaring isChosen (Statement.linesAll level ss) := by
  induction ss with
  | nil =>
    intro seen depth more hdepth
    rw [Statement.linesAll, List.map_nil, List.nil_append]
  | cons s ss ih =>
    obtain ⟨hs, hss⟩ := List.forall_mem_cons.mp h
    intro seen depth more hdepth
    rw [Statement.linesAll, List.map_append, List.append_assoc, hs seen depth _ hdepth,
      ih hss seen depth more hdepth]

/-- What is inside a statement is passed over, and the block that it opened is closed again. -/
theorem kept_innerLines {s : Statement} {level : Nat}
    (h : ∀ t ∈ s.block.getD [], Skipped isDeclaring isChosen (Statement.lines (level + 1) t))
    (seen : Nat) {depth : Int} (hdepth : 0 ≤ depth) (more : List (List Char)) :
    kept isDeclaring isChosen seen (depth + s.marker.opened)
        ((Statement.innerLines level s).map String.toList ++ more) =
      kept isDeclaring isChosen seen depth more := by
  obtain ⟨head, value, _ | (_ | ⟨t, rest⟩)⟩ := s
  · simp [Statement.marker, Marker.opened, Statement.innerLines]
  · simp [Statement.marker, Marker.opened, Statement.innerLines]
  · have hskip : Skipped isDeclaring isChosen (Statement.linesAll (level + 1) (t :: rest)) :=
      Skipped.linesAll h
    have hclose : balance .outside (Statement.indent level ++ "\x7d").toList = -1 := by
      rw [String.toList_append, balance_indent]
      rfl
    have hopen : 0 < depth + 1 := by omega
    show kept isDeclaring isChosen seen (depth + 1)
      ((Statement.linesAll (level + 1) (t :: rest) ++ [Statement.indent level ++ "\x7d"]).map
        String.toList ++ more) = _
    rw [List.map_append, List.append_assoc, List.map_singleton, List.singleton_append,
      hskip seen _ _ hopen, kept, if_pos hopen, hclose]
    congr 1
    omega

/-- **A removed line takes its whole block along**: all lines of a well-formed statement are passed
over inside a removed block. -/
theorem skipped_lines {s : Statement} (h : s.WellFormed) :
    ∀ level, Skipped isDeclaring isChosen (Statement.lines level s) := by
  induction h with
  | @intro s head block ih =>
    intro level seen depth more hdepth
    have hfirst := (Statement.isBody_body head).balance_text (Statement.balance_body head) level
      s.marker
    have hinner := kept_innerLines (fun t ht => ih t ht (level + 1)) seen (Int.le_of_lt hdepth) more
    rw [Statement.map_lines, List.cons_append, kept, if_pos hdepth, hfirst, hinner]

theorem trim_firstLine {s : Statement} (h : s.head.WellFormed) (level : Nat) :
    trim ((Statement.indent level).toList ++ (s.body.toList ++ s.marker.text)) =
      s.body.toList ++ s.marker.text := by
  have hbody := Statement.isBody_body h
  rw [trim_append_of_blank (isBlank_of_mem_indent level),
    trim_eq_self (hbody.opens.append _) (hbody.closes_text s.marker)]

/-- **A statement whose line is chosen is removed whole.** -/
theorem kept_of_chosen {s : Statement} (h : s.WellFormed) {seen : Nat}
    (hline : isDeclaring (s.body.toList ++ s.marker.text) = true) (hchosen : isChosen seen = true)
    (level : Nat) (more : List (List Char)) :
    kept isDeclaring isChosen seen 0 ((Statement.lines level s).map String.toList ++ more) =
      kept isDeclaring isChosen (seen + 1) 0 more := by
  obtain ⟨head, block⟩ := h
  have hfirst := (Statement.isBody_body head).balance_text (Statement.balance_body head) level
    s.marker
  have hopened : max 0 s.marker.opened = 0 + s.marker.opened := by cases s.marker <;> rfl
  have hskip : ∀ t ∈ s.block.getD [],
      Skipped isDeclaring isChosen (Statement.lines (level + 1) t) :=
    fun t ht => skipped_lines (block t ht) (level + 1)
  rw [Statement.map_lines, List.cons_append, kept, if_neg (Int.lt_irrefl 0), trim_firstLine head,
    if_pos hline, if_pos hchosen, hfirst, hopened, kept_innerLines hskip _ (Int.le_refl 0)]

/-! ### Lines that are kept -/

/-- The number of lines that declare a connection. -/
def declaringCount (isDeclaring : List Char → Bool) (ls : List (List Char)) : Nat :=
  ls.countP fun l => isDeclaring (trim l)

theorem declaringCount_cons_of_pos {line : List Char} (h : isDeclaring (trim line) = true) :
    declaringCount isDeclaring (line :: ls) = declaringCount isDeclaring ls + 1 :=
  List.countP_cons_of_pos h

theorem declaringCount_cons_of_neg {line : List Char} (h : isDeclaring (trim line) = false) :
    declaringCount isDeclaring (line :: ls) = declaringCount isDeclaring ls :=
  List.countP_cons_of_neg (by simp [h])

/-- **Lines in front of the chosen one are kept** and counted. -/
theorem kept_append_of_not_chosen {seen : Nat}
    (h : ∀ k < declaringCount isDeclaring ls, isChosen (seen + k) = false)
    (more : List (List Char)) : kept isDeclaring isChosen seen 0 (ls ++ more) =
      ls ++ kept isDeclaring isChosen (seen + declaringCount isDeclaring ls) 0 more := by
  induction ls generalizing seen with
  | nil => rfl
  | cons line rest ih =>
    rw [List.cons_append, kept, if_neg (Int.lt_irrefl 0)]
    cases hd : isDeclaring (trim line) with
    | true =>
      rw [declaringCount_cons_of_pos hd] at h ⊢
      have hfirst : isChosen seen = false := h 0 (Nat.succ_pos _)
      have hrest : ∀ k < declaringCount isDeclaring rest, isChosen (seen + 1 + k) = false := by
        intro k hk
        rw [Nat.add_right_comm, Nat.add_assoc]
        exact h (k + 1) (Nat.succ_lt_succ hk)
      rw [if_pos rfl, hfirst, if_neg Bool.false_ne_true, ih hrest, List.cons_append,
        Nat.add_right_comm, Nat.add_assoc]
    | false =>
      rw [declaringCount_cons_of_neg hd] at h ⊢
      rw [if_neg Bool.false_ne_true, ih h, List.cons_append]

/-- No line of the text passes for a connection. -/
def Overlooked (isDeclaring : List Char → Bool) (ls : List (List Char)) : Prop :=
  ∀ l ∈ ls, isDeclaring (trim l) = false

theorem declaringCount_eq_zero_iff : declaringCount isDeclaring ls = 0 ↔ Overlooked isDeclaring ls := by
  unfold declaringCount Overlooked
  simp only [List.countP_eq_zero, Bool.not_eq_true]

theorem kept_append {seen : Nat} (h : Overlooked isDeclaring ls) (more : List (List Char)) :
    kept isDeclaring isChosen seen 0 (ls ++ more) = ls ++ kept isDeclaring isChosen seen 0 more := by
  have hcount := declaringCount_eq_zero_iff.mpr h
  have hnone : ∀ k < declaringCount isDeclaring ls, isChosen (seen + k) = false := fun k hk =>
    absurd hk (by omega)
  rw [kept_append_of_not_chosen hnone, hcount, Nat.add_zero]

/-- **A statement whose line is not chosen is kept whole**, if no line inside passes for a
connection. -/
theorem kept_of_not_chosen {s : Statement} (h : s.head.WellFormed) {seen level : Nat}
    (hinner : Overlooked isDeclaring ((Statement.innerLines level s).map String.toList))
    (hchosen : isDeclaring (s.body.toList ++ s.marker.text) = true → isChosen seen = false)
    (more : List (List Char)) :
    kept isDeclaring isChosen seen 0 ((Statement.lines level s).map String.toList ++ more) =
      (Statement.lines level s).map String.toList ++ kept isDeclaring isChosen
        (if isDeclaring (s.body.toList ++ s.marker.text) then seen + 1 else seen) 0 more := by
  rw [Statement.map_lines, List.cons_append, kept, if_neg (Int.lt_irrefl 0), trim_firstLine h,
    List.cons_append]
  split_ifs with hline hseen
  · exact absurd hseen (by simp [hchosen hline])
  · rw [kept_append hinner]
  · rw [kept_append hinner]

end Patch

end BoxDiagram
