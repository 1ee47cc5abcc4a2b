import BoxDiagram.Proofs.Key
import BoxDiagram.Proofs.Patch.Block

/-!
# Counting lines: one declaring line and its block

Of the lines that declare a connection, the one with a given number is removed, and with it the lines
that are passed over until the braces are in balance (`kept_nth`). The braces of a whole line are set
off against each other. So where a line closes braces and opens others after that, what is passed over
need not be the block that the removed line opens; where each line has its lowest balance at one of
its ends, it is that block (`skipped_eq_blockLines`). The lines of printed texts are of this kind
(`level_lines`).

Counted in machine words (`stripCounted`), the lines are fewer than words, so the counter does not
overflow, but the number of the line, one more than the index, does for the greatest index
(`keptCounted_checked_eq_none_iff`). With the addition that wraps around this does no harm: the count
is the one without a bound (`stripCounted_wrapping`), which patches go by (`stripKey_eq_stripCounted`).
-/

namespace BoxDiagram.Patch

open Text QuoteState

variable {isDeclaring : List Char → Bool} {isChosen : Nat → Bool} {ls : List (List Char)} {n : Nat}

/-! ### Passing over lines -/

/-- The lines that are passed over while braces are open. -/
def skipped (depth : Int) : List (List Char) → List (List Char)
  | [] => []
  | line :: rest =>
    if 0 < depth then line :: skipped (depth + balance .outside line) rest else []

/-- The lines that are removed with a line. -/
def removedBlock (line : List Char) (rest : List (List Char)) : List (List Char) :=
  skipped (max 0 (balance .outside line)) rest

theorem skipped_of_nonpos {depth : Int} (h : depth ≤ 0) (ls : List (List Char)) :
    skipped depth ls = [] := by
  cases ls with
  | nil => rfl
  | cons line rest => rw [skipped, if_neg (Int.not_lt.mpr h)]

theorem skipped_isPrefix (depth : Int) (ls : List (List Char)) : skipped depth ls <+: ls := by
  induction ls generalizing depth with
  | nil => exact List.prefix_rfl
  | cons line rest ih =>
    rw [skipped]
    split_ifs
    · exact List.cons_prefix_cons.mpr ⟨rfl, ih _⟩
    · exact List.nil_prefix

theorem removedBlock_isPrefix (line : List Char) (rest : List (List Char)) :
    removedBlock line rest <+: rest := skipped_isPrefix _ rest

theorem kept_of_nonpos {seen : Nat} {depth : Int} (h : depth ≤ 0) (ls : List (List Char)) :
    kept isDeclaring isChosen seen depth ls = kept isDeclaring isChosen seen 0 ls := by
  cases ls with
  | nil => rfl
  | cons line rest => rw [kept, kept, if_neg (Int.not_lt.mpr h), if_neg (Int.lt_irrefl 0)]

/-- **Behind the lines that are passed over** no brace is open. -/
theorem kept_skipped (seen : Nat) (depth : Int) (ls : List (List Char)) :
    kept isDeclaring isChosen seen depth ls =
      kept isDeclaring isChosen seen 0 (ls.drop (skipped depth ls).length) := by
  induction ls generalizing depth with
  | nil => rfl
  | cons line rest ih =>
    by_cases hdepth : 0 < depth
    · rw [kept, if_pos hdepth, skipped, if_pos hdepth, List.length_cons, List.drop_succ_cons, ih]
    · have hclosed : depth ≤ 0 := Int.not_lt.mp hdepth
      rw [skipped_of_nonpos hclosed, List.length_nil, List.drop_zero, kept_of_nonpos hclosed]

/-! ### The chosen line -/

theorem kept_eq_self {seen : Nat}
    (h : ∀ k < declaringCount isDeclaring ls, isChosen (seen + k) = false) :
    kept isDeclaring isChosen seen 0 ls = ls := by
  have hkept := kept_append_of_not_chosen h []
  simpa [kept] using hkept

/-- **The line with a number is removed**, with the lines that are removed with it. -/
theorem kept_nth {before rest : List (List Char)} {line : List Char}
    (hline : isDeclaring (trim line) = true) (hcount : declaringCount isDeclaring before = n) :
    kept isDeclaring (· = n) 0 0 (before ++ line :: rest) =
      before ++ rest.drop (removedBlock line rest).length := by
  have hbefore : ∀ k < declaringCount isDeclaring before, decide (0 + k = n) = false := fun k hk =>
    decide_eq_false (by omega)
  have hafter : ∀ ls : List (List Char), ∀ k < declaringCount isDeclaring ls,
      decide (n + 1 + k = n) = false := fun _ k _ => decide_eq_false (by omega)
  rw [kept_append_of_not_chosen hbefore, hcount, Nat.zero_add, kept, if_neg (Int.lt_irrefl 0),
    if_pos hline, if_pos (decide_eq_true rfl), kept_skipped, kept_eq_self (hafter _)]
  rfl

theorem exists_nth : ∀ {ls : List (List Char)} {n : Nat}, n < declaringCount isDeclaring ls →
    ∃ before line rest, ls = before ++ line :: rest ∧ isDeclaring (trim line) = true ∧
      declaringCount isDeclaring before = n
  | [], n, h => absurd h (Nat.not_lt_zero n)
  | line :: rest, n, h => by
    cases hd : isDeclaring (trim line) with
    | false =>
      rw [declaringCount_cons_of_neg hd] at h
      obtain ⟨before, line', rest', rfl, hline', hcount⟩ := exists_nth h
      exact ⟨line :: before, line', rest', rfl, hline', by rw [declaringCount_cons_of_neg hd, hcount]⟩
    | true =>
      rw [declaringCount_cons_of_pos hd] at h
      cases n with
      | zero => exact ⟨[], line, rest, rfl, hd, rfl⟩
      | succ n =>
        obtain ⟨before, line', rest', rfl, hline', hcount⟩ := exists_nth (Nat.lt_of_succ_lt_succ h)
        exact ⟨line :: before, line', rest', rfl, hline',
          by rw [declaringCount_cons_of_pos hd, hcount]⟩

/-! ### Blocks -/

/-- The number of open braces after a text. A brace that closes none of the open ones does not
count. -/
def openAfter : QuoteState → Nat → List Char → Nat
  | _, depth, [] => depth
  | q, depth, c :: rest => openAfter (q.next c) (depth + braceValue q c).toNat rest

/-- Is the last of the open braces closed somewhere in the text? -/
def closes : QuoteState → Nat → List Char → Bool
  | _, depth, [] => depth = 0
  | q, depth, c :: rest => depth = 0 || closes (q.next c) (depth + braceValue q c).toNat rest

/-- The lines up to the one that closes the last of the open braces. -/
def blockLines (depth : Nat) : List (List Char) → List (List Char)
  | [] => []
  | line :: rest =>
    if depth = 0 then []
    else if closes .outside depth line then [line]
    else line :: blockLines (openAfter .outside depth line) rest

/-- The lowest balance on the way through a text, its start included. -/
def lowest : QuoteState → List Char → Int
  | _, [] => 0
  | q, c :: rest => min 0 (braceValue q c + lowest (q.next c) rest)

/-- **A level line** has its lowest balance at one of its ends: it does not both close braces from
before it and leave braces of its own open. -/
def Level (line : List Char) : Prop := lowest .outside line = min 0 (balance .outside line)

instance : DecidablePred Level := fun line =>
  inferInstanceAs (Decidable (lowest .outside line = min 0 (balance .outside line)))

theorem braceValue_bounds (q : QuoteState) (c : Char) :
    -1 ≤ braceValue q c ∧ braceValue q c ≤ 1 := by
  unfold braceValue
  split_ifs <;> decide

theorem lowest_nonpos (q : QuoteState) (cs : List Char) : lowest q cs ≤ 0 := by
  cases cs with
  | nil => exact Int.le_refl 0
  | cons c cs => exact Int.min_le_left ..

theorem lowest_le_balance (q : QuoteState) (cs : List Char) : lowest q cs ≤ balance q cs := by
  induction cs generalizing q with
  | nil => exact Int.le_refl 0
  | cons c cs ih =>
    have hrest := ih (q.next c)
    rw [lowest, balance]
    omega

/-- The braces that are open after a text: those from before, or those that were opened since the
balance was lowest. -/
theorem openAfter_eq (q : QuoteState) (depth : Nat) (cs : List Char) :
    (openAfter q depth cs : Int) = max (depth + balance q cs) (balance q cs - lowest q cs) := by
  induction cs generalizing q depth with
  | nil =>
    rw [openAfter, balance, lowest]
    omega
  | cons c cs ih =>
    have hlowest := lowest_nonpos (q.next c) cs
    rw [openAfter, ih, balance, lowest]
    omega

/-- The last open brace is closed where the balance falls low enough. -/
theorem closes_iff (q : QuoteState) (depth : Nat) (cs : List Char) :
    closes q depth cs = true ↔ depth + lowest q cs ≤ 0 := by
  induction cs generalizing q depth with
  | nil =>
    rw [closes, lowest, decide_eq_true_iff]
    omega
  | cons c cs ih =>
    obtain ⟨hvalue, -⟩ := braceValue_bounds q c
    have hlowest := lowest_nonpos (q.next c) cs
    rw [closes, Bool.or_eq_true, decide_eq_true_iff, ih, lowest]
    omega

section Line
variable {line : List Char}

/-- **On a level line the balance tells how many braces it opens**, and on no other line. -/
theorem level_iff_openAfter :
    Level line ↔ (openAfter .outside 0 line : Int) = max 0 (balance .outside line) := by
  have hle := lowest_le_balance .outside line
  have hnonpos := lowest_nonpos .outside line
  rw [openAfter_eq, Level]
  omega

/-- **On a level line the balance tells whether it closes a block**, and on no other line. -/
theorem level_iff_closes : Level line ↔ ∀ depth : Nat, 0 < depth →
    (closes .outside depth line = true ↔ depth + balance .outside line ≤ 0) := by
  have hle := lowest_le_balance .outside line
  have hnonpos := lowest_nonpos .outside line
  unfold Level
  constructor
  · intro hlevel depth hdepth
    rw [closes_iff]
    omega
  · intro hcloses
    by_contra hlevel
    -- at the depth from which the lowest balance leads just out of the block
    have hdepth := hcloses (-lowest .outside line).toNat (by omega)
    rw [closes_iff] at hdepth
    omega

end Line

/-- **Through level lines, what is passed over is the block.** -/
theorem skipped_eq_blockLines {depth : Nat} (h : ∀ l ∈ skipped depth ls, Level l) :
    skipped depth ls = blockLines depth ls := by
  induction ls generalizing depth with
  | nil => rfl
  | cons line rest ih =>
    rcases Nat.eq_zero_or_pos depth with rfl | hdepth
    · rw [blockLines, if_pos rfl]
      exact skipped_of_nonpos (Int.le_refl 0) _
    · have hpos : (0 : Int) < depth := Int.natCast_pos.mpr hdepth
      rw [skipped, if_pos hpos] at h ⊢
      obtain ⟨hline, hrest⟩ := List.forall_mem_cons.mp h
      have hcloses := level_iff_closes.mp hline depth hdepth
      rw [blockLines, if_neg hdepth.ne']
      by_cases hend : closes .outside depth line = true
      · rw [if_pos hend, skipped_of_nonpos (hcloses.mp hend)]
      · have hopen : depth + balance .outside line = openAfter .outside depth line := by
          have hstays := (not_congr hcloses).mp hend
          have hlow := (not_congr (closes_iff .outside depth line)).mp hend
          rw [openAfter_eq]
          omega
        rw [hopen] at hrest ⊢
        rw [if_neg hend, ih hrest]

/-- The lines of the block that a line opens: up to the one that closes the last of the braces that
the line opens and does not close. -/
def ownBlock (line : List Char) (rest : List (List Char)) : List (List Char) :=
  blockLines (openAfter .outside 0 line) rest

theorem removedBlock_eq_ownBlock {line : List Char} {rest : List (List Char)} (hline : Level line)
    (hrest : ∀ l ∈ removedBlock line rest, Level l) :
    removedBlock line rest = ownBlock line rest := by
  unfold removedBlock at hrest ⊢
  rw [← level_iff_openAfter.mp hline] at hrest ⊢
  exact skipped_eq_blockLines hrest

/-! ### Lines that are not level -/

/-- A line that closes one brace. -/
def closing : List Char := ['\x7d']

theorem length_skipped_closing (depth more : Nat) :
    (skipped depth (List.replicate (depth + more) closing)).length = depth := by
  induction depth with
  | zero =>
    have hnone : skipped (0 : Nat) (List.replicate (0 + more) closing) = [] :=
      skipped_of_nonpos (Int.le_refl 0) _
    rw [hnone, List.length_nil]
  | succ depth ih =>
    have hpos : (0 : Int) < (depth + 1 : Nat) := Int.natCast_pos.mpr (Nat.succ_pos depth)
    have hbalance : ((depth + 1 : Nat) : Int) + balance .outside closing = depth := by
      have hclosing : balance .outside closing = -1 := by decide
      omega
    rw [Nat.add_right_comm, List.replicate_succ, skipped, if_pos hpos, hbalance, List.length_cons, ih]

/-- **A line is level exactly if the lines that are removed with it are its block**, whatever level
lines follow: if it is not level, too few closing braces are passed over. -/
theorem level_iff_removedBlock {line : List Char} : Level line ↔
    ∀ rest, (∀ l ∈ rest, Level l) → removedBlock line rest = ownBlock line rest := by
  have hclosing : Level closing := by decide
  constructor
  · intro hline rest hrest
    exact removedBlock_eq_ownBlock hline fun l hl =>
      hrest l ((removedBlock_isPrefix line rest).subset hl)
  · intro h
    obtain ⟨net, hnet⟩ : ∃ net : Nat, (net : Int) = max 0 (balance .outside line) :=
      ⟨_, Int.toNat_of_nonneg (Int.le_max_left ..)⟩
    obtain ⟨opened, hopened⟩ : ∃ opened, opened = openAfter .outside 0 line := ⟨_, rfl⟩
    have hlines := h (List.replicate (net + opened) closing) fun l hl =>
      List.eq_of_mem_replicate hl ▸ hclosing
    have hall : ∀ l ∈ skipped opened (List.replicate (opened + net) closing), Level l := fun l hl =>
      List.eq_of_mem_replicate ((skipped_isPrefix _ _).subset hl) ▸ hclosing
    have hlength := congrArg List.length hlines
    unfold removedBlock ownBlock at hlength
    rw [← hnet, ← hopened, length_skipped_closing, Nat.add_comm net, ← skipped_eq_blockLines hall,
      length_skipped_closing] at hlength
    rw [level_iff_openAfter, ← hopened, ← hnet, hlength]

/-! ### Printed lines are level -/

theorem lowest_append_of_clear {q : QuoteState} {cs ds : List Char} (hopen : Clear '\x7b' q cs)
    (hclose : Clear '\x7d' q cs) : lowest q (cs ++ ds) = lowest (q.after cs) ds := by
  induction cs generalizing q with
  | nil => rfl
  | cons c cs ih =>
    have hlowest := lowest_nonpos ((q.next c).after cs) ds
    rw [List.cons_append, lowest, braceValue_eq_zero hopen.1 hclose.1, ih hopen.2 hclose.2,
      after_cons]
    omega

theorem Level.append_of_clear {cs ds : List Char} (h : Level ds) (hopen : Clear '\x7b' .outside cs)
    (hclose : Clear '\x7d' .outside cs) (hafter : QuoteState.outside.after cs = .outside) :
    Level (cs ++ ds) := by
  unfold Level at h ⊢
  rw [lowest_append_of_clear hopen hclose, balance_append, balance_of_clear hopen hclose, hafter,
    Int.zero_add, h]

theorem Level.indent {ds : List Char} (h : Level ds) (depth : Nat) :
    Level ((Statement.indent depth).toList ++ ds) :=
  h.append_of_clear (clear_of_notMem (notMem_indent (by decide) depth))
    (clear_of_notMem (notMem_indent (by decide) depth))
    (after_outside (notMem_indent (by decide) depth))

/-- **The lines of a well-formed statement are level**, whatever the values in it. -/
theorem level_lines {s : Statement} (h : s.WellFormed) :
    ∀ depth, ∀ l ∈ (Statement.lines depth s).map String.toList, Level l := by
  induction h with
  | @intro s head block ih =>
    intro depth
    have hmarker : Level s.marker.text := by cases s.marker <;> decide
    have hbody : Level (s.body.toList ++ s.marker.text) :=
      hmarker.append_of_clear (Statement.clear_body head (by decide) (by decide) (by decide))
        (Statement.clear_body head (by decide) (by decide) (by decide))
        (Statement.isBody_body head).outside
    rw [Statement.map_lines]
    refine List.forall_mem_cons.mpr ⟨hbody.indent depth, ?_⟩
    refine Statement.forall_mem_innerLines (fun t ht => ih t ht (depth + 1)) ?_
    rw [String.toList_append]
    exact (show Level "\x7d".toList by decide).indent depth

/-! ### Counting in machine words -/

theorem checkedAdd_one_eq_none_iff {a : UInt64} :
    checkedAdd a 1 = none ↔ a.toNat + 1 = UInt64.size := by
  have hlt : a.toNat < UInt64.size := a.toNat_lt
  have hone : (1 : UInt64).toNat = 1 := rfl
  unfold checkedAdd
  rw [hone]
  split_ifs with h
  · simpa using Nat.ne_of_lt h
  · simpa using by omega

/-- Successors are compared like the words, also where one of them is taken around. -/
theorem add_one_eq_iff {a b : UInt64} : a + 1 = b + 1 ↔ a.toNat = b.toNat := by
  rw [UInt64.toNat_inj]
  exact UInt64.add_left_inj 1

section Words
variable {add : UInt64 → UInt64 → Option UInt64} {index : UInt64}

/-- **Counting in words**: where both additions have a result, the lines are kept as with a counter that
is not bounded. -/
theorem keptCounted_eq (hadd : ∀ a : UInt64, a.toNat + 1 < UInt64.size → add a 1 = some (a + 1))
    (hindex : add index 1 = some (index + 1)) {seen : UInt64} {depth : Int}
    (hroom : seen.toNat + ls.length < UInt64.size) :
    keptCounted add isDeclaring index seen depth ls =
      some (kept isDeclaring (· = index.toNat) seen.toNat depth ls) := by
  induction ls generalizing seen depth with
  | nil => rfl
  | cons line rest ih =>
    rw [List.length_cons] at hroom
    have hseen : seen.toNat + 1 < UInt64.size := by omega
    have hnumber : (seen + 1).toNat = seen.toNat + 1 := by
      rw [UInt64.toNat_add]
      exact Nat.mod_eq_of_lt hseen
    rw [keptCounted, kept]
    by_cases hdepth : 0 < depth
    · rw [if_pos hdepth, if_pos hdepth, ih (by omega)]
    · rw [if_neg hdepth, if_neg hdepth]
      by_cases hline : isDeclaring (trim line) = true
      · have hchosen : seen + 1 = index + 1 ↔ decide (seen.toNat = index.toNat) = true := by
          rw [decide_eq_true_iff, add_one_eq_iff]
        rw [if_pos hline, if_pos hline, hadd seen hseen, hindex]
        simp only [Option.bind_eq_bind, Option.bind_some, hchosen]
        split_ifs
        · rw [ih (by omega), hnumber]
        · rw [ih (by omega), hnumber]
          rfl
      · rw [if_neg hline, if_neg hline, ih (by omega)]
        rfl

theorem keptCounted_of_count_eq_zero {seen : UInt64} (h : declaringCount isDeclaring ls = 0) :
    keptCounted add isDeclaring index seen 0 ls = some ls := by
  induction ls with
  | nil => rfl
  | cons line rest ih =>
    cases hd : isDeclaring (trim line) with
    | true => exact absurd h (by simp [declaringCount_cons_of_pos hd])
    | false =>
      rw [declaringCount_cons_of_neg hd] at h
      rw [keptCounted, if_neg (Int.lt_irrefl 0), hd, if_neg Bool.false_ne_true, ih h]
      rfl

/-- **At the greatest index the count stops** at the first declaring line, if overflows are checked. -/
theorem keptCounted_checked_eq_none_iff (hindex : checkedAdd index 1 = none) :
    keptCounted checkedAdd isDeclaring index 0 0 ls = none ↔ 0 < declaringCount isDeclaring ls := by
  induction ls with
  | nil => simp [keptCounted, declaringCount]
  | cons line rest ih =>
    rw [keptCounted, if_neg (Int.lt_irrefl 0)]
    cases hd : isDeclaring (trim line) with
    | true =>
      rw [if_pos rfl, declaringCount_cons_of_pos hd, hindex]
      simp [checkedAdd]
    | false =>
      rw [if_neg Bool.false_ne_true, declaringCount_cons_of_neg hd, ← ih]
      cases keptCounted checkedAdd isDeclaring index 0 0 rest <;> simp

end Words

/-! ### Stripping by number -/

/-- **What is taken out of the lines of a text**: the declaring line with a number, and the lines that
are removed with it. These are the block that it opens, if all of them are level. -/
structure TakesOut (isDeclaring : List Char → Bool) (n : Nat) (ls before : List (List Char))
    (line : List Char) (block after : List (List Char)) : Prop where
  lines : ls = before ++ line :: (block ++ after)
  declaring : isDeclaring (trim line) = true
  number : declaringCount isDeclaring before = n
  removed : block = removedBlock line (block ++ after)
  own : (∀ l ∈ line :: block, Level l) → block = ownBlock line (block ++ after)

/-- **Where enough lines declare a connection, the one with a number is taken out.** -/
theorem exists_takesOut (h : n < declaringCount isDeclaring ls) : ∃ before line block after,
    TakesOut isDeclaring n ls before line block after ∧
      kept isDeclaring (· = n) 0 0 ls = before ++ after := by
  obtain ⟨before, line, rest, rfl, hline, hcount⟩ := exists_nth h
  obtain ⟨after, hafter⟩ := removedBlock_isPrefix line rest
  have hdrop : rest.drop (removedBlock line rest).length = after := by
    conv_lhs => arg 2; rw [← hafter]
    exact List.drop_left
  refine ⟨before, line, removedBlock line rest, after, ⟨?_, hline, hcount, ?_, fun hlevel => ?_⟩, ?_⟩
  · rw [hafter]
  · rw [hafter]
  · obtain ⟨hfirst, hrest⟩ := List.forall_mem_cons.mp hlevel
    rw [hafter, removedBlock_eq_ownBlock hfirst hrest]
  · rw [kept_nth hline hcount, hdrop]

/-- **In a printed text a line is taken out with its own block**, since all lines are level. -/
theorem TakesOut.eq_ownBlock_of_print {ss : List Statement} (hss : ∀ s ∈ ss, s.WellFormed)
    {before block after : List (List Char)} {line : List Char}
    (h : TakesOut isDeclaring n (Text.lines (Statement.print ss).toList) before line block after) :
    block = ownBlock line (block ++ after) := by
  have hlevel : ∀ l ∈ Text.lines (Statement.print ss).toList, Level l := by
    rw [Statement.lines_print hss]
    exact Statement.forall_mem_linesAll fun s hs => level_lines (hss s hs) 0
  refine h.own fun l hl => hlevel l ?_
  rw [h.lines]
  exact List.mem_append_right _ (List.mem_append_left after hl)

theorem kept_nth_of_count_le (h : declaringCount isDeclaring ls ≤ n) :
    kept isDeclaring (· = n) 0 0 ls = ls :=
  kept_eq_self fun k hk => decide_eq_false (by omega)

theorem strip_nth_eq_none_iff {text : String} : strip isDeclaring (· = n) text = none ↔
    declaringCount isDeclaring (Text.lines text.toList) ≤ n := by
  unfold strip
  dsimp only
  rcases Nat.lt_or_ge n (declaringCount isDeclaring (Text.lines text.toList)) with h | h
  · obtain ⟨before, line, block, after, htakes, hkept⟩ := exists_takesOut h
    have hshorter : (before ++ after).length ≠ (Text.lines text.toList).length := by
      rw [htakes.lines]
      simp only [List.length_append, List.length_cons]
      omega
    rw [hkept, if_neg hshorter]
    simpa using h
  · rw [kept_nth_of_count_le h, if_pos rfl]
    simpa using h

theorem exists_of_strip_nth {text left : String} (h : strip isDeclaring (· = n) text = some left) :
    ∃ before line block after,
      TakesOut isDeclaring n (Text.lines text.toList) before line block after ∧
        left = Statement.textOfLines ((before ++ after).map String.ofList) := by
  have hcount : n < declaringCount isDeclaring (Text.lines text.toList) := by
    by_contra hle
    have hnone : strip isDeclaring (· = n) text = none :=
      strip_nth_eq_none_iff.mpr (Nat.not_lt.mp hle)
    rw [h] at hnone
    simp at hnone
  obtain ⟨before, line, block, after, htakes, hkept⟩ := exists_takesOut hcount
  refine ⟨before, line, block, after, htakes, ?_⟩
  unfold strip at h
  dsimp only at h
  rw [hkept] at h
  split_ifs at h
  exact (Option.some.inj h).symm

section Index
variable {text source target : String} {index : UInt64}

theorem stripCounted_of_count_eq_zero {add : UInt64 → UInt64 → Option UInt64}
    (h : declaringCount (declares (allSpellings source target)) (lines text.toList) = 0) :
    stripCounted add text source target index = some (stripNth text source target index.toNat) := by
  have hnone : stripNth text source target index.toNat = none :=
    strip_nth_eq_none_iff.mpr (h ▸ Nat.zero_le _)
  unfold stripCounted
  dsimp only
  rw [keptCounted_of_count_eq_zero h, hnone, Option.map_some, if_pos rfl]

theorem stripCounted_eq {add : UInt64 → UInt64 → Option UInt64}
    (hroom : (lines text.toList).length < UInt64.size)
    (hadd : ∀ a : UInt64, a.toNat + 1 < UInt64.size → add a 1 = some (a + 1))
    (hindex : add index 1 = some (index + 1)) : stripCounted add text source target index =
      some (stripNth text source target index.toNat) := by
  have hzero : (0 : UInt64).toNat + (lines text.toList).length < UInt64.size := by
    rw [UInt64.toNat_zero, Nat.zero_add]
    exact hroom
  unfold stripCounted
  dsimp only
  rw [keptCounted_eq hadd hindex hzero]
  rfl

/-- **With an addition that wraps around**, the index may be any word. -/
theorem stripCounted_wrapping (hroom : (lines text.toList).length < UInt64.size) :
    stripCounted wrappingAdd text source target index =
      some (stripNth text source target index.toNat) :=
  stripCounted_eq hroom (fun _ _ => rfl) rfl

/-- **The count of a patch is the one in words**, for every key that is read. -/
theorem stripKey_eq_stripCounted {key : String} {k : EdgeKey} (hk : Key.parse key = .ok (.edge k))
    {n : Nat} (hn : k.index = some n) (hroom : (lines text.toList).length < UInt64.size) :
    some (stripKey text k) =
      stripCounted wrappingAdd text k.sourceId k.targetId (UInt64.ofNat n) := by
  have hindex : (UInt64.ofNat n).toNat = n :=
    UInt64.toNat_ofNat_of_lt' (Key.index_lt_of_parse hk hn)
  unfold stripKey
  rw [stripCounted_wrapping hroom, hindex, hn]

/-- **With an addition that checks for overflows**, there is no result exactly for the greatest index
and a text with a declaring line. -/
theorem stripCounted_checked (hroom : (lines text.toList).length < UInt64.size) :
    stripCounted checkedAdd text source target index =
      if index.toNat + 1 = UInt64.size ∧
          0 < declaringCount (declares (allSpellings source target)) (lines text.toList) then none
      else some (stripNth text source target index.toNat) := by
  have hbound : index.toNat < UInt64.size := index.toNat_lt
  split_ifs with hstops
  · obtain ⟨hlast, hcount⟩ := hstops
    rw [← keptCounted_checked_eq_none_iff (checkedAdd_one_eq_none_iff.mpr hlast)] at hcount
    exact Option.map_eq_none_iff.mpr hcount
  · rcases Nat.lt_or_ge (index.toNat + 1) UInt64.size with hindex | hindex
    · exact stripCounted_eq hroom (fun _ ha => if_pos ha) (if_pos hindex)
    · have hlast : index.toNat + 1 = UInt64.size := Nat.le_antisymm hbound hindex
      exact stripCounted_of_count_eq_zero (Nat.eq_zero_of_not_pos fun hcount => hstops ⟨hlast, hcount⟩)

end Index

/-- **Stripping by number is exact up to the braces within a line.** There is no result exactly if no
more lines declare the connection than the number says. Otherwise the declaring line with that number
is taken out, with the lines that are removed with it, and the other lines stay in their order, each
ended by a line feed. Where these lines are level, they are the block that the line opens; with a line
that is not level, for some level lines after it, they are not. Counted in words, the result is the same
for every index of a key, save that an addition that checks for overflows has none for the greatest
index, exactly if there is a declaring line at all. -/
theorem stripNth_exact (text source target : String) :
    (∀ n, stripNth text source target n = none ↔
      declaringCount (declares (allSpellings source target)) (lines text.toList) ≤ n) ∧
    (∀ n left, stripNth text source target n = some left → ∃ before line block after,
      TakesOut (declares (allSpellings source target)) n (lines text.toList) before line block after ∧
        left = Statement.textOfLines ((before ++ after).map String.ofList)) ∧
    (∀ line, Level line ↔ ∀ rest, (∀ l ∈ rest, Level l) →
      removedBlock line rest = ownBlock line rest) ∧
    ((lines text.toList).length < Key.indexBound → ∀ n < Key.indexBound,
      stripCounted wrappingAdd text source target (UInt64.ofNat n) =
          some (stripNth text source target n) ∧
        stripCounted checkedAdd text source target (UInt64.ofNat n) =
          if n + 1 = Key.indexBound ∧
              0 < declaringCount (declares (allSpellings source target)) (lines text.toList) then none
          else some (stripNth text source target n)) := by
  refine ⟨fun _ => strip_nth_eq_none_iff, fun _ _ => exists_of_strip_nth,
    fun _ => level_iff_removedBlock, fun hroom n hn => ?_⟩
  have hwrapping := @stripCounted_wrapping text source target (UInt64.ofNat n) hroom
  have hchecked := @stripCounted_checked text source target (UInt64.ofNat n) hroom
  rw [UInt64.toNat_ofNat_of_lt' hn] at hwrapping hchecked
  exact ⟨hwrapping, hchecked⟩

/-- Two connections between the endpoints, with quoted braces and carriage returns, and one to another
endpoint. -/
def parallel : String :=
  "a -> b: \x7b\r\n  label: \"\x7d\"\r\n\x7d\r\na<->b: \"\x7b\"\r\na -> bc"

/-- A connection whose label is a closing brace, in front of the brace that opens its block. -/
def crossed : String := "a -> b: \x7d \x7b\n  c\n\x7d\nd"

/-- Each of the two connections is taken out with its block, and there is no third one; the greatest
index has no result if overflows are checked. In the other text the block stays behind. -/
theorem stripNth_exact_parallel :
    stripNth parallel "a" "b" 0 = some "a<->b: \"\x7b\"\na -> bc\n" ∧
      stripNth parallel "a" "b" 1 = some "a -> b: \x7b\n  label: \"\x7d\"\n\x7d\na -> bc\n" ∧
      stripNth parallel "a" "b" 2 = none ∧
      stripCounted wrappingAdd parallel "a" "b" 18446744073709551615 = some none ∧
      stripCounted checkedAdd parallel "a" "b" 18446744073709551615 = none ∧
    stripNth crossed "a" "b" 0 = some "  c\n\x7d\nd\n" ∧
      ownBlock "a -> b: \x7d \x7b".toList ["  c".toList, "\x7d".toList, "d".toList] =
        ["  c".toList, "\x7d".toList] := by
  have hroom : (lines parallel.toList).length < Key.indexBound := by decide +kernel
  have hcount : declaringCount (declares (allSpellings "a" "b")) (lines parallel.toList) = 2 := by
    decide +kernel
  obtain ⟨hnone, -, -, hcounted⟩ := stripNth_exact parallel "a" "b"
  obtain ⟨hwrapping, hchecked⟩ := hcounted hroom 18446744073709551615 (by decide)
  have hfew : stripNth parallel "a" "b" 18446744073709551615 = none :=
    (hnone _).mpr (by rw [hcount]; decide)
  refine ⟨by decide +kernel, by decide +kernel, (hnone 2).mpr hcount.le, ?_, ?_, by decide +kernel,
    by decide +kernel⟩
  · rw [hfew] at hwrapping
    exact hwrapping
  · rw [hcount, if_pos ⟨rfl, by decide⟩] at hchecked
    exact hchecked

end BoxDiagram.Patch
