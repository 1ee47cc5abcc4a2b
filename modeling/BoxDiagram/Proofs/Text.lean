import BoxDiagram.Text.Blank
import BoxDiagram.Text.Lines
import Mathlib.Tactic.Basic
import Mathlib.Tactic.SplitIfs
import Mathlib.Data.List.Basic
import Mathlib.Data.List.DropRight
import Mathlib.Data.List.TakeWhile

/-!
# Texts: what trimming leaves, and the lines of printed text

A text *opens solid* if it begins with a character that is no blank, and it *closes solid* if it
ends with one. Trimming keeps exactly the texts that do both, the empty one apart
(`trim_eq_self_iff`), a trimmed text is one of these (`trim_trim`), and what trimming takes away are
blanks (`mem_trim_or`); so it leaves nothing exactly of a text of blanks (`trim_eq_nil_iff`). Lines
that hold no line feed and end in no carriage return are read back from the text that writes each
with a line feed after it (`lines_flatMap`).
-/

namespace BoxDiagram.Text

/-! ### Solid ends -/

/-- The text begins with a character that is no blank. -/
def OpensSolid (cs : List Char) : Prop := ∃ c ∈ cs.head?, isBlank c = false

/-- The text ends with a character that is no blank. -/
def ClosesSolid (cs : List Char) : Prop := ∃ c ∈ cs.getLast?, isBlank c = false

theorem OpensSolid.ne_nil {cs : List Char} (h : OpensSolid cs) : cs ≠ [] := by
  rintro rfl
  obtain ⟨c, hc, -⟩ := h
  simp at hc

theorem ClosesSolid.ne_nil {cs : List Char} (h : ClosesSolid cs) : cs ≠ [] := by
  rintro rfl
  obtain ⟨c, hc, -⟩ := h
  simp at hc

theorem opensSolid_cons {c : Char} {cs : List Char} : OpensSolid (c :: cs) ↔ isBlank c = false := by
  simp [OpensSolid]

theorem OpensSolid.append {cs : List Char} (h : OpensSolid cs) (ds : List Char) :
    OpensSolid (cs ++ ds) := by
  obtain ⟨c, hc, hb⟩ := h
  rw [Option.mem_def] at hc
  exact ⟨c, by rw [List.head?_append, hc]; rfl, hb⟩

theorem ClosesSolid.append {ds : List Char} (h : ClosesSolid ds) (cs : List Char) :
    ClosesSolid (cs ++ ds) := by
  obtain ⟨c, hc, hb⟩ := h
  rw [Option.mem_def] at hc
  exact ⟨c, by rw [List.getLast?_append, hc]; rfl, hb⟩

theorem closesSolid_concat {c : Char} {cs : List Char} :
    ClosesSolid (cs ++ [c]) ↔ isBlank c = false := by
  simp [ClosesSolid]

theorem closesSolid_reverse {cs : List Char} : ClosesSolid cs.reverse ↔ OpensSolid cs := by
  simp [ClosesSolid, OpensSolid]

theorem opensSolid_reverse {cs : List Char} : OpensSolid cs.reverse ↔ ClosesSolid cs := by
  simp [ClosesSolid, OpensSolid]

/-! ### Trimming -/

theorem trimStart_eq_self {cs : List Char} (h : OpensSolid cs) : trimStart cs = cs := by
  obtain ⟨c, hc, hb⟩ := h
  obtain ⟨r, rfl⟩ := List.head?_eq_some_iff.mp hc
  unfold trimStart
  rw [List.dropWhile_cons_of_neg (by simp [hb])]

theorem trimEnd_eq_self {cs : List Char} (h : ClosesSolid cs) : trimEnd cs = cs := by
  unfold trimEnd
  have hr := trimStart_eq_self (opensSolid_reverse.mpr h)
  unfold trimStart at hr
  rw [hr, List.reverse_reverse]

theorem trim_eq_self {cs : List Char} (ho : OpensSolid cs) (hc : ClosesSolid cs) :
    trim cs = cs := by
  unfold trim
  rw [trimStart_eq_self ho, trimEnd_eq_self hc]

theorem trim_append_of_blank {bs : List Char} (h : ∀ c ∈ bs, isBlank c = true) (cs : List Char) :
    trim (bs ++ cs) = trim cs := by
  unfold trim trimStart
  rw [List.dropWhile_append_of_pos h]

theorem trim_cons_of_blank {c : Char} (h : isBlank c = true) (cs : List Char) :
    trim (c :: cs) = trim cs :=
  trim_append_of_blank (List.forall_mem_singleton.mpr h) cs

theorem trimEnd_concat_of_blank {c : Char} (h : isBlank c = true) (cs : List Char) :
    trimEnd (cs ++ [c]) = trimEnd cs := by
  unfold trimEnd
  rw [List.reverse_append, List.reverse_singleton, List.singleton_append,
    List.dropWhile_cons_of_pos h]

theorem trimStart_eq_nil_or (cs : List Char) : trimStart cs = [] ∨ OpensSolid (trimStart cs) := by
  by_cases h : trimStart cs = []
  · exact Or.inl h
  · obtain ⟨c, r, hcr⟩ := List.exists_cons_of_ne_nil h
    refine Or.inr ⟨c, by simp [hcr], ?_⟩
    have hb := List.head_dropWhile_not isBlank (l := cs) h
    unfold trimStart at hcr
    simpa [hcr] using hb

theorem trimStart_suffix (cs : List Char) : trimStart cs <:+ cs := List.dropWhile_suffix _

theorem trimEnd_isPrefix (cs : List Char) : trimEnd cs <+: cs := by
  unfold trimEnd
  rw [← List.reverse_suffix, List.reverse_reverse]
  exact List.dropWhile_suffix _

theorem trim_isInfix (cs : List Char) : trim cs <:+: cs :=
  (trimEnd_isPrefix _).isInfix.trans (trimStart_suffix cs).isInfix

theorem exists_trimEnd_append (cs : List Char) :
    ∃ bs, (∀ c ∈ bs, isBlank c = true) ∧ cs = trimEnd cs ++ bs :=
  ⟨cs.rtakeWhile isBlank, fun _ hc => List.mem_rtakeWhile_imp hc,
    List.rdropWhile_append_rtakeWhile.symm⟩

theorem exists_append_trim_append (cs : List Char) : ∃ bs es, (∀ c ∈ bs, isBlank c = true) ∧
    (∀ c ∈ es, isBlank c = true) ∧ cs = bs ++ trim cs ++ es := by
  obtain ⟨es, hes, heq⟩ := exists_trimEnd_append (trimStart cs)
  refine ⟨cs.takeWhile isBlank, es, fun _ hc => List.mem_takeWhile_imp hc, hes, ?_⟩
  have hstart : cs = cs.takeWhile isBlank ++ trimStart cs := List.takeWhile_append_dropWhile.symm
  rw [List.append_assoc, trim, ← heq]
  exact hstart

theorem trim_eq_nil_or (cs : List Char) :
    trim cs = [] ∨ OpensSolid (trim cs) ∧ ClosesSolid (trim cs) := by
  by_cases hne : trim cs = []
  · exact Or.inl hne
  right
  unfold trim at hne ⊢
  constructor
  · rcases trimStart_eq_nil_or cs with h | ⟨c, hc, hb⟩
    · exact absurd (by rw [h]; rfl) hne
    · refine ⟨c, ?_, hb⟩
      obtain ⟨d, r, hdr⟩ := List.exists_cons_of_ne_nil hne
      obtain ⟨t, ht⟩ := trimEnd_isPrefix (trimStart cs)
      rw [← ht, hdr] at hc
      simpa [hdr] using hc
  · unfold trimEnd at hne ⊢
    rw [closesSolid_reverse]
    refine (trimStart_eq_nil_or (trimStart cs).reverse).resolve_left fun h => hne ?_
    rw [show (trimStart cs).reverse.dropWhile isBlank = [] from h, List.reverse_nil]

theorem trim_eq_self_iff {cs : List Char} :
    trim cs = cs ↔ cs = [] ∨ OpensSolid cs ∧ ClosesSolid cs := by
  constructor
  · intro h
    have := trim_eq_nil_or cs
    rwa [h] at this
  · rintro (rfl | ⟨ho, hc⟩)
    · rfl
    · exact trim_eq_self ho hc

theorem trim_trim (cs : List Char) : trim (trim cs) = trim cs :=
  trim_eq_self_iff.mpr (trim_eq_nil_or cs)

theorem trim_concat {c : Char} (h : isBlank c = true) (cs : List Char) :
    trim (cs ++ [c]) = trim cs := by
  rcases trimStart_eq_nil_or cs with hnil | hopens
  · have hblank : ∀ d ∈ cs, isBlank d = true := List.dropWhile_eq_nil_iff.mp hnil
    have hempty : trim cs = [] := by rw [trim, hnil]; rfl
    rw [trim_append_of_blank hblank, trim_cons_of_blank h, hempty]
    rfl
  · have hne : cs.dropWhile isBlank ≠ [] := hopens.ne_nil
    have hstart : trimStart (cs ++ [c]) = trimStart cs ++ [c] := by
      unfold trimStart
      rw [List.dropWhile_append, if_neg (by simpa using hne)]
    unfold trim
    rw [hstart, trimEnd_concat_of_blank h]

theorem mem_trim_or {c : Char} {cs : List Char} (h : c ∈ cs) : c ∈ trim cs ∨ isBlank c = true := by
  obtain ⟨bs, es, hbs, hes, heq⟩ := exists_append_trim_append cs
  rw [heq, List.mem_append, List.mem_append] at h
  rcases h with (hstart | htrim) | hend
  · exact Or.inr (hbs c hstart)
  · exact Or.inl htrim
  · exact Or.inr (hes c hend)

theorem trim_eq_nil_iff {cs : List Char} : trim cs = [] ↔ ∀ c ∈ cs, isBlank c = true := by
  constructor
  · intro h c hc
    have hmem : c ∈ trim cs ∨ isBlank c = true := mem_trim_or hc
    rw [h] at hmem
    exact hmem.resolve_left (List.not_mem_nil)
  · intro h
    have htrim : trim (cs ++ []) = trim [] := trim_append_of_blank h []
    rwa [List.append_nil] at htrim

/-! ### Lines -/

/-- A carriage return at the end of a line is a blank. -/
theorem trim_dropReturn (cs : List Char) : trim (dropReturn cs) = trim cs := by
  unfold dropReturn
  split_ifs with h
  · obtain ⟨front, rfl⟩ := List.getLast?_eq_some_iff.mp h
    rw [List.dropLast_concat, trim_concat (by decide)]
  · rfl

theorem linesOfPieces_cons {piece : List Char} {rest : List (List Char)} (h : rest ≠ []) :
    linesOfPieces (piece :: rest) = dropReturn piece :: linesOfPieces rest := by
  obtain ⟨r, rs, rfl⟩ := List.exists_cons_of_ne_nil h
  rfl

theorem length_splitOn_newline (cs : List Char) :
    (cs.splitOn '\n').length = cs.count '\n' + 1 := by
  induction cs with
  | nil => rfl
  | cons c cs ih =>
    rw [List.splitOn_cons_eq_if_modifyHead, List.count_cons]
    split_ifs with hc
    · rw [List.length_cons, ih]
    · rw [List.length_modifyHead, ih, Nat.add_zero]

theorem lines_append_newline {l : List Char} (h : '\n' ∉ l) (rest : List Char) :
    lines (l ++ '\n' :: rest) = dropReturn l :: lines rest := by
  unfold lines
  rw [List.splitOn_append_cons_self_of_not_mem h, linesOfPieces_cons (List.splitOn_ne_nil _ _)]

/-- The line can be written with a line feed after it and read back. -/
structure IsLine (l : List Char) : Prop where
  noNewline : '\n' ∉ l
  noReturn : l.getLast? ≠ some '\r'

theorem IsLine.dropReturn {l : List Char} (h : IsLine l) : dropReturn l = l := by
  unfold Text.dropReturn
  rw [if_neg h.noReturn]

/-- **Written lines are read back.** -/
theorem lines_flatMap : ∀ {ls : List (List Char)}, (∀ l ∈ ls, IsLine l) →
    lines (ls.flatMap (· ++ ['\n'])) = ls
  | [], _ => by simp [lines, linesOfPieces]
  | l :: ls, h => by
    have hl := h l (List.mem_cons_self ..)
    rw [List.flatMap_cons, List.append_assoc, List.singleton_append,
      lines_append_newline hl.noNewline, hl.dropReturn,
      lines_flatMap fun l' h' => h l' (List.mem_cons_of_mem _ h')]

end BoxDiagram.Text
