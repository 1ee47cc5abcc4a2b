import BoxDiagram.Arrow
import Mathlib.Tactic.Basic
import Mathlib.Data.List.Infix

/-!
# Arrows: texts without arrows, and cutting a chain

A text is free of arrows if none of the four tokens occurs in it. The gaps that cutting leaves are
free (`free_of_mem_cut`), and a text is free exactly if cutting finds no arrow in it
(`cut_snd_eq_nil_iff`). A free text, a blank, a token and another blank in front of a text are cut
off as one gap with its arrow (`cut_append_token`). Without the blanks, the last character of the
free text may belong to a token itself: it is `<` or a dash, and the text runs on into the `->`
(`cut_append_forward`, `exists_cut_of_runsOn`).
-/

namespace BoxDiagram.Arrow

/-- No arrow starts where the text starts. -/
def NoneStarts (cs : List Char) : Prop := ∀ a : Arrow, ¬ a.token.toList <+: cs

/-- **No arrow occurs in the text.** -/
def Free (cs : List Char) : Prop := ∀ a : Arrow, ¬ a.token.toList <:+: cs

theorem toList_token_ne_nil (a : Arrow) : a.token.toList ≠ [] := by cases a <;> decide

theorem mem_token {a : Arrow} {c : Char} (h : c ∈ a.token.toList) : c = '<' ∨ c = '-' ∨ c = '>' := by
  revert c
  cases a <;> simp [token]

/-- A token that begins another one is that one, or is `<-` in front of `<->`. -/
theorem eq_or_of_token_isPrefix {a b : Arrow} (h : a.token.toList <+: b.token.toList) :
    a = b ∨ a = .backward ∧ b = .both := by
  revert h
  cases a <;> cases b <;> decide

theorem noneStarts_cons_of_ne {c : Char} (h₁ : c ≠ '<') (h₂ : c ≠ '-') (cs : List Char) :
    NoneStarts (c :: cs) := by
  intro a h
  obtain ⟨r, hr⟩ := h
  cases a <;> simp [token] at hr <;> exact absurd hr.1.symm (by assumption)

theorem free_nil : Free [] := fun a h => toList_token_ne_nil a (List.infix_nil.mp h)

theorem free_cons {c : Char} {cs : List Char} : Free (c :: cs) ↔ NoneStarts (c :: cs) ∧ Free cs := by
  unfold Free NoneStarts
  simp only [List.infix_cons_iff, not_or, forall_and]

theorem Free.of_isInfix {cs ds : List Char} (h : Free ds) (hi : cs <:+: ds) : Free cs :=
  fun a ha => h a (ha.trans hi)

theorem NoneStarts.of_isPrefix {cs ds : List Char} (h : NoneStarts ds) (hp : cs <+: ds) :
    NoneStarts cs := fun a ha => h a (ha.trans hp)

/-! ### Cutting -/

theorem cut_cons {c : Char} {r : List Char} (h : NoneStarts (c :: r)) :
    cut (c :: r) = (c :: (cut r).1, (cut r).2) := by
  rw [cut]
  · rintro s rfl rfl
    exact h .both ⟨s, rfl⟩
  · rintro s rfl rfl
    exact h .forward ⟨s, rfl⟩
  · rintro s rfl rfl
    exact h .backward ⟨s, rfl⟩
  · rintro s rfl rfl
    exact h .plain ⟨s, rfl⟩

theorem cut_token {a : Arrow} {r : List Char} (h : a = .backward → r.head? ≠ some '>') :
    cut (a.token.toList ++ r) = ([], (a, (cut r).1) :: (cut r).2) := by
  cases a with
  | forward => rfl
  | both => rfl
  | plain => rfl
  | backward =>
    show cut ('<' :: '-' :: r) = _
    rw [cut]
    rintro s rfl
    exact h rfl rfl

theorem cut_fst_isPrefix (cs : List Char) : (cut cs).1 <+: cs := by
  fun_induction cut cs with
  | case1 r rest ih => exact List.nil_prefix
  | case2 r rest ih => exact List.nil_prefix
  | case3 r rest ih => exact List.nil_prefix
  | case4 r rest ih => exact List.nil_prefix
  | case5 c r _ _ _ _ rest ih => exact (List.prefix_cons_inj c).mpr ih
  | case6 => exact List.nil_prefix

theorem noneStarts_of_cut {c : Char} {r : List Char} (h₁ : ∀ s, c = '<' → r = '-' :: '>' :: s → False)
    (h₂ : ∀ s, c = '-' → r = '>' :: s → False) (h₃ : ∀ s, c = '<' → r = '-' :: s → False)
    (h₄ : ∀ s, c = '-' → r = '-' :: s → False) : NoneStarts (c :: r) := by
  rintro a ⟨s, hs⟩
  cases a with
  | forward =>
    obtain ⟨rfl, rfl⟩ : '-' = c ∧ '>' :: s = r := by simpa [token] using hs
    exact h₂ s rfl rfl
  | backward =>
    obtain ⟨rfl, rfl⟩ : '<' = c ∧ '-' :: s = r := by simpa [token] using hs
    exact h₃ s rfl rfl
  | both =>
    obtain ⟨rfl, rfl⟩ : '<' = c ∧ '-' :: '>' :: s = r := by simpa [token] using hs
    exact h₁ s rfl rfl
  | plain =>
    obtain ⟨rfl, rfl⟩ : '-' = c ∧ '-' :: s = r := by simpa [token] using hs
    exact h₄ s rfl rfl

/-- **Induction along the cuts**: a text is empty, or it goes on at a character at which no arrow
starts, or after a token; `<-` only where it does not go on to be `<->`. -/
theorem cutInduction {motive : List Char → Prop} (nil : motive [])
    (gap : ∀ c r, NoneStarts (c :: r) → motive r → motive (c :: r))
    (token : ∀ (a : Arrow) r, (a = .backward → r.head? ≠ some '>') → motive r →
      motive (a.token.toList ++ r)) (cs : List Char) : motive cs := by
  fun_induction cut cs with
  | case1 r rest ih => exact token .both r nofun ih
  | case2 r rest ih => exact token .forward r nofun ih
  | case3 r h rest ih =>
    refine token .backward r (fun _ hr => ?_) ih
    obtain ⟨s, rfl⟩ := List.head?_eq_some_iff.mp hr
    exact h s rfl
  | case4 r rest ih => exact token .plain r nofun ih
  | case5 c r h₁ h₂ h₃ h₄ rest ih => exact gap c r (noneStarts_of_cut h₁ h₂ h₃ h₄) ih
  | case6 => exact nil

/-- **The gaps and the tokens between them make up the text.** -/
theorem append_cut (cs : List Char) :
    (cut cs).1 ++ (cut cs).2.flatMap (fun hop => hop.1.token.toList ++ hop.2) = cs := by
  fun_induction cut cs with
  | case1 r rest ih => simpa [rest, token] using ih
  | case2 r rest ih => simpa [rest, token] using ih
  | case3 r _ rest ih => simpa [rest, token] using ih
  | case4 r rest ih => simpa [rest, token] using ih
  | case5 c r _ _ _ _ rest ih => exact congrArg (c :: ·) ih
  | case6 => rfl

theorem free_hop {a : Arrow} {p : List Char × List (Arrow × List Char)}
    (h : Free p.1 ∧ ∀ hop ∈ p.2, Free hop.2) : Free [] ∧ ∀ hop ∈ (a, p.1) :: p.2, Free hop.2 :=
  ⟨free_nil, List.forall_mem_cons.mpr h⟩

/-- **The gaps are free of arrows.** -/
theorem free_of_mem_cut (cs : List Char) :
    Free (cut cs).1 ∧ ∀ hop ∈ (cut cs).2, Free hop.2 := by
  fun_induction cut cs with
  | case1 r rest ih => exact free_hop ih
  | case2 r rest ih => exact free_hop ih
  | case3 r _ rest ih => exact free_hop ih
  | case4 r rest ih => exact free_hop ih
  | case5 c r h₁ h₂ h₃ h₄ rest ih =>
    -- the gap is a prefix of what follows, so an arrow that starts in it starts there as well
    have hp : c :: (cut r).1 <+: c :: r := (List.prefix_cons_inj c).mpr (cut_fst_isPrefix r)
    have hnone : NoneStarts (c :: r) := noneStarts_of_cut h₁ h₂ h₃ h₄
    exact ⟨free_cons.mpr ⟨hnone.of_isPrefix hp, ih.1⟩, ih.2⟩
  | case6 => exact ⟨free_nil, by simp⟩

theorem cut_of_free : ∀ {cs : List Char}, Free cs → cut cs = (cs, [])
  | [], _ => by simp [cut]
  | c :: r, h => by
    obtain ⟨hs, hr⟩ := free_cons.mp h
    rw [cut_cons hs, cut_of_free hr]

theorem cut_snd_eq_nil_iff {cs : List Char} : (cut cs).2 = [] ↔ Free cs := by
  constructor
  · intro h
    suffices hcs : (cut cs).1 = cs by rw [← hcs]; exact (free_of_mem_cut cs).1
    fun_induction cut cs with
    | case5 c r _ _ _ _ rest ih => rw [show rest.1 = r from ih h]
    | case6 => rfl
    | _ => simp at h
  · intro h
    rw [cut_of_free h]

theorem occursIn_eq_false_iff {s : String} : occursIn s = false ↔ Free s.toList := by
  simp [occursIn, cut_snd_eq_nil_iff]

/-! ### Separators -/

/-- A character that is in no token. -/
def IsSeparator (c : Char) : Prop := c ≠ '<' ∧ c ≠ '-' ∧ c ≠ '>'

theorem IsSeparator.notMem {c : Char} (h : IsSeparator c) (a : Arrow) : c ∉ a.token.toList := by
  intro hm
  rcases mem_token hm with rfl | rfl | rfl
  · exact h.1 rfl
  · exact h.2.1 rfl
  · exact h.2.2 rfl

theorem IsSeparator.noneStarts {c : Char} (h : IsSeparator c) (cs : List Char) :
    NoneStarts (c :: cs) := noneStarts_cons_of_ne h.1 h.2.1 cs

theorem exists_of_isPrefix_append {a : Arrow} {cs ds : List Char} (h : NoneStarts cs)
    (ha : a.token.toList <+: cs ++ ds) : ∃ d u, a.token.toList = cs ++ d :: u ∧ d :: u <+: ds := by
  obtain ⟨s, hs⟩ := ha
  rcases List.append_eq_append_iff.mp hs with ⟨t, ht, -⟩ | ⟨t, ht, ht'⟩
  · exact absurd ⟨t, ht.symm⟩ (h a)
  · cases t with
    | nil => exact absurd ⟨[], by simpa using ht⟩ (h a)
    | cons d u => exact ⟨d, u, ht, ⟨s, ht'.symm⟩⟩

theorem noneStarts_append {c : Char} (hc : IsSeparator c) {cs : List Char} (h : NoneStarts cs)
    (ds : List Char) : NoneStarts (cs ++ c :: ds) := by
  intro a ha
  obtain ⟨d, u, htoken, hbegins⟩ := exists_of_isPrefix_append h ha
  obtain rfl : d = c := (List.cons_prefix_cons.mp hbegins).1
  exact hc.notMem a (by rw [htoken]; simp)

theorem free_append {c : Char} (hc : IsSeparator c) : ∀ {cs ds : List Char}, Free cs → Free ds →
    Free (cs ++ c :: ds)
  | [], _, _, hd => free_cons.mpr ⟨hc.noneStarts _, hd⟩
  | b :: cs, ds, h, hd => by
    obtain ⟨hs, hr⟩ := free_cons.mp h
    have hs' : NoneStarts (b :: (cs ++ c :: ds)) := noneStarts_append hc hs ds
    exact free_cons.mpr ⟨hs', free_append hc hr hd⟩

/-! ### Chains with blanks around the arrows -/

theorem isSeparator_blank : IsSeparator ' ' := by unfold IsSeparator; decide

theorem cut_append_blank : ∀ {cs : List Char}, Free cs → ∀ ds,
    cut (cs ++ ' ' :: ds) = (cs ++ ' ' :: (cut ds).1, (cut ds).2)
  | [], _, ds => cut_cons (isSeparator_blank.noneStarts ds)
  | c :: r, h, ds => by
    obtain ⟨hs, hr⟩ := free_cons.mp h
    have hs' : NoneStarts (c :: (r ++ ' ' :: ds)) := noneStarts_append isSeparator_blank hs ds
    rw [List.cons_append, cut_cons hs', cut_append_blank hr ds]
    rfl

/-- **A gap and its arrow are cut off** in front of a text, with a blank on each side of the
arrow. -/
theorem cut_append_token {cs : List Char} (h : Free cs) (a : Arrow) (ds : List Char) :
    cut (cs ++ ' ' :: (a.token.toList ++ ' ' :: ds)) =
      (cs ++ [' '], (a, ' ' :: (cut ds).1) :: (cut ds).2) := by
  rw [cut_append_blank h, cut_token (by simp), cut_cons (isSeparator_blank.noneStarts ds)]

/-! ### Arrows right after a gap -/

/-- No arrow starts in a text when another text follows. -/
def Apart (cs ds : List Char) : Prop := ∀ c r, c :: r <:+ cs → NoneStarts (c :: r ++ ds)

theorem cut_append_of_apart : ∀ {cs ds : List Char}, Apart cs ds →
    cut (cs ++ ds) = (cs ++ (cut ds).1, (cut ds).2)
  | [], _, _ => rfl
  | c :: r, ds, h => by
    have hc : NoneStarts (c :: (r ++ ds)) := h c r List.suffix_rfl
    have hr : Apart r ds := fun c' r' hs => h c' r' (hs.trans (List.suffix_cons c r))
    rw [List.cons_append, cut_cons hc, cut_append_of_apart hr]
    rfl

/-- **The text runs on into a dash**: a dash right after it makes a token with its last
character. -/
def RunsOn (cs : List Char) : Prop := cs.getLast? = some '<' ∨ cs.getLast? = some '-'

instance : DecidablePred RunsOn := fun _ => instDecidableOr

theorem not_runsOn_of_free_concat {cs : List Char} (h : Free (cs ++ ['-'])) : ¬ RunsOn cs := by
  rintro (hlast | hlast)
  · obtain ⟨s, rfl⟩ := List.getLast?_eq_some_iff.mp hlast
    exact h .backward ⟨s, [], by simp [token]⟩
  · obtain ⟨s, rfl⟩ := List.getLast?_eq_some_iff.mp hlast
    exact h .plain ⟨s, [], by simp [token]⟩

/-- A token that is cut in two does not go on with `<`, and goes on with a dash only after a single
`<` or a single dash. -/
theorem of_token_split {a : Arrow} {c d : Char} {r u : List Char}
    (h : a.token.toList = c :: r ++ d :: u) :
    d ≠ '<' ∧ (d = '-' → r = [] ∧ (c = '<' ∨ c = '-')) := by
  cases a <;> rcases r with _ | ⟨x, _ | ⟨y, r⟩⟩ <;> simp [token] at h ⊢ <;> grind

theorem apart_of_free {cs : List Char} (h : Free cs) (ds : List Char) : Apart cs ('<' :: ds) := by
  intro c r hs a ha
  have hnone : NoneStarts (c :: r) := (free_cons.mp (h.of_isInfix hs.isInfix)).1
  obtain ⟨d, u, htoken, hbegins⟩ := exists_of_isPrefix_append hnone ha
  exact (of_token_split htoken).1 (List.cons_prefix_cons.mp hbegins).1

theorem apart_of_not_runsOn {cs : List Char} (h : Free cs) (hend : ¬ RunsOn cs) (ds : List Char) :
    Apart cs ('-' :: ds) := by
  intro c r hs a ha
  have hnone : NoneStarts (c :: r) := (free_cons.mp (h.of_isInfix hs.isInfix)).1
  obtain ⟨d, u, htoken, hbegins⟩ := exists_of_isPrefix_append hnone ha
  obtain ⟨rfl, hc⟩ := (of_token_split htoken).2 (List.cons_prefix_cons.mp hbegins).1
  obtain ⟨s, rfl⟩ := hs
  unfold RunsOn at hend
  rw [List.getLast?_concat, Option.some_inj, Option.some_inj] at hend
  exact hend hc

/-- **A token that is written right after a gap** is cut off if the gap does not run on into it. -/
theorem cut_append_forward {cs : List Char} (h : Free cs) (hend : ¬ RunsOn cs) (ds : List Char) :
    cut (cs ++ '-' :: '>' :: ds) = (cs, (forward, (cut ds).1) :: (cut ds).2) := by
  have htoken : cut ('-' :: '>' :: ds) = ([], (forward, (cut ds).1) :: (cut ds).2) := rfl
  rw [cut_append_of_apart (apart_of_not_runsOn h hend _), htoken, List.append_nil]

/-- After a `<`, the token `->` is read as `<->`. -/
theorem cut_append_both {cs : List Char} (h : Free cs) (ds : List Char) :
    cut (cs ++ '<' :: '-' :: '>' :: ds) = (cs, (both, (cut ds).1) :: (cut ds).2) := by
  have htoken : cut ('<' :: '-' :: '>' :: ds) = ([], (both, (cut ds).1) :: (cut ds).2) := rfl
  rw [cut_append_of_apart (apart_of_free h _), htoken, List.append_nil]

/-- After a dash, the dash of the token `->` makes the token `--`, and the gap goes on with `>`. -/
theorem cut_append_plain {cs : List Char} (h : Free cs) (hend : ¬ RunsOn cs) (ds : List Char) :
    cut (cs ++ '-' :: '-' :: '>' :: ds) = (cs, (plain, '>' :: (cut ds).1) :: (cut ds).2) := by
  have hgap : cut ('>' :: ds) = ('>' :: (cut ds).1, (cut ds).2) :=
    cut_cons (noneStarts_cons_of_ne (by decide) (by decide) ds)
  have htoken : cut ('-' :: '-' :: '>' :: ds) = ([], (plain, '>' :: (cut ds).1) :: (cut ds).2) := by
    show ([], (plain, (cut ('>' :: ds)).1) :: (cut ('>' :: ds)).2) = _
    rw [hgap]
  rw [cut_append_of_apart (apart_of_not_runsOn h hend _), htoken, List.append_nil]

/-- **A gap that runs on into the token** loses its last character to the arrow. -/
theorem exists_cut_of_runsOn {cs ds : List Char} (h : Free cs) (hd : Free ds) (hend : RunsOn cs) :
    ∃ first a last, cut (cs ++ '-' :: '>' :: ds) = (first, [(a, last)]) ∧
      first.length < cs.length := by
  rcases hend with hlast | hlast
  · obtain ⟨first, rfl⟩ := List.getLast?_eq_some_iff.mp hlast
    have hfirst : Free first := h.of_isInfix (List.prefix_append _ _).isInfix
    refine ⟨first, both, ds, ?_, by simp⟩
    rw [List.append_assoc, List.singleton_append, cut_append_both hfirst, cut_of_free hd]
  · obtain ⟨first, rfl⟩ := List.getLast?_eq_some_iff.mp hlast
    have hfirst : Free first := h.of_isInfix (List.prefix_append _ _).isInfix
    have hend : ¬ RunsOn first := not_runsOn_of_free_concat h
    refine ⟨first, plain, '>' :: ds, ?_, by simp⟩
    rw [List.append_assoc, List.singleton_append, cut_append_plain hfirst hend, cut_of_free hd]

end BoxDiagram.Arrow
