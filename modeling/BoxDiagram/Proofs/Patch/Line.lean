import BoxDiagram.Graph.Basic
import BoxDiagram.Patch
import BoxDiagram.Proofs.Attribute

/-!
# Lines: which lines pass for a connection

The line of an edge begins with its source, its arrow and its target, with a blank on each side of
the arrow, and goes on with nothing or with a colon. It is taken to declare a connection if it begins
with one of the spellings of the connection and the target ends there. Since names may hold blanks
and angle brackets, that is so in three ways (`declares_spellings_iff`): the edge has the source and
the arrow of the connection, and the target of the connection is all of its target or is followed by
a blank in it; or the arrow of the edge is `<->`, and one of its two heads is read as the end of the
source or as the beginning of the target. A line that begins with a text without arrows passes for no
connection (`declares_spellings_of_free`).
-/

namespace BoxDiagram.Patch

open Text Arrow

/-- **An id that can stand beside an arrow**: solid at both ends, without arrows and without
forbidden characters. -/
structure IsEndpoint (id : String) : Prop where
  opens : OpensSolid id.toList
  closes : ClosesSolid id.toList
  free : Free id.toList
  allowed : ∀ c ∈ id.toList, c ∉ Key.forbidden

theorem isEndpoint_join {path : List String} (h : IsPath path) : IsEndpoint (Dotted.join path) :=
  ⟨h.opensSolid, h.closesSolid, h.free, h.allowed⟩

/-! ### Spellings -/

/-- What may stand between a name and an arrow. -/
def IsGap (cs : List Char) : Prop := cs = [] ∨ cs = [' ']

/-- A connection as it is spelled with the given gaps around the arrow. -/
def spelled (source : String) (left : List Char) (arrow : Arrow) (right : List Char)
    (target : String) : List Char :=
  source.toList ++ (left ++ (arrow.token.toList ++ (right ++ target.toList)))

/-- The text is the name, or the name with a blank after it. -/
def BeginsWith (name text : List Char) : Prop :=
  ∃ rest, text = name ++ rest ∧ ∀ c ∈ rest.head?, isBlank c = true

/-- Nothing follows, or a colon. -/
def ColonLed (cs : List Char) : Prop := ∀ c ∈ cs.head?, c = ':'

theorem beginsWith_self (name : List Char) : BeginsWith name name :=
  ⟨[], (List.append_nil name).symm, by simp⟩

theorem beginsWith_iff {name text : List Char} : BeginsWith name text ↔
    name <+: text ∧ ∀ c ∈ (text.drop name.length).head?, isBlank c = true := by
  constructor
  · rintro ⟨rest, rfl, h⟩
    exact ⟨List.prefix_append name rest, by rwa [List.drop_left]⟩
  · rintro ⟨⟨rest, rfl⟩, h⟩
    rw [List.drop_left] at h
    exact ⟨rest, rfl, h⟩

instance (name text : List Char) : Decidable (BeginsWith name text) :=
  decidable_of_iff (name <+: text ∧ (text.drop name.length).head?.all isBlank = true) <| by
    rw [beginsWith_iff, Option.all_eq_true]
    rfl

theorem isPrefix_of_notMem {mark : Char} {cs ds rest : List Char} (h : mark ∉ cs)
    (hp : cs <+: ds ++ mark :: rest) : cs <+: ds := by
  obtain ⟨more, hmore⟩ := hp
  rcases List.append_eq_append_iff.mp hmore with ⟨t, ht, -⟩ | ⟨t, ht, ht'⟩
  · exact ⟨t, ht.symm⟩
  · cases t with
    | nil => exact ⟨[], by simpa using ht⟩
    | cons c t =>
      obtain ⟨rfl, -⟩ : mark = c ∧ rest = t ++ more := by simpa using ht'
      exact absurd (by rw [ht]; simp) h

theorem isPrefix_of_colonLed {cs ds rest : List Char} (hrest : ColonLed rest) (h : ':' ∉ cs)
    (hp : cs <+: ds ++ rest) : cs <+: ds := by
  cases rest with
  | nil => rwa [List.append_nil] at hp
  | cons c rest =>
    obtain rfl : c = ':' := hrest c rfl
    exact isPrefix_of_notMem h hp

theorem mem_spellings_iff {source target s : String} {arrow : Arrow} :
    s ∈ spellings source arrow target ↔ ∃ left right, IsGap left ∧ IsGap right ∧
      s.toList = spelled source left arrow right target := by
  have hcons : ∀ t : String, s = t ↔ s.toList = t.toList := fun t => String.toList_inj.symm
  unfold spellings spelled IsGap
  simp only [List.mem_cons, List.not_mem_nil, or_false, hcons, String.toList_append,
    List.append_assoc]
  constructor
  · rintro (h | h | h | h)
    · exact ⟨[], [], Or.inl rfl, Or.inl rfl, h⟩
    · exact ⟨[' '], [], Or.inr rfl, Or.inl rfl, h⟩
    · exact ⟨[], [' '], Or.inl rfl, Or.inr rfl, h⟩
    · exact ⟨[' '], [' '], Or.inr rfl, Or.inr rfl, h⟩
  · rintro ⟨left, right, rfl | rfl, rfl | rfl, h⟩
    · exact Or.inl h
    · exact Or.inr (Or.inr (Or.inl h))
    · exact Or.inr (Or.inl h)
    · exact Or.inr (Or.inr (Or.inr h))

theorem declares_iff {source target : String} {arrow : Arrow} {line : List Char} :
    declares (spellings source arrow target) line = true ↔ ∃ left right rest, IsGap left ∧
      IsGap right ∧ line = spelled source left arrow right target ++ rest ∧
        endsTarget rest = true := by
  unfold declares
  simp only [List.any_eq_true, mem_spellings_iff, Bool.and_eq_true, List.isPrefixOf_iff_prefix]
  constructor
  · rintro ⟨s, ⟨left, right, hleft, hright, hs⟩, ⟨rest, rfl⟩, hends⟩
    rw [List.drop_left] at hends
    exact ⟨left, right, rest, hleft, hright, by rw [hs], hends⟩
  · rintro ⟨left, right, rest, hleft, hright, rfl, hends⟩
    refine ⟨String.ofList (spelled source left arrow right target),
      ⟨left, right, hleft, hright, String.toList_ofList⟩, ?_⟩
    rw [String.toList_ofList, List.drop_left]
    exact ⟨List.prefix_append _ rest, hends⟩

theorem declares_allSpellings_iff {source target : String} {line : List Char} :
    declares (allSpellings source target) line = true ↔
      ∃ arrow, declares (spellings source arrow target) line = true := by
  have hall : ∀ arrow : Arrow, arrow ∈ Arrow.all := by
    intro arrow
    cases arrow <;> decide
  unfold allSpellings declares
  simp only [List.any_flatMap, List.any_eq_true]
  exact ⟨fun ⟨arrow, _, h⟩ => ⟨arrow, h⟩, fun ⟨arrow, h⟩ => ⟨arrow, hall arrow, h⟩⟩

/-! ### Lines without arrows -/

theorem isInfix_spelled (source : String) (left : List Char) (arrow : Arrow) (right : List Char)
    (target : String) : arrow.token.toList <:+: spelled source left arrow right target :=
  ⟨source.toList ++ left, right ++ target.toList, by simp [spelled]⟩

theorem allowed_token (arrow : Arrow) : ∀ c ∈ arrow.token.toList, c ∉ Key.forbidden := by
  intro c hc
  rcases mem_token hc with rfl | rfl | rfl <;> decide

section Endpoints

variable {source target : String} (hs : IsEndpoint source) (ht : IsEndpoint target)
include hs ht

theorem allowed_spelled {left right : List Char} {arrow : Arrow} (hleft : IsGap left)
    (hright : IsGap right) : ∀ c ∈ spelled source left arrow right target, c ∉ Key.forbidden := by
  have hgap : ∀ cs, IsGap cs → ∀ c ∈ cs, c ∉ Key.forbidden := by
    rintro cs (rfl | rfl)
    · simp
    · intro c hc
      obtain rfl := List.mem_singleton.mp hc
      decide
  unfold spelled
  simp only [List.forall_mem_append]
  exact ⟨hs.allowed, hgap left hleft, allowed_token arrow, hgap right hright, ht.allowed⟩

/-- **A line that begins with a text without arrows** passes for no connection. -/
theorem declares_spellings_of_free {arrow : Arrow} {cs rest : List Char} (hfree : Free cs)
    (hrest : ColonLed rest) :
    declares (spellings source arrow target) (cs ++ rest) = false := by
  rw [Bool.eq_false_iff, ne_eq, declares_iff]
  rintro ⟨left, right, more, hleft, hright, hline, -⟩
  have hcolon : ':' ∉ spelled source left arrow right target :=
    fun hm => allowed_spelled hs ht hleft hright _ hm (by decide)
  have hp : spelled source left arrow right target <+: cs :=
    isPrefix_of_colonLed hrest hcolon ⟨more, hline.symm⟩
  exact hfree arrow ((isInfix_spelled ..).trans hp.isInfix)

end Endpoints

/-! ### Lines of edges -/

/-- **The line of the edge passes for the connection**: it has the source and the arrow, and a target
that begins with the target of the connection; or its arrow points both ways, and the head at the
source, or the head at the target, is read as a part of the name beside it. -/
inductive Resembles (source : String) (arrow : Arrow) (target : String) (e : Edge) : Prop
  | plainly (hsource : source = e.source) (harrow : arrow = e.arrow)
      (htarget : BeginsWith target.toList e.target.toList)
  | headInSource (hsource : source = e.source ++ " <") (harrow : arrow = .forward)
      (hboth : e.arrow = .both) (htarget : BeginsWith target.toList e.target.toList)
  | headInTarget (hsource : source = e.source) (harrow : arrow = .backward)
      (hboth : e.arrow = .both) (htarget : BeginsWith target.toList ('>' :: ' ' :: e.target.toList))

theorem resembles_iff {source target : String} {arrow : Arrow} {e : Edge} :
    Resembles source arrow target e ↔
      (source = e.source ∧ arrow = e.arrow ∧ BeginsWith target.toList e.target.toList) ∨
      (source = e.source ++ " <" ∧ arrow = .forward ∧ e.arrow = .both ∧
        BeginsWith target.toList e.target.toList) ∨
      (source = e.source ∧ arrow = .backward ∧ e.arrow = .both ∧
        BeginsWith target.toList ('>' :: ' ' :: e.target.toList)) := by
  constructor
  · rintro (⟨h₁, h₂, h₃⟩ | ⟨h₁, h₂, h₃, h₄⟩ | ⟨h₁, h₂, h₃, h₄⟩)
    · exact Or.inl ⟨h₁, h₂, h₃⟩
    · exact Or.inr (Or.inl ⟨h₁, h₂, h₃, h₄⟩)
    · exact Or.inr (Or.inr ⟨h₁, h₂, h₃, h₄⟩)
  · rintro (⟨h₁, h₂, h₃⟩ | ⟨h₁, h₂, h₃, h₄⟩ | ⟨h₁, h₂, h₃, h₄⟩)
    · exact .plainly h₁ h₂ h₃
    · exact .headInSource h₁ h₂ h₃ h₄
    · exact .headInTarget h₁ h₂ h₃ h₄

instance (source : String) (arrow : Arrow) (target : String) :
    DecidablePred (Resembles source arrow target) := fun _ =>
  decidable_of_iff _ resembles_iff.symm

/-- The text that the line of an edge begins with. -/
def edgeText (e : Edge) : List Char :=
  e.source.toList ++ ' ' :: (e.arrow.token.toList ++ ' ' :: e.target.toList)

theorem resembles_self (e : Edge) : Resembles e.source e.arrow e.target e :=
  .plainly rfl rfl (beginsWith_self _)

theorem Resembles.exists_spelled {source target : String} {arrow : Arrow} {e : Edge}
    (h : Resembles source arrow target e) : ∃ left right, IsGap left ∧ IsGap right ∧
      BeginsWith (spelled source left arrow right target) (edgeText e) := by
  cases h with
  | plainly hsource harrow htarget =>
    obtain ⟨rest, hrest, hblank⟩ := htarget
    refine ⟨[' '], [' '], Or.inr rfl, Or.inr rfl, rest, ?_, hblank⟩
    simp [edgeText, spelled, hsource, harrow, hrest]
  | headInSource hsource harrow hboth htarget =>
    obtain ⟨rest, hrest, hblank⟩ := htarget
    refine ⟨[], [' '], Or.inl rfl, Or.inr rfl, rest, ?_, hblank⟩
    simp [edgeText, spelled, hsource, harrow, hboth, hrest, token]
  | headInTarget hsource harrow hboth htarget =>
    obtain ⟨rest, hrest, hblank⟩ := htarget
    refine ⟨[' '], [], Or.inr rfl, Or.inl rfl, rest, ?_, hblank⟩
    simp [edgeText, spelled, hsource, harrow, hboth, hrest, token]

theorem blank_notMem_token (arrow : Arrow) : ' ' ∉ arrow.token.toList :=
  isSeparator_blank.notMem arrow

/-- A blank in front of a text comes from the gap in front of a solid one. -/
theorem eq_of_gap_append {gap cs rest text : List Char} (hgap : IsGap gap) (hcs : OpensSolid cs)
    (h : gap ++ (cs ++ rest) = ' ' :: text) : cs ++ rest = text := by
  rcases hgap with rfl | rfl
  · obtain ⟨c, hc, hb⟩ := hcs.append rest
    rw [List.nil_append] at h
    rw [h] at hc
    obtain rfl : ' ' = c := by simpa using hc
    exact absurd hb (by decide)
  · simpa using h

theorem opensSolid_token (arrow : Arrow) : OpensSolid arrow.token.toList := by
  cases arrow <;> exact ⟨_, rfl, by decide⟩

/-- A token that stands inside another one is `->` in `<->`. -/
theorem of_token_eq_append {a b : Arrow} {before after : List Char} (hne : before ≠ [])
    (h : b.token.toList = before ++ (a.token.toList ++ after)) :
    a = .forward ∧ b = .both ∧ before = ['<'] ∧ after = [] := by
  -- a token has two or three characters, so one is left in front and none behind
  have hlen : b.token.toList.length = before.length + (a.token.toList.length + after.length) := by
    rw [h, List.length_append, List.length_append]
  have hpos : 0 < before.length := List.length_pos_iff.mpr hne
  have hshort : 2 ≤ a.token.toList.length := by cases a <;> decide
  have htwo : b ≠ .both → b.token.toList.length = 2 := by cases b <;> decide
  by_cases hb : b = .both
  · subst hb
    have hthree : Arrow.both.token.toList.length = 3 := rfl
    obtain ⟨c, rfl⟩ : ∃ c, before = [c] := List.length_eq_one_iff.mp (by omega)
    obtain rfl : after = [] := List.length_eq_zero_iff.mp (by omega)
    obtain ⟨rfl, htoken⟩ : '<' = c ∧ ['-', '>'] = a.token.toList := by simpa [token] using h
    refine ⟨?_, rfl, rfl, rfl⟩
    revert htoken
    cases a <;> decide
  · have := htwo hb
    omega

section Spelled

variable {source target : String} {arrow : Arrow} {left right : List Char} {e : Edge}
  (hleft : IsGap left) (hright : IsGap right) (hopens : OpensSolid target.toList)

include hleft hright hopens in
/-- **Where the sources agree**, the arrows do, or `<-` is read off `<->`. -/
theorem resembles_of_same {rest : List Char} (hsource : source = e.source)
    (hrest : ∀ c ∈ rest.head?, isBlank c = true)
    (h : left ++ (arrow.token.toList ++ (right ++ (target.toList ++ rest))) =
      ' ' :: (e.arrow.token.toList ++ ' ' :: e.target.toList)) :
    Resembles source arrow target e := by
  replace h := eq_of_gap_append hleft (opensSolid_token arrow) h
  have hp : arrow.token.toList <+: e.arrow.token.toList :=
    isPrefix_of_notMem (blank_notMem_token arrow) ⟨_, h⟩
  rcases eq_or_of_token_isPrefix hp with harrow | ⟨harrow, hboth⟩
  · rw [harrow, List.append_cancel_left_eq] at h
    have htarget : target.toList ++ rest = e.target.toList := eq_of_gap_append hright hopens h
    exact .plainly hsource harrow ⟨rest, htarget.symm, hrest⟩
  · have hhead : right ++ (target.toList ++ rest) = '>' :: ' ' :: e.target.toList := by
      simpa [harrow, hboth, token] using h
    have hnil : right = [] := by
      rcases hright with rfl | rfl
      · rfl
      · simp at hhead
    rw [hnil, List.nil_append] at hhead
    exact .headInTarget hsource harrow hboth ⟨rest, hhead.symm, hrest⟩

include hleft hright hopens in
/-- **Where the source goes on after that of the edge**, the arrow of the edge is `<->`, and its
first head ends the source. -/
theorem resembles_of_longer {rest more : List Char} (hs : IsEndpoint source)
    (hrest : ∀ c ∈ rest.head?, isBlank c = true)
    (hsource : source.toList = e.source.toList ++ ' ' :: more)
    (h : more ++ (left ++ (arrow.token.toList ++ (right ++ (target.toList ++ rest)))) =
      e.arrow.token.toList ++ ' ' :: e.target.toList) : Resembles source arrow target e := by
  have hmore : more ≠ [] := by
    rintro rfl
    have hcloses := hs.closes
    rw [hsource] at hcloses
    exact absurd (closesSolid_concat.mp hcloses) (by decide)
  rcases List.append_eq_append_iff.mp h with ⟨z, hz, hz'⟩ | ⟨z, hz, -⟩
  · -- the arrow of the edge is cut by the end of the source
    have hgap : left = [] := by
      rcases hleft with rfl | rfl
      · rfl
      · cases z with
        | nil => exact absurd ⟨e.source.toList ++ [' '], [], by simp [hsource, hz]⟩ (hs.free e.arrow)
        | cons c z =>
          obtain ⟨rfl, -⟩ := List.cons.inj hz'
          exact absurd (by rw [hz]; simp) (blank_notMem_token e.arrow)
    rw [hgap, List.nil_append] at hz'
    obtain ⟨after, rfl⟩ : arrow.token.toList <+: z :=
      isPrefix_of_notMem (blank_notMem_token arrow) ⟨_, hz'⟩
    obtain ⟨harrow, hboth, rfl, rfl⟩ := of_token_eq_append hmore hz
    have htarget : target.toList ++ rest = e.target.toList := by
      refine eq_of_gap_append hright hopens ?_
      simpa using hz'
    have hlonger : source = e.source ++ " <" := by
      rw [← String.toList_inj, hsource, String.toList_append]
      rfl
    exact .headInSource hlonger harrow hboth ⟨rest, htarget.symm, hrest⟩
  · -- the whole arrow of the edge would stand in the source
    exact absurd ⟨e.source.toList ++ [' '], z, by simp [hsource, hz]⟩ (hs.free e.arrow)

include hleft in
/-- **The source cannot end inside that of the edge**: the arrow would stand in it. -/
theorem not_spelled_of_shorter {rest more : List Char} (hfree : Free e.source.toList)
    (hmore : more ≠ []) (hsource : e.source.toList = source.toList ++ more)
    (h : left ++ (arrow.token.toList ++ rest) =
      more ++ ' ' :: (e.arrow.token.toList ++ ' ' :: e.target.toList)) : False := by
  have hsuffix : more <:+: e.source.toList := ⟨source.toList, [], by simp [hsource]⟩
  rcases hleft with rfl | rfl
  · have hp : arrow.token.toList <+: more :=
      isPrefix_of_notMem (blank_notMem_token arrow) ⟨_, h⟩
    exact hfree arrow (hp.isInfix.trans hsuffix)
  · cases more with
    | nil => exact hmore rfl
    | cons c more =>
      obtain ⟨-, h⟩ := List.cons.inj h
      have hp : arrow.token.toList <+: more :=
        isPrefix_of_notMem (blank_notMem_token arrow) ⟨_, h⟩
      exact hfree arrow ((hp.isInfix.trans (List.suffix_cons c more).isInfix).trans hsuffix)

/-- **What begins with a spelling of a connection passes for it.** -/
theorem resembles_of_spelled (hs : IsEndpoint source) (hes : Free e.source.toList)
    (hopens : OpensSolid target.toList) (hleft : IsGap left) (hright : IsGap right)
    (h : BeginsWith (spelled source left arrow right target) (edgeText e)) :
    Resembles source arrow target e := by
  obtain ⟨rest, htext, hrest⟩ := h
  simp only [edgeText, spelled, List.append_assoc] at htext
  rcases List.append_eq_append_iff.mp htext with ⟨more, hmore, h⟩ | ⟨more, hmore, h⟩
  · cases more with
    | nil =>
      have hsame : source = e.source := by simpa [← String.toList_inj] using hmore
      exact resembles_of_same hleft hright hopens hsame hrest h.symm
    | cons c more =>
      obtain ⟨rfl, htail⟩ := List.cons.inj h
      exact resembles_of_longer hleft hright hopens hs hrest hmore htail.symm
  · cases more with
    | nil =>
      have hsame : source = e.source := by simpa [← String.toList_inj] using hmore.symm
      exact resembles_of_same hleft hright hopens hsame hrest h
    | cons c more =>
      exact (not_spelled_of_shorter hleft hes (by simp) hmore h).elim

end Spelled

/-- What a text goes on with after a spelling, in front of a colon. -/
theorem beginsWith_iff_exists {cs text rest : List Char} (hcs : ':' ∉ cs)
    (htext : ∀ c ∈ text, c ∉ Key.forbidden) (hrest : ColonLed rest) :
    BeginsWith cs text ↔ ∃ more, text ++ rest = cs ++ more ∧ endsTarget more = true := by
  constructor
  · rintro ⟨u, rfl, hu⟩
    refine ⟨u ++ rest, List.append_assoc .., ?_⟩
    cases u with
    | cons c u => simp [endsTarget, hu c rfl]
    | nil =>
      cases rest with
      | nil => rfl
      | cons c rest =>
        obtain rfl : c = ':' := hrest c rfl
        rfl
  · rintro ⟨more, hmore, hends⟩
    obtain ⟨u, rfl⟩ : cs <+: text := isPrefix_of_colonLed hrest hcs ⟨more, hmore.symm⟩
    refine ⟨u, rfl, fun c hc => ?_⟩
    obtain ⟨v, rfl⟩ := List.head?_eq_some_iff.mp hc
    rw [List.append_assoc, List.append_cancel_left_eq] at hmore
    have hallowed : c ∉ Key.forbidden := htext c (by simp)
    have hmarks : c ≠ ':' ∧ c ≠ ';' ∧ c ≠ '\x7b' := by
      refine ⟨?_, ?_, ?_⟩ <;> rintro rfl <;> exact hallowed (by decide)
    rw [← hmore] at hends
    simpa [endsTarget, hmarks] using hends

/-- **Which edges have lines that pass for a connection.** -/
theorem declares_spellings_iff {source target : String} {e : Edge} (hs : IsEndpoint source)
    (ht : IsEndpoint target) (hes : IsEndpoint e.source) (het : IsEndpoint e.target) {arrow : Arrow}
    {rest : List Char} (hrest : ColonLed rest) :
    declares (spellings source arrow target) (edgeText e ++ rest) = true ↔
      Resembles source arrow target e := by
  have htext : ∀ c ∈ edgeText e, c ∉ Key.forbidden := by
    unfold edgeText
    simp only [List.forall_mem_append, List.forall_mem_cons]
    exact ⟨hes.allowed, by decide, allowed_token e.arrow, by decide, het.allowed⟩
  have hcolon : ∀ left right, IsGap left → IsGap right →
      ':' ∉ spelled source left arrow right target :=
    fun left right hleft hright hm => allowed_spelled hs ht hleft hright _ hm (by decide)
  rw [declares_iff]
  constructor
  · rintro ⟨left, right, more, hleft, hright, hline, hends⟩
    have hbegins := (beginsWith_iff_exists (hcolon left right hleft hright) htext hrest).mpr
      ⟨more, hline, hends⟩
    exact resembles_of_spelled hs hes.free ht.opens hleft hright hbegins
  · intro h
    obtain ⟨left, right, hleft, hright, hbegins⟩ := h.exists_spelled
    obtain ⟨more, hline, hends⟩ :=
      (beginsWith_iff_exists (hcolon left right hleft hright) htext hrest).mp hbegins
    exact ⟨left, right, more, hleft, hright, hline, hends⟩

end BoxDiagram.Patch
