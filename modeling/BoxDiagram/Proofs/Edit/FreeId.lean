import BoxDiagram.Edit.Basic
import BoxDiagram.Proofs.Graph.WellFormed

/-!
# Free ids

The id that an edit chooses for a name is always free (`freeId_spec`): the numbered names are
distinct, and there are more of them than objects. Numbering a name leaves it a name, and adds no
arrow to it and takes none away (`free_numbered_iff`).

The search for a number is unbounded here. Where the numbers are counted from 2 on in 32 bits with a
sign, it ends at `2 ^ 31 - 1`; as the number chosen is at most two more than there are objects
(`exists_freeId_of_mem`), the two searches differ for graphs of `2 ^ 31 - 2` objects or more only.
-/

namespace BoxDiagram

open Text Dotted

namespace Graph

/-! ### Numbered names -/

theorem isDigit_of_mem_toString {n : Nat} {c : Char} (h : c ∈ (toString n).toList) :
    c.isDigit = true := by
  rw [show toString n = n.repr from rfl, Nat.toList_repr] at h
  exact Nat.isDigit_of_mem_toDigits (by decide) (by decide) h

theorem isBlank_of_isDigit {c : Char} (h : c.isDigit = true) : isBlank c = false := by
  simp only [Char.isDigit, Bool.and_eq_true, decide_eq_true_eq, ge_iff_le,
    UInt32.le_iff_toNat_le] at h
  have h₁ : 48 ≤ c.toNat := h.1
  have h₂ : c.toNat ≤ 57 := h.2
  simp only [isBlank, Bool.or_eq_false_iff, Bool.and_eq_false_iff, decide_eq_false_iff_not,
    beq_eq_false_iff_ne]
  omega

theorem notMem_toString {n : Nat} {c : Char} (h : c.isDigit = false) : c ∉ (toString n).toList :=
  fun hm => by
    rw [isDigit_of_mem_toString hm] at h
    simp at h

theorem closesSolid_toString (n : Nat) : ClosesSolid (toString n).toList := by
  have hne : (toString n).toList ≠ [] := by
    rw [show toString n = n.repr from rfl, Nat.toList_repr]
    exact Nat.toDigits_ne_nil
  refine ⟨(toString n).toList.getLast hne, List.getLast_mem_getLast? hne, ?_⟩
  exact isBlank_of_isDigit (isDigit_of_mem_toString (List.getLast_mem hne))

theorem free_toString (n : Nat) : Arrow.Free (toString n).toList := fun a h => by
  obtain ⟨c, r, hc⟩ := List.exists_cons_of_ne_nil (Arrow.toList_token_ne_nil a)
  have hmem : c ∈ a.token.toList := by rw [hc]; simp
  rcases Arrow.mem_token hmem with rfl | rfl | rfl <;>
    exact notMem_toString (by decide) (h.subset hmem)

theorem ofDigitChars_toString (n : Nat) : Nat.ofDigitChars 10 (toString n).toList 0 = n := by
  rw [show toString n = n.repr from rfl, Nat.toList_repr, Nat.ofDigitChars_ten_toDigits]

theorem toList_numbered (name : String) (n : Nat) :
    (numbered name n).toList = name.toList ++ ' ' :: (toString (n + 2)).toList := by
  simp [numbered]

theorem below_numbered (parent : Option String) (name : String) (n : Nat) :
    below parent (numbered name n) = numbered (below parent name) n := by
  cases parent with
  | none => rfl
  | some p => simp [below, numbered, String.append_assoc]

theorem numbered_injective {name : String} {m n : Nat} (h : numbered name m = numbered name n) :
    m = n := by
  have hdigits := congrArg String.toList h
  rw [toList_numbered, toList_numbered, List.append_cancel_left_eq, List.cons.injEq] at hdigits
  have heq := ofDigitChars_toString (m + 2)
  rw [hdigits.2, ofDigitChars_toString] at heq
  omega

theorem free_numbered_iff {name : String} {n : Nat} :
    Arrow.Free (numbered name n).toList ↔ Arrow.Free name.toList := by
  rw [toList_numbered]
  exact ⟨fun h => h.of_isInfix (List.prefix_append _ _).isInfix,
    fun h => Arrow.free_append Arrow.isSeparator_blank h (free_toString _)⟩

theorem isSegment_numbered {name : String} (h : IsSegment name) (n : Nat) :
    IsSegment (numbered name n) := by
  have hopens : OpensSolid (numbered name n).toList := by
    rw [toList_numbered]
    exact h.solid.1.append _
  have hcloses : ClosesSolid (numbered name n).toList := by
    rw [toList_numbered, ← List.singleton_append, ← List.append_assoc]
    exact (closesSolid_toString _).append _
  have hchars : ∀ c ∈ (numbered name n).toList, c ∈ name.toList ∨ c = ' ' ∨ c.isDigit = true := by
    rw [toList_numbered]
    simp only [List.mem_append, List.mem_cons]
    exact fun c hc => hc.imp_right (Or.imp_right isDigit_of_mem_toString)
  have htrimmed : Text.trimmed (numbered name n) = numbered name n := by
    rw [Text.trimmed, trim_eq_self hopens hcloses, String.ofList_toList]
  have hdot : '.' ∉ (numbered name n).toList := by
    intro hd
    rcases hchars '.' hd with hd | hd | hd
    · exact h.noDot hd
    · exact absurd hd (by decide)
    · exact absurd hd (by decide)
  refine ⟨?_, htrimmed, hdot, ?_⟩
  · intro he
    exact hopens.ne_nil (by rw [he]; rfl)
  · intro c hc hforbidden
    rcases hchars c hc with hm | rfl | hdigit
    · exact h.allowed c hm hforbidden
    · exact absurd hforbidden (by decide)
    · have hnone : Key.forbidden.filter Char.isDigit = [] := by decide
      exact List.filter_eq_nil_iff.mp hnone c hforbidden hdigit

theorem isReserved_numbered (name : String) (n : Nat) :
    Attribute.isReserved (numbered name n) = false := by
  have hblank : ∀ k ∈ Attribute.reserved, ' ' ∉ k.toList := by decide
  unfold Attribute.isReserved
  rw [List.contains_eq_mem, decide_eq_false_iff_not]
  intro hm
  have hnone := hblank _ hm
  rw [toList_numbered] at hnone
  simp at hnone

/-! ### The chosen id -/

variable (g : Graph) (parent : Option String) (name : String)

/-- The ids that are tried after that of the name itself. -/
def candidates : List String :=
  (List.range (g.objects.length + 1)).map fun n => below parent (numbered name n)

theorem nodup_candidates : (g.candidates parent name).Nodup :=
  List.nodup_range.map fun m n he => by
    cases parent with
    | none => exact numbered_injective he
    | some p => exact numbered_injective ((String.append_right_inj _).mp he)

/-- **One of the candidates is free**, since they are more than the objects. -/
theorem exists_free_candidate :
    ∃ id, (g.candidates parent name).find? (!g.contains ·) = some id := by
  cases hfind : (g.candidates parent name).find? (!g.contains ·) with
  | some id => exact ⟨id, rfl⟩
  | none =>
    have hall := List.find?_eq_none.mp hfind
    have hlen : (g.candidates parent name).length ≤ g.ids.length :=
      (nodup_candidates g parent name).length_le_of_subset fun id hid =>
        contains_iff.mp (by simpa using hall id hid)
    simp only [candidates, ids, List.length_map, List.length_range] at hlen
    omega

/-- **The chosen id is free**, and it is that of the name or of a numbered one. -/
theorem freeId_spec : g.freeId parent name ∉ g.ids ∧ (g.freeId parent name = below parent name ∨
    ∃ n, g.freeId parent name = below parent (numbered name n)) := by
  have hdef : g.freeId parent name = if g.contains (below parent name) then
    ((g.candidates parent name).find? (!g.contains ·)).getD (below parent name)
      else below parent name := rfl
  rw [hdef]
  split_ifs with hc
  · obtain ⟨id, hid⟩ := exists_free_candidate g parent name
    have hfree := List.find?_some hid
    obtain ⟨n, -, hn⟩ := List.mem_map.mp (List.mem_of_find?_eq_some hid)
    rw [hid]
    exact ⟨contains_eq_false_iff.mp (by simpa using hfree), Or.inr ⟨n, hn.symm⟩⟩
  · exact ⟨fun h => hc (contains_iff.mpr h), Or.inl rfl⟩

theorem freeId_of_free {parent : Option String} {name : String} (h : below parent name ∉ g.ids) :
    g.freeId parent name = below parent name := by
  unfold freeId
  exact if_neg fun hc => h (contains_iff.mp hc)

/-- **Where the id of the name is taken**, the first free one of the numbered ones is chosen. -/
theorem exists_freeId_of_mem {parent : Option String} {name : String}
    (h : below parent name ∈ g.ids) : ∃ n ≤ g.objects.length,
      g.freeId parent name = below parent (numbered name n) ∧
        below parent (numbered name n) ∉ g.ids ∧
          ∀ m < n, below parent (numbered name m) ∈ g.ids := by
  obtain ⟨id, hid⟩ := exists_free_candidate g parent name
  have hchosen : g.freeId parent name = id := by
    unfold freeId
    dsimp only
    rw [if_pos (contains_iff.mpr h)]
    exact congrArg (·.getD (below parent name)) hid
  unfold candidates at hid
  rw [List.find?_map, Option.map_eq_some_iff] at hid
  obtain ⟨n, hfind, rfl⟩ := hid
  obtain ⟨hfree, hn, hbefore⟩ := List.find?_range_eq_some.mp hfind
  refine ⟨n, Nat.le_of_lt_succ (List.mem_range.mp hn), hchosen,
    contains_eq_false_iff.mp (by simpa using hfree), fun m hm => ?_⟩
  exact contains_iff.mp (by simpa using hbefore m hm)

theorem exists_freeId_eq {name : String} (h : IsSegment name)
    (hr : Attribute.isReserved name = false) : ∃ n, g.freeId parent name = below parent n ∧
      IsSegment n ∧ Attribute.isReserved n = false ∧
        (Arrow.Free n.toList ↔ Arrow.Free name.toList) := by
  rcases (g.freeId_spec parent name).2 with he | ⟨i, he⟩
  · exact ⟨name, he, h, hr, Iff.rfl⟩
  · exact ⟨_, he, isSegment_numbered h i, isReserved_numbered name i, free_numbered_iff⟩

theorem isId_freeId {parent : Option String} {name : String} (hp : ∀ p ∈ parent, IsId p)
    (h : IsObjectName name) : IsId (g.freeId parent name) := by
  obtain ⟨n, he, hsegment, hreserved, hiff⟩ := g.exists_freeId_eq parent h.toIsSegment h.notReserved
  rw [he]
  exact everySegment_below hp hsegment.noDot ⟨⟨hsegment, hiff.mpr h.noArrow⟩, hreserved⟩

end Graph

end BoxDiagram
