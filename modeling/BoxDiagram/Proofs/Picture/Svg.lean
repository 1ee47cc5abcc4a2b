import BoxDiagram.Picture.Svg
import BoxDiagram.Proofs.Picture.Markup

/-!
# The writer at hand is lawful

It writes nodes in the form that is known of writers, whichever way it escapes values, as long as `&`,
`<` and `>` are escaped (`lawful_writer`), and it escapes the double quotes of values as well
(`Writer.lawful_svg`, `Writer.escapesQuotes_svg`).
-/

namespace BoxDiagram

theorem IsReference.of_all {n : List Char} (h : (n.all fun c => c.isAlphanum || c = '#') = true) :
    IsReference ('&' :: (n ++ [';'])) :=
  ⟨n, fun c hc => by simpa using List.all_eq_true.mp h c hc, rfl⟩

/-- Exactly the marks are escaped. -/
def EscapesOnly (written : String → String) (marks : List Char) : Prop :=
  ∃ char : Char → List Char, (∀ s, (written s).toList = s.toList.flatMap char) ∧
    (∀ c ∈ marks, IsReference (char c)) ∧ ∀ c, c ∉ marks → char c = [c]

theorem EscapesOnly.escapes {written : String → String} {marks some : List Char}
    (h : EscapesOnly written marks) (hsome : some ⊆ marks)
    (hmarks : (marks.all fun c => !c.isAlphanum) = true) : Escapes written some := by
  obtain ⟨char, hwritten, hescaped, hself⟩ := h
  refine ⟨char, hwritten, fun c => ?_⟩
  by_cases hc : c ∈ marks
  · exact Or.inl ⟨hescaped c hc, by simpa using List.all_eq_true.mp hmarks c hc⟩
  · exact Or.inr ⟨hself c hc, mt (@hsome c) hc⟩

theorem EscapesOnly.mem_iff {written : String → String} {marks : List Char}
    (h : EscapesOnly written marks) {c : Char} (hc : c.isAlphanum = false)
    (hmarks : c ∉ marks) (hreference : c ∉ ['&', '#', ';']) (s : String) :
    c ∈ (written s).toList ↔ c ∈ s.toList := by
  obtain ⟨char, hwritten, hescaped, hself⟩ := h
  rw [hwritten, List.mem_flatMap]
  constructor
  · rintro ⟨d, hd, hmem⟩
    by_cases hdmarks : d ∈ marks
    · exact absurd hmem ((hescaped d hdmarks).not_mem hc hreference)
    · rw [hself d hdmarks, List.mem_singleton] at hmem
      exact hmem ▸ hd
  · intro hmem
    exact ⟨c, hmem, by rw [hself c hmarks]; exact List.mem_singleton.mpr rfl⟩

namespace Svg

theorem escapesOnly_content : EscapesOnly content ['&', '<', '>'] := by
  refine ⟨escapeInText, fun s => String.toList_ofList, ?_, fun c hc => ?_⟩
  · simp only [List.forall_mem_cons, List.not_mem_nil, false_implies, implies_true, and_true]
    exact ⟨.of_all (n := "amp".toList) (by decide), .of_all (n := "lt".toList) (by decide),
      .of_all (n := "gt".toList) (by decide)⟩
  · simp only [List.mem_cons, List.not_mem_nil, or_false, not_or] at hc
    rw [escapeInText, if_neg hc.1, if_neg hc.2.1, if_neg hc.2.2]

theorem escapesOnly_value : EscapesOnly value ['"', '&', '<', '>'] := by
  refine ⟨escapeInValue, fun s => String.toList_ofList, ?_, fun c hc => ?_⟩
  · simp only [List.forall_mem_cons, List.not_mem_nil, false_implies, implies_true, and_true]
    exact ⟨.of_all (n := "quot".toList) (by decide), .of_all (n := "amp".toList) (by decide),
      .of_all (n := "lt".toList) (by decide), .of_all (n := "gt".toList) (by decide)⟩
  · simp only [List.mem_cons, List.not_mem_nil, or_false, not_or] at hc
    rw [escapeInValue, if_neg hc.1, escapeInText, if_neg hc.2.1, if_neg hc.2.2.1, if_neg hc.2.2.2]

variable {value : String → String}

theorem writeAll_eq (es : List Element) :
    writeAll value es = String.join (es.map fun e => "\n" ++ write value e) := by
  induction es with
  | nil => rfl
  | cons e es ih => rw [writeAll, ih, ← String.toList_inj]; simp

theorem lawful_writer (h : Escapes value ['&', '<', '>']) : (writer value).Lawful where
  names := List.forall_mem_singleton.mpr (by decide)
  value := h
  content := escapesOnly_content.escapes (by simp) (by decide)
  text s := by
    show write value _ = _
    rw [write]
    rfl
  empty name m := by
    show write value _ = _
    rw [write, if_pos List.isEmpty_nil]
    simp [Writer.opener, Writer.written, Writer.binding, attributes, writer, Function.comp_def]
  tag name m e es := by
    show write value _ = _
    rw [write, if_neg (by simp), writeAll_eq]
    simp [Writer.opener, Writer.written, Writer.binding, attributes, writer, Function.comp_def]

end Svg

theorem Writer.lawful_svg : Writer.svg.Lawful :=
  Svg.lawful_writer (Svg.escapesOnly_value.escapes (by simp) (by decide))

theorem Writer.escapesQuotes_svg : Writer.svg.EscapesQuotes :=
  Svg.escapesOnly_value.escapes (by simp) (by decide)

end BoxDiagram
