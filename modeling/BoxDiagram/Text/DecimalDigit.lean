/-!
# Text: decimal digits

The 760 characters of the category Nd in Unicode 16. They come in runs of ten, one run for most
scripts, two for some, and five for the mathematical digits.
-/

namespace BoxDiagram.Text

/-- The first code point of each run of decimal digits, with the number of digits in the run. -/
def decimalDigitRuns : List (Nat × Nat) :=
  [(0x30, 10), (0x660, 10), (0x6F0, 10), (0x7C0, 10), (0x966, 10), (0x9E6, 10), (0xA66, 10),
    (0xAE6, 10), (0xB66, 10), (0xBE6, 10), (0xC66, 10), (0xCE6, 10), (0xD66, 10), (0xDE6, 10),
    (0xE50, 10), (0xED0, 10), (0xF20, 10), (0x1040, 10), (0x1090, 10), (0x17E0, 10), (0x1810, 10),
    (0x1946, 10), (0x19D0, 10), (0x1A80, 10), (0x1A90, 10), (0x1B50, 10), (0x1BB0, 10),
    (0x1C40, 10), (0x1C50, 10), (0xA620, 10), (0xA8D0, 10), (0xA900, 10), (0xA9D0, 10),
    (0xA9F0, 10), (0xAA50, 10), (0xABF0, 10), (0xFF10, 10), (0x104A0, 10), (0x10D30, 10),
    (0x10D40, 10), (0x11066, 10), (0x110F0, 10), (0x11136, 10), (0x111D0, 10), (0x112F0, 10),
    (0x11450, 10), (0x114D0, 10), (0x11650, 10), (0x116C0, 10), (0x116D0, 20), (0x11730, 10),
    (0x118E0, 10), (0x11950, 10), (0x11BF0, 10), (0x11C50, 10), (0x11D50, 10), (0x11DA0, 10),
    (0x11F50, 10), (0x16130, 10), (0x16A60, 10), (0x16AC0, 10), (0x16B50, 10), (0x16D70, 10),
    (0x1CCF0, 10), (0x1D7CE, 50), (0x1E140, 10), (0x1E2F0, 10), (0x1E4F0, 10), (0x1E5F1, 10),
    (0x1E950, 10), (0x1FBF0, 10)]

/-- A decimal digit of any script. -/
def isDecimalDigit (c : Char) : Bool :=
  decimalDigitRuns.any fun run => run.1 ≤ c.toNat && c.toNat < run.1 + run.2

theorem isDecimalDigit_of_isDigit {c : Char} (h : c.isDigit = true) :
    isDecimalDigit c = true := by
  simp only [Char.isDigit, Bool.and_eq_true, decide_eq_true_eq, ge_iff_le,
    UInt32.le_iff_toNat_le] at h
  have h48 : (48 : Nat) ≤ c.toNat := h.1
  have h57 : c.toNat ≤ 57 := h.2
  simp only [isDecimalDigit, decimalDigitRuns, List.any_cons, Bool.or_eq_true, Bool.and_eq_true,
    decide_eq_true_eq]
  exact Or.inl ⟨h48, by omega⟩

end BoxDiagram.Text
