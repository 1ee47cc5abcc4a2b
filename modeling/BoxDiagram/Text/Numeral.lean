/-!
# Text: numerals

Readers for the two kinds of numbers that attribute values and keys hold: natural numbers below a
bound, and decimal numbers with an optional fraction and exponent, which may also be written `inf`,
`infinity` or `nan` in any case.
-/

namespace BoxDiagram.Text

/-- The number that a list of ASCII digits writes. -/
def digitsValue (ds : List Char) : Nat := ds.foldl (fun n d => 10 * n + (d.toNat - 48)) 0

/-- Drops one plus sign in front. -/
def dropPlus : List Char → List Char
  | '+' :: r => r
  | r => r

/-- Reads a natural number below `bound`: an optional plus sign and at least one ASCII digit. -/
def readBelow? (bound : Nat) (s : String) : Option Nat :=
  let ds := dropPlus s.toList
  if ds ≠ [] ∧ ds.all Char.isDigit = true ∧ digitsValue ds < bound then some (digitsValue ds)
  else none

theorem readBelow?_lt {bound n : Nat} {s : String} (h : readBelow? bound s = some n) :
    n < bound := by
  simp only [readBelow?] at h
  split at h
  · next hc => exact Option.some.inj h ▸ hc.2.2
  · simp at h

/-- A decimal number as it is written: an infinity, no number at all, or `digits * 10 ^ exponent`,
with a sign that zero keeps too. -/
inductive Numeral where
  | finite (negative : Bool) (digits : Nat) (exponent : Int)
  | infinite (negative : Bool)
  | notANumber
  deriving DecidableEq, Repr

namespace Numeral

/-- An optional sign, true for a minus, and what follows it. -/
def sign : List Char → Bool × List Char
  | '-' :: r => (true, r)
  | '+' :: r => (false, r)
  | r => (false, r)

/-- Reads the exponent part, which may be missing. -/
def readExponent? : List Char → Option Int
  | [] => some 0
  | c :: r =>
    let (negative, ds) := sign r
    if (c = 'e' ∨ c = 'E') ∧ ds ≠ [] ∧ ds.all Char.isDigit = true then
      some (if negative then -(digitsValue ds : Int) else digitsValue ds)
    else none

/-- Reads digits with an optional point among or around them, then the exponent. -/
def readFinite? (negative : Bool) (cs : List Char) : Option Numeral :=
  let whole := cs.takeWhile Char.isDigit
  let (fraction, rest) := match cs.dropWhile Char.isDigit with
    | '.' :: r => (r.takeWhile Char.isDigit, r.dropWhile Char.isDigit)
    | r => ([], r)
  if whole = [] ∧ fraction = [] then none
  else (readExponent? rest).map fun e =>
    .finite negative (digitsValue (whole ++ fraction)) (e - fraction.length)

/-- Reads a decimal number. -/
def read? (s : String) : Option Numeral :=
  let (negative, cs) := sign s.toList
  let word := String.ofList (cs.map Char.toLower)
  if word = "inf" ∨ word = "infinity" then some (.infinite negative)
  else if word = "nan" then some .notANumber
  else readFinite? negative cs

/-- The nearest double. Magnitudes beyond the range of doubles are settled by their number of
digits alone, so that no power of ten with a huge exponent is formed. -/
def toFloat : Numeral → Float
  | .notANumber => 0.0 / 0.0
  | .infinite negative => if negative then -(1.0 / 0.0) else 1.0 / 0.0
  | .finite negative digits exponent =>
    let places : Int := (Nat.toDigits 10 digits).length + exponent
    let size : Float :=
      if digits = 0 ∨ places < -400 then 0.0
      else if places > 400 then 1.0 / 0.0
      else match exponent with
        | .ofNat e => Float.ofScientific digits false e
        | .negSucc e => Float.ofScientific digits true (e + 1)
    if negative then -size else size

end Numeral

end BoxDiagram.Text
