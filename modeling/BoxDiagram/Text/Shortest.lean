/-!
# Text: shortest decimals

A double is written with the fewest decimal digits that read back to it. A finite double other than
zero is `m * 2 ^ q` with natural `m`; the reals that round to it lie between the midpoints to its
two neighbours, the ends included when `m` is even. For one digit, two digits and so on the two
neighbours of the value on the decimal grid with that many digits are tried: the first grid with a
hit wins, of two hits the nearer one, and the upper one if both are equally near.

The notation is positional throughout, with no point for an integer.
-/

namespace BoxDiagram.Text

/-- A decimal number: `digits * 10 ^ exponent`. -/
structure Decimal where
  digits : Nat
  exponent : Int
  deriving DecidableEq, Repr

/-- A quotient of natural numbers; the lower part is meant to be positive. -/
structure Quotient where
  upper : Nat
  lower : Nat
  deriving DecidableEq, Repr

namespace Quotient

/-- The value `m * 2 ^ q`. -/
def ofBinary (m : Nat) (q : Int) : Quotient :=
  match q with
  | .ofNat e => ⟨m * Nat.pow 2 e, 1⟩
  | .negSucc e => ⟨m, Nat.pow 2 (e + 1)⟩

/-- Division by a power of ten. -/
def divTen (x : Quotient) (e : Int) : Quotient :=
  match e with
  | .ofNat e => ⟨x.upper, x.lower * Nat.pow 10 e⟩
  | .negSucc e => ⟨x.upper * Nat.pow 10 (e + 1), x.lower⟩

/-- The number `k` with `10 ^ (k - 1) ≤ x < 10 ^ k`, for positive `x`. -/
def magnitude (x : Quotient) : Int :=
  if x.lower ≤ x.upper then (Nat.toDigits 10 (x.upper / x.lower)).length
  else 1 - ((Nat.toDigits 10 ((x.lower - 1) / x.upper)).length : Int)

def lt (x y : Quotient) : Bool := x.upper * y.lower < y.upper * x.lower

end Quotient

/-- The reals that round to a double: the value and the two ends. -/
structure Rounding where
  value : Quotient
  low : Quotient
  high : Quotient
  closed : Bool
  deriving DecidableEq, Repr

/-- The least `m` of a double that is as precise as doubles are. -/
def leastMantissa : Nat := 0x10000000000000

namespace Rounding

/-- The interval of `m * 2 ^ q`. Below a power of two the neighbours are twice as close, except at
the bottom of the range. -/
def ofBinary (m : Nat) (q : Int) : Rounding where
  value := .ofBinary m q
  low := if m = leastMantissa ∧ -1074 < q then .ofBinary (4 * m - 1) (q - 2)
    else .ofBinary (2 * m - 1) (q - 1)
  high := .ofBinary (2 * m + 1) (q - 1)
  closed := m % 2 == 0

/-- The value on the unit `10 ^ e`, scaled by it, reads back. -/
def admits (r : Rounding) (n : Nat) (e : Int) : Bool :=
  let low := r.low.divTen e
  let high := r.high.divTen e
  let x : Quotient := ⟨n, 1⟩
  if r.closed then !x.lt low && !high.lt x else low.lt x && x.lt high

/-- The point of the grid with `count` digits that reads back and is nearest to the value. -/
def onGrid? (r : Rounding) (count : Nat) : Option Decimal :=
  let e := r.value.magnitude - count
  let x := r.value.divTen e
  let below := x.upper / x.lower
  let nearBelow := 2 * (x.upper % x.lower) < x.lower
  match r.admits below e, r.admits (below + 1) e with
  | true, true => some ⟨if nearBelow then below else below + 1, e⟩
  | true, false => some ⟨below, e⟩
  | false, true => some ⟨below + 1, e⟩
  | false, false => none

/-- The shortest decimal; seventeen digits always suffice. -/
def shortest (r : Rounding) : Decimal :=
  ((List.range 17).findSome? fun count => r.onGrid? (count + 1)).getD ⟨0, 0⟩

end Rounding

namespace Decimal

/-- Drops the zeros at the end of the digits. -/
def dropZeros (ds : List Char) : List Char := (ds.reverse.dropWhile (· = '0')).reverse

/-- The positional notation, without needless zeros. -/
def render (d : Decimal) : List Char :=
  let ds := Nat.toDigits 10 d.digits
  match d.exponent with
  | .ofNat e => ds ++ List.replicate e '0'
  | .negSucc e =>
    let padded := List.replicate (e + 2 - ds.length) '0' ++ ds
    let whole := padded.take (padded.length - (e + 1))
    let fraction := dropZeros (padded.drop (padded.length - (e + 1)))
    if fraction = [] then whole else whole ++ '.' :: fraction

end Decimal

/-- The shortest text of a double. -/
def renderFloat (x : Float) : String :=
  let bits := x.toBits.toNat
  let sign := if bits / (2048 * leastMantissa) = 1 then "-" else ""
  let scale : Nat := bits / leastMantissa % 2048
  let mantissa : Nat := bits % leastMantissa
  if scale = 2047 then if mantissa = 0 then sign ++ "inf" else "NaN"
  else if scale = 0 ∧ mantissa = 0 then sign ++ "0"
  else
    let r : Rounding :=
      if scale = 0 then .ofBinary mantissa (-1074)
      else .ofBinary (mantissa + leastMantissa) ((scale : Int) - 1075)
    sign ++ String.ofList r.shortest.render

end BoxDiagram.Text
