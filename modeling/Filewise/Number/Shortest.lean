import Filewise.Number.Double

/-!
# Shortest decimals

A finite number other than zero is written with the fewest decimal digits that
still read back as the same number, and among those with the digits nearest to
its exact value. The reals that read back as a number form an interval around
it, closed when its significand is even. The grids of decimals with 1, 2, … 17
digits are tried in turn; if a grid has a point in the interval at all, then one
of the two neighbours of the exact value is such a point.

## Main definitions

* `Decimal`: `digits · 10 ^ exponent`.
* `Double.shortest`: the shortest decimal that reads back.
-/

namespace Filewise

/-- A decimal number `digits · 10 ^ exponent` without sign. -/
structure Decimal where
  digits : Nat
  exponent : Int
  deriving DecidableEq, Inhabited, Repr

namespace Decimal

/-- The decimal digits of a natural number, most significant first. -/
def digitText (n : Nat) : List Char := Nat.toDigits 10 n

/-- How many decimal digits a natural number has; zero has one. -/
def digitCount (n : Nat) : Nat := (digitText n).length

/-- Moves trailing zeros of the digits into the exponent, `fuel` of them at most. -/
def stripZeros : Nat → Decimal → Decimal
  | 0, d => d
  | fuel + 1, d =>
    if d.digits ≠ 0 ∧ d.digits % 10 = 0 then stripZeros fuel ⟨d.digits / 10, d.exponent + 1⟩
    else d

end Decimal

/-- An exact value between two bounds, all over one denominator. -/
structure RoundingInterval where
  low : Nat
  value : Nat
  high : Nat
  den : Nat
  closed : Bool

namespace RoundingInterval

/-- The reals that read back as a finite number. Below a power of two the
neighbours are twice as close. -/
def ofDouble (x : Double) : RoundingInterval :=
  let (m, e) := x.parts
  let below := if m = Double.leadingWeight ∧ e ≠ -1074 then 1 else 2
  let scale := Nat.pow 2 (e - 2).toNat
  { low := (4 * m - below) * scale
    value := 4 * m * scale
    high := (4 * m + 2) * scale
    den := Nat.pow 2 (2 - e).toNat
    closed := m % 2 = 0 }

/-- Whether the decimal point `digits · 10 ^ exponent` lies in the interval. -/
def contains (r : RoundingInterval) (d : Decimal) : Bool :=
  let point := d.digits * Nat.pow 10 d.exponent.toNat * r.den
  let scale := Nat.pow 10 (-d.exponent).toNat
  if r.closed then r.low * scale ≤ point && point ≤ r.high * scale
  else r.low * scale < point && point < r.high * scale

/-- The position of the decimal point: the least `p` with value below `10 ^ p`. -/
def pointPosition (r : RoundingInterval) : Int :=
  if r.den ≤ r.value then Decimal.digitCount (r.value / r.den)
  else 1 - Decimal.digitCount ((r.den - 1) / r.value)

/-- The nearer of the neighbours of the value on the grid of decimals with the
given exponent, if one of them lies in the interval; a tie goes to the even one. -/
def nearestOnGrid? (r : RoundingInterval) (exponent : Int) : Option Decimal :=
  let value := r.value * Nat.pow 10 (-exponent).toNat
  let unit := r.den * Nat.pow 10 exponent.toNat
  let digits := value / unit
  let lower : Decimal := ⟨digits, exponent⟩
  let upper : Decimal := ⟨digits + 1, exponent⟩
  match r.contains lower, r.contains upper with
  | false, false => none
  | true, false => some lower
  | false, true => some upper
  -- both read back, so the nearer one is taken
  | true, true => some ⟨Double.roundQuotient value unit, exponent⟩

end RoundingInterval

/-- The shortest decimal that reads back as a finite number other than zero. -/
def Double.shortest (x : Double) : Decimal :=
  let r := RoundingInterval.ofDouble x
  let position := r.pointPosition
  let grids := (List.range 17).map fun n => position - (n + 1 : Nat)
  match grids.findSome? r.nearestOnGrid? with
  | some d => d.stripZeros 17
  | none => ⟨0, 0⟩

end Filewise
