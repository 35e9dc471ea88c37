/-!
# Binary floating-point numbers

A floating-point number is kept as its 64-bit pattern, so that two of them are
equal exactly when they are the same number with the same sign. Every operation
goes through the exact rational value of the pattern and rounds once, to the
nearest number with ties to the even neighbour.

## Main definitions

* `Double.parts`: magnitude `m · 2 ^ e` of a finite number.
* `Double.toRat`: the exact value of a finite number.
* `Double.ofFraction`: the nearest number to a fraction.
* `Double.ofDecimal`: the nearest number to `digits · 10 ^ exponent`.
-/

namespace Filewise

/-- A floating-point number of 64 bits: sign, 11 bits of exponent, 52 of fraction. -/
structure Double where
  bits : UInt64
  deriving DecidableEq, Inhabited, Repr

namespace Double

/-- The weight of the sign bit in the pattern. -/
def signWeight : Nat := 0x8000000000000000

/-- The weight of the bit before the fraction, which is not part of the pattern. -/
def leadingWeight : Nat := 0x10000000000000

/-- The pattern without its sign bit. -/
def magnitude (x : Double) : Nat := x.bits.toNat % signWeight

/-- Whether the sign bit is set. -/
def isNegative (x : Double) : Bool := signWeight ≤ x.bits.toNat

/-- The magnitude of infinity; finite numbers lie below it. -/
def infiniteMagnitude : Nat := 0x7FF0000000000000

/-- Neither infinite nor undefined. -/
def isFinite (x : Double) : Bool := x.magnitude < infiniteMagnitude

/-- The result of an undefined operation. -/
def isNaN (x : Double) : Bool := infiniteMagnitude < x.magnitude

/-- Builds a number from its sign and the rest of its pattern. -/
def ofMagnitude (negative : Bool) (magnitude : Nat) : Double :=
  ⟨UInt64.ofNat (magnitude + if negative then signWeight else 0)⟩

/-- Zero, with a sign. -/
def zero (negative : Bool) : Double := ofMagnitude negative 0

/-- Infinity, with a sign. -/
def infinity (negative : Bool) : Double := ofMagnitude negative infiniteMagnitude

/-- The number that stands for an undefined result. -/
def nan : Double := ofMagnitude false 0x7FF8000000000000

/-- The magnitude of a finite number as `m` and `e` with value `m · 2 ^ e`. -/
def parts (x : Double) : Nat × Int :=
  let exponent : Nat := x.magnitude / leadingWeight
  let fraction : Nat := x.magnitude % leadingWeight
  if exponent = 0 then (fraction, -1074)
  else (fraction + leadingWeight, Int.ofNat exponent - 1075)

/-- The magnitude of a finite number as a fraction of two natural numbers. -/
def fraction (x : Double) : Nat × Nat :=
  let (m, e) := x.parts
  (m * Nat.pow 2 e.toNat, Nat.pow 2 (-e).toNat)

/-- The exact value of a finite number. -/
def toRat (x : Double) : Rat :=
  let (num, den) := x.fraction
  mkRat (if x.isNegative then -num else num) den

/-- A finite number without fractional part. -/
def isIntegral (x : Double) : Bool := x.isFinite && x.toRat.den == 1

/-- The quotient of two natural numbers, rounded to the nearest with ties to even. -/
def roundQuotient (num den : Nat) : Nat :=
  let quotient := num / den
  let twice := 2 * (num % den)
  if twice < den then quotient
  else if twice = den then quotient + quotient % 2
  else quotient + 1

/-- The nearest number to `num / den`, where `den` is not zero. The exponent is
chosen so that 53 bits lie before the rounding point, or as many as the smallest
exponent leaves; a rounding that carries moves into the next exponent by itself. -/
def ofFraction (negative : Bool) (num den : Nat) : Double :=
  if num = 0 then zero negative
  else
    let scaled (e : Int) : Nat := num * Nat.pow 2 (-e).toNat / (den * Nat.pow 2 e.toNat)
    -- the guess is right or one too large
    let guess : Int := (num.log2 : Int) - den.log2 - 52
    let e := max (if scaled guess < leadingWeight then guess - 1 else guess) (-1074)
    let m := roundQuotient (num * Nat.pow 2 (-e).toNat) (den * Nat.pow 2 e.toNat)
    -- without the leading bit the number is subnormal
    let magnitude := if m < leadingWeight then (m : Int) else (e + 1074) * leadingWeight + m
    if (infiniteMagnitude : Int) ≤ magnitude then infinity negative
    else ofMagnitude negative magnitude.toNat

/-- The nearest number to `digits · 10 ^ exponent`. Exponents far outside the
range of the format are answered without computing the power. -/
def ofDecimal (negative : Bool) (digits : Nat) (exponent : Int) : Double :=
  if digits = 0 then zero negative
  else if exponent > 400 then infinity negative
  else if exponent + digits.log2 < -400 - 1075 then zero negative
  else ofFraction negative (digits * Nat.pow 10 exponent.toNat) (Nat.pow 10 (-exponent).toNat)

/-- The nearest number to an integer. -/
def ofInt (n : Int) : Double := ofFraction (n < 0) n.natAbs 1

/-- The product of two finite numbers. -/
def mul (x y : Double) : Double :=
  let (a, b) := x.fraction
  let (c, d) := y.fraction
  ofFraction (x.isNegative != y.isNegative) (a * c) (b * d)

/-- The quotient of two finite numbers, the second not zero. -/
def div (x y : Double) : Double :=
  let (a, b) := x.fraction
  let (c, d) := y.fraction
  ofFraction (x.isNegative != y.isNegative) (a * d) (b * c)

/-- The same magnitude with the sign chosen. -/
def withSign (negative : Bool) (x : Double) : Double := ofMagnitude negative x.magnitude

end Double

end Filewise
