import Filewise.Number.Shortest

/-!
# Writing floating-point numbers

The digits of a number are always the shortest ones; what differs between the
places where numbers are written is the layout: up to which size they are
written out in full, how integral numbers are marked, and what the exceptional
values are called.

## Main definitions

* `FloatLayout`: the decisions of one place.
* `FloatLayout.write`: a number in that layout.
* `FloatLayout.json`, `FloatLayout.plain`, `FloatLayout.toml`: the three places.
-/

namespace Filewise

/-- How floating-point numbers are laid out. A number whose decimal point lies
after `n` digits is written in full when `n` is between the two bounds, and with
an exponent otherwise; a missing bound never applies. -/
structure FloatLayout where
  leastPoint : Option Int
  greatestPoint : Option Int
  /-- Follows a number without fractional part that is written in full. -/
  integralMark : String
  notANumber : String
  infinite : String

namespace FloatLayout

/-- Digits written in full, with the decimal point after `point` of them. -/
def inFull (layout : FloatLayout) (digits : List Char) (point : Int) : List Char :=
  let count : Int := digits.length
  if count ≤ point then
    digits ++ List.replicate (point - count).toNat '0' ++ layout.integralMark.toList
  else if 0 < point then
    digits.take point.toNat ++ '.' :: digits.drop point.toNat
  else
    '0' :: '.' :: List.replicate (-point).toNat '0' ++ digits

/-- Digits with one of them before the decimal point, and a power of ten with its
sign and at least two digits. -/
def withExponent (digits : List Char) (point : Int) : List Char :=
  let mantissa := match digits with
    | [] => []
    | [d] => [d]
    | d :: rest => d :: '.' :: rest
  let exponent := point - 1
  let power := Decimal.digitText exponent.natAbs
  mantissa ++ 'e' :: (if exponent < 0 then '-' else '+') ::
    List.replicate (2 - power.length) '0' ++ power

/-- The magnitude of a finite number. -/
def writeMagnitude (layout : FloatLayout) (x : Double) : List Char :=
  if x.magnitude = 0 then '0' :: layout.integralMark.toList
  else
    let decimal := x.shortest
    let digits := Decimal.digitText decimal.digits
    let point := decimal.exponent + digits.length
    let tooSmall := layout.leastPoint.any fun least => point < least
    let tooLarge := layout.greatestPoint.any fun greatest => greatest < point
    if tooSmall || tooLarge then withExponent digits point else layout.inFull digits point

/-- The text of a number. -/
def write (layout : FloatLayout) (x : Double) : String :=
  if x.isNaN then layout.notANumber
  else
    let sign := if x.isNegative then ['-'] else []
    let body := if x.isFinite then layout.writeMagnitude x else layout.infinite.toList
    String.ofList (sign ++ body)

/-- In JSON a number of up to 16 digits before the point or four zeros after it
is written in full, and an integral one keeps a zero after the point. JSON has
no text for the exceptional values, and no value of this library that is written
as JSON holds one. -/
def json : FloatLayout :=
  { leastPoint := some (-4), greatestPoint := some 16, integralMark := ".0"
    notANumber := "null", infinite := "null" }

/-- In a sentence every number is written in full. -/
def plain : FloatLayout :=
  { leastPoint := none, greatestPoint := none, integralMark := ""
    notANumber := "NaN", infinite := "inf" }

/-- In TOML every number is written in full, and an integral one keeps a zero. -/
def toml : FloatLayout := { plain with integralMark := ".0", notANumber := "nan" }

end FloatLayout

end Filewise
