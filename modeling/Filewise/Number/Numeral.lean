import Filewise.Number.Double
import Filewise.Number.Word

/-!
# Reading numerals

Numbers in the texts that people give: in the arguments of a command, in variables
of the environment, and in paths of settings. Nothing but the numeral may be in the
text.

## Main definitions

* `Numeral.natural?`: digits.
* `Numeral.unsigned?`, `Numeral.signed?`: integers of 64 bits.
* `Numeral.double?`: a floating-point number.
-/

namespace Filewise.Numeral

/-- The number that digits stand for. -/
def ofDigits (digits : List Char) : Nat :=
  digits.foldl (fun n c => 10 * n + (c.toNat - '0'.toNat)) 0

/-- A number of one or more digits. -/
def natural? (text : List Char) : Option Nat :=
  if text.isEmpty || !text.all Char.isDigit then none else some (ofDigits text)

/-- A text without the sign in front, and whether the sign is a minus. -/
def splitSign : List Char → Bool × List Char
  | '+' :: rest => (false, rest)
  | '-' :: rest => (true, rest)
  | text => (false, text)

/-- A natural number of at most 64 bits, perhaps after a plus sign. -/
def unsigned? (text : List Char) : Option Nat :=
  match splitSign text with
  | (true, _) => none
  | (false, digits) => (natural? digits).filter Word.fitsUnsigned

/-- An integer of 64 bits, perhaps after a sign. -/
def signed? (text : List Char) : Option Int :=
  let (negative, digits) := splitSign text
  let n? := (natural? digits).map fun n => if negative then -(n : Int) else n
  n?.filter Word.fitsSigned

/-- The exponent after a number: nothing at all, or a mark and an integer. -/
def exponent? : List Char → Option Int
  | [] => some 0
  | mark :: rest =>
    if mark = 'e' ∨ mark = 'E' then
      let (negative, digits) := splitSign rest
      (natural? digits).map fun n => if negative then -(n : Int) else n
    else none

/-- A number without its sign: digits, of which some may stand after a point, and
perhaps an exponent. -/
def decimal? (negative : Bool) (text : List Char) : Option Double := do
  let whole := text.takeWhile Char.isDigit
  let rest := text.dropWhile Char.isDigit
  let (fraction, rest) := match rest with
    | '.' :: rest => (rest.takeWhile Char.isDigit, rest.dropWhile Char.isDigit)
    | rest => ([], rest)
  if whole.isEmpty && fraction.isEmpty then none
  else
    let exponent ← exponent? rest
    return Double.ofDecimal negative (ofDigits (whole ++ fraction)) (exponent - fraction.length)

/-- A floating-point number. Infinity and what is not a number are given by words in
any case. -/
def double? (text : List Char) : Option Double :=
  let (negative, magnitude) := splitSign text
  let word := String.ofList (magnitude.map Char.toLower)
  if word = "inf" ∨ word = "infinity" then some (Double.infinity negative)
  else if word = "nan" then some (Double.nan.withSign negative)
  else decimal? negative magnitude

end Filewise.Numeral
