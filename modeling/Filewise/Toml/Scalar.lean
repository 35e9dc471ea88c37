import Filewise.Number.Word
import Filewise.Value

/-!
# TOML scalars

Words that stand for a truth value, a number, or a date and time. Digits may be
grouped by underscores. A date is checked against the calendar and stands for its
normal form, which is a text.

## Main definitions

* `Toml.integer?`, `Toml.float?`, `Toml.dateTime?`.
* `Toml.word?`: the value of a word.
-/

namespace Filewise.Toml

/-! ### Digits -/

/-- The value of a digit in a base of at most 16. -/
def digit? (base : Nat) (c : Char) : Option Nat :=
  let n :=
    if c.isDigit then c.toNat - '0'.toNat
    else if 'a' ≤ c ∧ c ≤ 'f' then c.toNat - 'a'.toNat + 10
    else if 'A' ≤ c ∧ c ≤ 'F' then c.toNat - 'A'.toNat + 10
    else base
  if n < base then some n else none

/-- Digits without the underscores between them, each of which has to stand between
two digits. -/
def ungrouped? (base : Nat) (isInside : Bool) : List Char → Option (List Nat)
  | [] => if isInside then some [] else none
  | '_' :: c :: rest =>
    if isInside then do
      let n ← digit? base c
      return n :: (← ungrouped? base true rest)
    else none
  | c :: rest => do
    let n ← digit? base c
    return n :: (← ungrouped? base true rest)

/-- The digits of a number, at least one. -/
def digits? (base : Nat) (text : List Char) : Option (List Nat) := ungrouped? base false text

/-- The number that digits stand for. -/
def number (base : Nat) (digits : List Nat) : Nat := digits.foldl (fun n d => base * n + d) 0

/-- Decimal digits without a zero in front. -/
def decimal? (text : List Char) : Option (List Nat) :=
  match digits? 10 text with
  | some (0 :: _ :: _) => none
  | digits => digits

/-- A text without its sign, and whether the sign is a minus. -/
def signed : List Char → Bool × List Char
  | '+' :: rest => (false, rest)
  | '-' :: rest => (true, rest)
  | text => (false, text)

/-! ### Numbers -/

/-- An integer of 64 bits. -/
def integer? (text : List Char) : Option Int :=
  let n? : Option Int := match text with
    | '0' :: 'x' :: rest => (digits? 16 rest).map fun d => number 16 d
    | '0' :: 'o' :: rest => (digits? 8 rest).map fun d => number 8 d
    | '0' :: 'b' :: rest => (digits? 2 rest).map fun d => number 2 d
    | text =>
      let (negative, magnitude) := signed text
      (decimal? magnitude).map fun d => if negative then -(number 10 d : Int) else number 10 d
  n?.filter Word.fitsSigned

/-- The exponent after its mark, or zero without a mark. -/
def exponent? : List Char → Option Int
  | [] => some 0
  | _ :: rest =>
    let (negative, magnitude) := signed rest
    (digits? 10 magnitude).map fun d => if negative then -(number 10 d : Int) else number 10 d

/-- The fractional digits after the point; none without a point. -/
def fraction? : List Char → Option (List Nat)
  | [] => some []
  | _ :: rest => digits? 10 rest

/-- A floating-point number. One that is too large is refused unless it is negative. -/
def float? (text : List Char) : Option Double :=
  let (negative, magnitude) := signed text
  if magnitude = ['i', 'n', 'f'] then some (Double.infinity negative)
  else if magnitude = ['n', 'a', 'n'] then some (Double.nan.withSign negative)
  else
    let isMark (c : Char) : Bool := c == 'e' || c == 'E'
    let mantissa := magnitude.takeWhile fun c => !isMark c
    let power := magnitude.dropWhile fun c => !isMark c
    let whole := mantissa.takeWhile (· != '.')
    let fraction := mantissa.dropWhile (· != '.')
    if power.isEmpty && fraction.isEmpty then none
    else do
      let w ← decimal? whole
      let f ← fraction? fraction
      let e ← exponent? power
      let x := Double.ofDecimal negative (number 10 (w ++ f)) (e - f.length)
      if x = Double.infinity false then none else some x

/-! ### Dates and times -/

/-- A number of exactly the given number of digits, not below and not above bounds. -/
def fixed? (width least greatest : Nat) (text : List Char) : Option Nat :=
  if text.length = width then do
    let digits ← text.mapM (digit? 10)
    let n := number 10 digits
    if least ≤ n ∧ n ≤ greatest then some n else none
  else none

/-- A number with zeros in front up to a width. -/
def padded (width n : Nat) : List Char :=
  let digits := Nat.toDigits 10 n
  List.replicate (width - digits.length) '0' ++ digits

/-- Whether a year has a 29th of February. -/
def isLeapYear (year : Nat) : Bool := year % 4 = 0 ∧ (year % 100 ≠ 0 ∨ year % 400 = 0)

/-- The number of days of a month. -/
def daysIn (year month : Nat) : Nat :=
  if month = 2 then (if isLeapYear year then 29 else 28)
  else if month = 4 ∨ month = 6 ∨ month = 9 ∨ month = 11 then 30
  else 31

/-- A date in its normal form. -/
def date? : List Char → Option (List Char)
  | [y₁, y₂, y₃, y₄, '-', m₁, m₂, '-', d₁, d₂] => do
    let year ← fixed? 4 0 9999 [y₁, y₂, y₃, y₄]
    let month ← fixed? 2 1 12 [m₁, m₂]
    let day ← fixed? 2 1 (daysIn year month) [d₁, d₂]
    return padded 4 year ++ '-' :: padded 2 month ++ '-' :: padded 2 day
  | _ => none

/-- A fraction of a second in its normal form: nine digits at most, and no zeros at
the end. -/
def secondFraction? : List Char → Option (List Char)
  | [] => some []
  | '.' :: digits =>
    if digits.isEmpty || !digits.all Char.isDigit then none
    else
      let kept := ((digits.take 9).reverse.dropWhile (· == '0')).reverse
      some (if kept.isEmpty then [] else '.' :: kept)
  | _ => none

/-- A time of day in its normal form. -/
def time? : List Char → Option (List Char)
  | h₁ :: h₂ :: ':' :: m₁ :: m₂ :: ':' :: s₁ :: s₂ :: rest => do
    let hour ← fixed? 2 0 23 [h₁, h₂]
    let minute ← fixed? 2 0 59 [m₁, m₂]
    let second ← fixed? 2 0 60 [s₁, s₂]
    let fraction ← secondFraction? rest
    return padded 2 hour ++ ':' :: padded 2 minute ++ ':' :: padded 2 second ++ fraction
  | _ => none

/-- An offset from universal time in its normal form. -/
def offset? : List Char → Option (List Char)
  | ['Z'] | ['z'] => some ['Z']
  | [sign, h₁, h₂, ':', m₁, m₂] => do
    if sign ≠ '+' ∧ sign ≠ '-' then none
    let hour ← fixed? 2 0 23 [h₁, h₂]
    let minute ← fixed? 2 0 59 [m₁, m₂]
    let sign := if hour = 0 ∧ minute = 0 then '+' else sign
    return sign :: padded 2 hour ++ ':' :: padded 2 minute
  | _ => none

/-- Whether an offset can begin with a character. -/
def startsOffset (c : Char) : Bool := c == 'Z' || c == 'z' || c == '+' || c == '-'

/-- A time of day, perhaps with an offset, in its normal form. -/
def timeWithOffset? (text : List Char) : Option (List Char) := do
  let time ← time? (text.takeWhile fun c => !startsOffset c)
  match text.dropWhile fun c => !startsOffset c with
  | [] => return time
  | offset => return time ++ (← offset? offset)

/-- A date, a time, or both, in its normal form. -/
def dateTime? (text : List Char) : Option (List Char) :=
  match text.drop 10 with
  | [] => (date? text).or (time? text)
  | mark :: rest =>
    if mark = 'T' ∨ mark = 't' ∨ mark = ' ' then do
      let date ← date? (text.take 10)
      return date ++ 'T' :: (← timeWithOffset? rest)
    else time? text

/-! ### Words -/

/-- The value of a word. -/
def word? (text : List Char) : Option Value :=
  if text = "true".toList then some (.bool true)
  else if text = "false".toList then some (.bool false)
  else
    match dateTime? text with
    | some date => some (.text (String.ofList date))
    | none =>
      match float? text with
      | some x => some (.float x)
      | none => (integer? text).map .integer

end Filewise.Toml
