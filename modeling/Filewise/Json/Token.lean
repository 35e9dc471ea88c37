import Filewise.Json.Fault
import Filewise.Number.Word
import Filewise.Value

/-!
# Parts of JSON texts

Words, texts between quotes and numbers, each read from the front of a text. A
reader answers with what it read and what follows, or stops.

Integers that fit 64 bits, signed or unsigned, stay integers. Every other number
is the floating-point number that its leading digits, as many as fit 64 bits,
give when they are scaled by the power of ten, rounding after each step.

## Main definitions

* `Json.readText`: a text after its opening quote.
* `Json.readNumber`: a number.
* `Json.readScalar`: a value that holds no others.
-/

namespace Filewise.Json

/-- A reader of one thing at the front of a text. -/
abbrev Reader (α : Type) := List Char → Except Stop (α × List Char)

/-! ### Texts -/

/-- The value of a hexadecimal digit. -/
def hexValue? (c : Char) : Option Nat :=
  if '0' ≤ c ∧ c ≤ '9' then some (c.toNat - '0'.toNat)
  else if 'a' ≤ c ∧ c ≤ 'f' then some (c.toNat - 'a'.toNat + 10)
  else if 'A' ≤ c ∧ c ≤ 'F' then some (c.toNat - 'A'.toNat + 10)
  else none

/-- The number written with the given hexadecimal digits. -/
def hexNumber? (digits : List Char) : Option Nat :=
  digits.foldlM (fun n c => (hexValue? c).map (16 * n + ·)) 0

/-- A number of four hexadecimal digits. -/
def readHex : Reader Nat := fun text =>
  if byteCount text < 4 then stopAt .endOfText []
  else
    match text with
    | a :: b :: c :: d :: rest =>
      match hexNumber? [a, b, c, d] with
      | some n => .ok (n, rest)
      | none => .error ⟨.badEscape, text, 4⟩
    | _ => .error ⟨.badEscape, text, 4⟩

/-- The second half of a character that takes two escapes. -/
def readLowSurrogate : Reader Nat := fun text =>
  match text with
  | [] => stopAt .endOfText []
  | '\\' :: [] => stopAt .endOfText []
  | '\\' :: 'u' :: rest => do
    let (low, rest) ← readHex rest
    if 0xDC00 ≤ low ∧ low < 0xE000 then return (low, rest) else stopAt .loneSurrogate rest
  | '\\' :: rest => stopOn .noLowSurrogate rest
  | rest => stopOn .noLowSurrogate rest

/-- The character of an escape with a number. -/
def readUnicodeEscape : Reader Char := fun text => do
  let (unit, rest) ← readHex text
  if 0xDC00 ≤ unit ∧ unit < 0xE000 then stopAt .loneSurrogate rest
  else if 0xD800 ≤ unit ∧ unit < 0xDC00 then
    let (low, rest) ← readLowSurrogate rest
    return (Char.ofNat (0x10000 + (unit - 0xD800) * 0x400 + (low - 0xDC00)), rest)
  else return (Char.ofNat unit, rest)

/-- The character of an escape that is a single letter. -/
def simpleEscape? : Char → Option Char
  | '"' => some '"'
  | '\\' => some '\\'
  | '/' => some '/'
  | 'b' => some '\x08'
  | 'f' => some '\x0c'
  | 'n' => some '\n'
  | 'r' => some '\r'
  | 't' => some '\t'
  | _ => none

/-- The character of an escape, after the backslash. -/
def readEscape : Reader Char := fun text =>
  match text with
  | [] => stopAt .endOfText []
  | 'u' :: rest => readUnicodeEscape rest
  | c :: rest =>
    match simpleEscape? c with
    | some x => .ok (x, rest)
    | none => stopOn .badEscape (c :: rest)

/-- The characters up to the closing quote, after those in `done`, of which the last
comes first. The first argument bounds their number. -/
def readChars : Nat → List Char → Reader (List Char)
  | 0, _, _ => stopAt .endOfText []
  | _ + 1, _, [] => stopAt .endOfText []
  | bound + 1, done, c :: rest =>
    if c = '"' then .ok (done.reverse, rest)
    else if c = '\\' then do
      let (x, rest) ← readEscape rest
      readChars bound (x :: done) rest
    else if c.toNat < 0x20 then stopAt .controlCharacter rest
    else readChars bound (c :: done) rest

/-- A text after its opening quote. -/
def readText : Reader String := fun text => do
  let (chars, rest) ← readChars (text.length + 1) [] text
  return (String.ofList chars, rest)

/-! ### Numbers -/

/-- The value of a decimal digit. -/
def digitValue (c : Char) : Nat := c.toNat - '0'.toNat

/-- Appends digits to a number while the result fits 64 bits; the answer holds
the digits that were left. -/
def appendDigits (significand : Nat) : List Char → Nat × List Char
  | [] => (significand, [])
  | c :: rest =>
    let longer := significand * 10 + digitValue c
    if Word.fitsUnsigned longer then appendDigits longer rest else (significand, c :: rest)

/-- Scales a number by a power of ten between the smallest and the largest one
that are floating-point numbers, step by step for exponents beyond. -/
def scale? : Nat → Double → Int → Option Double
  | 0, x, _ => some x
  | steps + 1, x, exponent =>
    let power (n : Nat) : Double := .ofDecimal false 1 n
    if exponent.natAbs ≤ 308 then
      if 0 ≤ exponent then
        let y := x.mul (power exponent.natAbs)
        if y.isFinite then some y else none
      else some (x.div (power exponent.natAbs))
    else if x.magnitude = 0 then some x
    else if 0 ≤ exponent then none
    else scale? steps (x.div (power 308)) (exponent + 308)

/-- The floating-point number for `significand · 10 ^ exponent`, if it is finite. -/
def readFloat (negative : Bool) (significand : Nat) (exponent : Int) : Reader Value := fun rest =>
  match scale? 4 (.ofInt significand) exponent with
  | some x => .ok (.float (x.withSign negative), rest)
  | none => stopAt .numberTooLarge rest

/-- A number without fraction and exponent. Negative zero and integers below the
signed range are floating-point numbers. -/
def integerValue (negative : Bool) (significand : Nat) : Value :=
  if ¬ negative then .integer significand
  else if significand = 0 ∨ Word.signedBound < significand then
    .float ((Double.ofInt significand).withSign true)
  else .integer (-significand)

/-- An exponent after its mark. -/
def readExponent : Reader Int := fun text =>
  let (negative, text) := match text with
    | '-' :: rest => (true, rest)
    | '+' :: rest => (false, rest)
    | _ => (false, text)
  let digits := text.takeWhile Char.isDigit
  match digits, text with
  | [], [] => stopAt .endOfValue []
  | [], text => stopOn .badNumber text
  | digits, text =>
    let n : Int := digits.foldl (fun n c => n * 10 + digitValue c) 0
    .ok (if negative then -n else n, text.dropWhile Char.isDigit)

/-- What follows the digits of a number: an exponent, or nothing of it. -/
def readScale (negative : Bool) (significand : Nat) (exponent : Int) : Reader Value := fun text =>
  match text with
  | 'e' :: rest | 'E' :: rest => do
    let (e, rest) ← readExponent rest
    readFloat negative significand (exponent + e) rest
  | rest => readFloat negative significand exponent rest

/-- What follows the first digits of a number, of which some may have been dropped. -/
def readFraction (negative : Bool) (significand : Nat) (dropped : List Char) : Reader Value :=
  fun text =>
    match text with
    | '.' :: rest =>
      let places := rest.takeWhile Char.isDigit
      match places, rest with
      | [], [] => stopAt .endOfValue []
      | [], rest => stopOn .badNumber rest
      | places, rest =>
        let (significand, ignored) := appendDigits significand places
        let exponent : Int := dropped.length - (places.length - ignored.length : Nat)
        readScale negative significand exponent (rest.dropWhile Char.isDigit)
    | 'e' :: _ | 'E' :: _ => readScale negative significand dropped.length text
    | rest =>
      if dropped.isEmpty then .ok (integerValue negative significand, rest)
      else readFloat negative significand dropped.length rest

/-- A number without its sign. -/
def readMagnitude (negative : Bool) : Reader Value := fun text =>
  match text with
  | [] => stopAt .endOfValue []
  | c :: rest =>
    if ¬ c.isDigit then stopOn .badNumber text
    else if c = '0' ∧ (rest.head?.map Char.isDigit).getD false then stopOn .badNumber rest
    else
      let (significand, dropped) := appendDigits 0 (text.takeWhile Char.isDigit)
      readFraction negative significand dropped (text.dropWhile Char.isDigit)

/-- A number. -/
def readNumber : Reader Value := fun text =>
  match text with
  | '-' :: rest => readMagnitude true rest
  | rest => readMagnitude false rest

/-! ### Values that hold no others -/

/-- The rest of a word. -/
def readWord (v : Value) : List Char → Reader Value
  | [], rest => .ok (v, rest)
  | _ :: _, [] => stopAt .endOfValue []
  | c :: word, d :: rest => if c = d then readWord v word rest else stopOn .unknownWord (d :: rest)

/-- A value that holds no others. -/
def readScalar : Reader Value := fun text =>
  match text with
  | [] => stopAt .endOfValue []
  | c :: rest =>
    if c = '"' then do
      let (s, rest) ← readText rest
      return (.text s, rest)
    else if c = 't' then readWord (.bool true) ['r', 'u', 'e'] rest
    else if c = 'f' then readWord (.bool false) ['a', 'l', 's', 'e'] rest
    else if c = 'n' then readWord .null ['u', 'l', 'l'] rest
    else if c = '-' ∨ c.isDigit then readNumber text
    else stopOn .noValue text

end Filewise.Json
