/-!
# Faults in JSON texts

A text that is not JSON has a first fault: the place where reading cannot go on. It
is told by its line and column, and columns are counted in bytes.

## Main definitions

* `Json.FaultKind`: what is wrong.
* `Json.Stop`: where reading stops, while it is going on.
* `Json.Fault`: a fault with its line and column.
-/

namespace Filewise.Json

/-- What is wrong at a place of a text. -/
inductive FaultKind where
  | endOfArray
  | endOfObject
  | endOfText
  | endOfValue
  | noColon
  | noItemEnd
  | noFieldEnd
  | unknownWord
  | noValue
  | badEscape
  | badNumber
  | numberTooLarge
  | controlCharacter
  | nameNotText
  | loneSurrogate
  | trailingComma
  | trailingCharacters
  | noLowSurrogate
  | nestedTooDeeply
  deriving DecidableEq, Repr

/-- The sentence of a fault. -/
def FaultKind.message : FaultKind → String
  | .endOfArray => "EOF while parsing a list"
  | .endOfObject => "EOF while parsing an object"
  | .endOfText => "EOF while parsing a string"
  | .endOfValue => "EOF while parsing a value"
  | .noColon => "expected \x60:\x60"
  | .noItemEnd => "expected \x60,\x60 or \x60]\x60"
  | .noFieldEnd => "expected \x60,\x60 or \x60\x7d\x60"
  | .unknownWord => "expected ident"
  | .noValue => "expected value"
  | .badEscape => "invalid escape"
  | .badNumber => "invalid number"
  | .numberTooLarge => "number out of range"
  | .controlCharacter => "control character (\\u0000-\\u001F) found while parsing a string"
  | .nameNotText => "key must be a string"
  | .loneSurrogate => "lone leading surrogate in hex escape"
  | .trailingComma => "trailing comma"
  | .trailingCharacters => "trailing characters"
  | .noLowSurrogate => "unexpected end of hex escape"
  | .nestedTooDeeply => "recursion limit exceeded"

/-- Where reading stops: what is left of the text, and how many bytes of that were
looked at. -/
structure Stop where
  kind : FaultKind
  rest : List Char
  seen : Nat
  deriving DecidableEq, Repr

/-- A fault with its place. -/
structure Fault where
  kind : FaultKind
  line : Nat
  column : Nat
  deriving DecidableEq, Repr

/-- The sentence of a fault with its place. -/
def Fault.message (f : Fault) : String :=
  s!"{f.kind.message} at line {f.line} column {f.column}"

/-- The number of bytes of a text. -/
def byteCount (text : List Char) : Nat := (String.ofList text).utf8ByteSize

/-- The fault of a text whose reading stops. -/
def Stop.fault (s : Stop) (text : List Char) : Fault :=
  let offset := byteCount text - byteCount s.rest + s.seen
  let before := (String.ofList text).toUTF8.data.toList.take offset
  let newline := '\n'.toUInt8
  { kind := s.kind
    line := before.count newline + 1
    column := (before.reverse.takeWhile (· != newline)).length }

/-- Stops before a text. -/
def stopAt {α : Type} (kind : FaultKind) (rest : List Char) : Except Stop α :=
  .error ⟨kind, rest, 0⟩

/-- Stops at the first character of a text, which was looked at. -/
def stopOn {α : Type} (kind : FaultKind) (rest : List Char) : Except Stop α :=
  .error ⟨kind, rest, 1⟩

end Filewise.Json
