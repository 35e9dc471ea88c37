import Filewise.Number.Layout
import Filewise.Value

/-!
# Values as JSON text

A value is written as JSON in one of two ways: compactly, without any blank, or
with one field or item on a line and two blanks for each level of nesting.
Characters outside ASCII stand for themselves in both.

## Main definitions

* `Json.quote`: a text between quotes.
* `Value.compact`, `Value.pretty`.
-/

namespace Filewise

namespace Json

/-- The hexadecimal digit for a number below 16. -/
def hexDigit (n : Nat) : Char := Nat.digitChar n

/-- How a character is written between quotes: the quote, the backslash and
control characters are escaped, everything else stands for itself. -/
def escape (c : Char) : List Char :=
  if c = '"' then ['\\', '"']
  else if c = '\\' then ['\\', '\\']
  else if c = '\n' then ['\\', 'n']
  else if c = '\r' then ['\\', 'r']
  else if c = '\t' then ['\\', 't']
  else if c = '\x08' then ['\\', 'b']
  else if c = '\x0c' then ['\\', 'f']
  else if c.toNat < 0x20 then
    ['\\', 'u', '0', '0', hexDigit (c.toNat / 16), hexDigit (c.toNat % 16)]
  else [c]

/-- A text between quotes. -/
def quote (s : String) : List Char := '"' :: s.toList.flatMap escape ++ ['"']

end Json

namespace Value

mutual

/-- A value without blanks. -/
def compactChars : Value → List Char
  | .null => ['n', 'u', 'l', 'l']
  | .bool true => ['t', 'r', 'u', 'e']
  | .bool false => ['f', 'a', 'l', 's', 'e']
  | .integer n => (toString n).toList
  | .float x => (FloatLayout.json.write x).toList
  | .text s => Json.quote s
  | .array items => '[' :: compactItems items ++ [']']
  | .object fields => '\x7b' :: compactFields fields ++ ['\x7d']

/-- Items separated by commas. -/
def compactItems : List Value → List Char
  | [] => []
  | [item] => compactChars item
  | item :: next :: rest => compactChars item ++ ',' :: compactItems (next :: rest)

/-- Fields separated by commas. -/
def compactFields : List (String × Value) → List Char
  | [] => []
  | [(name, item)] => Json.quote name ++ ':' :: compactChars item
  | (name, item) :: next :: rest =>
    Json.quote name ++ ':' :: compactChars item ++ ',' :: compactFields (next :: rest)

end

/-- The compact JSON text of a value. -/
def compact (v : Value) : String := String.ofList v.compactChars

/-- A line end and the blanks of a level of nesting. -/
def newline (level : Nat) : List Char := '\n' :: List.replicate (2 * level) ' '

mutual

/-- A value at a level of nesting, its items and fields on lines of their own. -/
def prettyChars (level : Nat) : Value → List Char
  | .array (item :: rest) =>
    '[' :: prettyItems (level + 1) (item :: rest) ++ newline level ++ [']']
  | .object (field :: rest) =>
    '\x7b' :: prettyFields (level + 1) (field :: rest) ++ newline level ++ ['\x7d']
  | .array [] => ['[', ']']
  | .object [] => ['\x7b', '\x7d']
  | .null => ['n', 'u', 'l', 'l']
  | .bool true => ['t', 'r', 'u', 'e']
  | .bool false => ['f', 'a', 'l', 's', 'e']
  | .integer n => (toString n).toList
  | .float x => (FloatLayout.json.write x).toList
  | .text s => Json.quote s

/-- Items on lines of their own. -/
def prettyItems (level : Nat) : List Value → List Char
  | [] => []
  | item :: rest =>
    newline level ++ prettyChars level item ++
      (if rest.isEmpty then [] else [',']) ++ prettyItems level rest

/-- Fields on lines of their own. -/
def prettyFields (level : Nat) : List (String × Value) → List Char
  | [] => []
  | (name, item) :: rest =>
    newline level ++ Json.quote name ++ ':' :: ' ' :: prettyChars level item ++
      (if rest.isEmpty then [] else [',']) ++ prettyFields level rest

end

/-- The indented JSON text of a value. -/
def pretty (v : Value) : String := String.ofList (v.prettyChars 0)

/-- The compact JSON text of options. -/
def compactOptions (options : Options) : String := compact (.object options)

end Value

end Filewise
