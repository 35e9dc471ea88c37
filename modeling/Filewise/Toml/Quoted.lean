import Filewise.Toml.Token

/-!
# Writing texts in TOML

A text can be written between single or double quotes, on one line or on several.
The first of the four ways in which no character has to be escaped is taken, and
double quotes with escapes if there is none.

## Main definitions

* `Toml.QuoteStyle.ofText`: how a text is written.
* `Toml.quotedChars`: a text between quotes.
* `Toml.keyChars`: a name before an equals sign or in a header.
-/

namespace Filewise.Toml

/-- How a text stands between quotes. -/
inductive QuoteStyle where
  /-- Between double quotes. -/
  | escaped
  /-- Between single quotes. -/
  | verbatim
  /-- Between three double quotes. -/
  | longEscaped
  /-- Between three single quotes. -/
  | longVerbatim
  deriving DecidableEq, Repr

/-- Whether a character can be written only with an escape, wherever it stands. -/
def isControl (c : Char) : Bool := (c < ' ' && c ≠ '\t' && c ≠ '\n') || c == '\x7f'

/-- The length of the longest run of a character. -/
def longestRun (c : Char) (text : List Char) : Nat :=
  (text.foldl (fun (run, longest) x =>
    if x = c then (run + 1, max longest (run + 1)) else (0, longest)) (0, 0)).2

/-- How a text is written. -/
def QuoteStyle.ofText (text : List Char) : QuoteStyle :=
  let hasLines := text.contains '\n'
  let hasBackslash := text.contains '\\'
  let singles := longestRun '\x27' text
  let doubles := longestRun '"' text
  let withEscapes := if hasLines then longEscaped else escaped
  if text.any isControl then withEscapes
  else if !hasBackslash && doubles = 0 && !hasLines then escaped
  else if singles = 0 && !hasLines then verbatim
  else if !hasBackslash && doubles ≤ 2 then longEscaped
  else if singles ≤ 2 then longVerbatim
  else withEscapes

/-- The upper-case hexadecimal digit for a number below 16. -/
def upperDigit (n : Nat) : Char := (Nat.digitChar n).toUpper

/-- The escape of a character by its code, which is below 256. -/
def codeEscape (c : Char) : List Char :=
  ['\\', 'u', '0', '0', upperDigit (c.toNat / 16), upperDigit (c.toNat % 16)]

/-- How a character other than the quote is written between double quotes. -/
def escapedChar (isLong : Bool) (c : Char) : List Char :=
  if c = '\\' then ['\\', '\\']
  else if c = '\x08' then ['\\', 'b']
  else if c = '\t' then ['\\', 't']
  else if c = '\n' then (if isLong then ['\n'] else ['\\', 'n'])
  else if c = '\x0c' then ['\\', 'f']
  else if c = '\x0d' then ['\\', 'r']
  else if isControl c then codeEscape c
  else [c]

/-- A text for double quotes, given how many quotes stand right before it. Between
three quotes only the third one of a row is escaped. -/
def escapedChars (isLong : Bool) (quotes : Nat) : List Char → List Char
  | [] => []
  | c :: rest =>
    if c = '"' then
      if quotes < (if isLong then 2 else 0) then '"' :: escapedChars isLong (quotes + 1) rest
      else '\\' :: '"' :: escapedChars isLong 0 rest
    else escapedChar isLong c ++ escapedChars isLong 0 rest

/-- A text between three of a quote. One of several lines begins on a line of its
own. -/
def longQuoted (quote : Char) (hasLines : Bool) (body : List Char) : List Char :=
  let marks := List.replicate 3 quote
  marks ++ (if hasLines then ['\n'] else []) ++ body ++ marks

/-- A text between quotes. -/
def quotedChars (s : String) : List Char :=
  let text := s.toList
  match QuoteStyle.ofText text with
  | .escaped => '"' :: escapedChars false 0 text ++ ['"']
  | .verbatim => '\x27' :: text ++ ['\x27']
  | .longEscaped => longQuoted '"' (text.contains '\n') (escapedChars true 0 text)
  | .longVerbatim => longQuoted '\x27' (text.contains '\n') text

/-- A name, between quotes unless it needs none. A name is always on one line. -/
def keyChars (name : String) : List Char :=
  let text := name.toList
  let needsEscape := text.any fun c => isControl c || c == '\n'
  if !text.isEmpty && text.all isBare then text
  else if !needsEscape && (text.contains '\\' || text.contains '"') && !text.contains '\x27' then
    '\x27' :: text ++ ['\x27']
  else '"' :: escapedChars false 0 text ++ ['"']

end Filewise.Toml
