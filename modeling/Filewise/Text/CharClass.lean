import Filewise.Text.UnicodeTables

/-!
# Character classes

The classes of characters that the rules of this library distinguish. They are
those of Unicode, not of ASCII: a name may hold letters of any script and a text
may be indented by any kind of space.

## Main definitions

* `isSpace`: characters that separate words and are trimmed off a name.
* `isAlphanumeric`: letters and numbers of every kind.
* `isIdentifierChar`: characters that continue an identifier.
* `isWordChar`: the word characters of a regular expression, which leave out
  some numbers and take in marks, connectors and joiners.
-/

namespace Filewise.Text

/-- Spaces of every kind, line ends among them. -/
def isSpace (c : Char) : Bool := Unicode.whiteSpace.contains c

/-- Letters and everything else that Unicode counts as alphabetic. -/
def isAlphabetic (c : Char) : Bool := Unicode.alphabetic.contains c

/-- Decimal digits, letter-like numbers and all other numbers. -/
def isNumeric (c : Char) : Bool :=
  Unicode.decimalNumber.contains c || Unicode.letterNumber.contains c ||
    Unicode.otherNumber.contains c

/-- Letters and numbers of every kind. -/
def isAlphanumeric (c : Char) : Bool := isAlphabetic c || isNumeric c

/-- Characters that continue an identifier of a script. -/
def isIdentifierChar (c : Char) : Bool := isAlphanumeric c || c == '_' || c == '$'

/-- Word characters as regular expressions know them. -/
def isWordChar (c : Char) : Bool :=
  isAlphabetic c || Unicode.mark.contains c || Unicode.decimalNumber.contains c ||
    Unicode.connectorPunctuation.contains c || Unicode.joinControl.contains c

/-- The letters of the Latin alphabet without diacritics. -/
def isAsciiLetter (c : Char) : Bool :=
  ('a' ≤ c && c ≤ 'z') || ('A' ≤ c && c ≤ 'Z')

/-- Removes the spaces at both ends of a text. -/
def trim (text : List Char) : List Char :=
  ((text.dropWhile isSpace).reverse.dropWhile isSpace).reverse

end Filewise.Text
