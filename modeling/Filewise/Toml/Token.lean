import Filewise.Toml.Scalar

/-!
# Parts of TOML documents

Blanks, comments, texts between quotes, keys and values, each read from the front
of a text. A reader answers with what it read and what follows.

## Main definitions

* `Toml.skipTrivia?`: what follows blanks, line ends and comments.
* `Toml.quoted?`: a text between quotes.
* `Toml.key?`: a key, which may have several parts.
* `Toml.value?`: a value.
-/

namespace Filewise.Toml

/-! ### Blanks and comments -/

/-- What follows blanks on the same line. -/
def skipBlanks (text : List Char) : List Char := text.dropWhile fun c => c == ' ' || c == '\t'

/-- Whether a character may stand in comments and texts. -/
def isPlain (c : Char) : Bool := c == '\t' || (' ' ≤ c && c ≠ '\x7f')

/-- What follows a line end. -/
def lineEnd? : List Char → Option (List Char)
  | '\n' :: rest => some rest
  | '\x0d' :: '\n' :: rest => some rest
  | _ => none

/-- What follows a comment up to the line end, if it has no other characters than a
comment may have. -/
def skipComment? (text : List Char) : Option (List Char) :=
  let rest := text.dropWhile isPlain
  if rest.isEmpty || (lineEnd? rest).isSome then some rest else none

/-- What follows blanks, line ends and comments. The first argument bounds the
number of steps. -/
def skipTriviaWithin : Nat → List Char → Option (List Char)
  | 0, text => some text
  | steps + 1, text =>
    match skipBlanks text with
    | '#' :: rest => do skipTriviaWithin steps (← skipComment? rest)
    | rest =>
      match lineEnd? rest with
      | some rest => skipTriviaWithin steps rest
      | none => some rest

/-- What follows blanks, line ends and comments. -/
def skipTrivia? (text : List Char) : Option (List Char) :=
  skipTriviaWithin (text.length + 1) text

/-- What follows the rest of a line that holds nothing but blanks and a comment. -/
def finishLine? (text : List Char) : Option (List Char) := do
  let rest ← match skipBlanks text with
    | '#' :: rest => skipComment? rest
    | rest => some rest
  if rest.isEmpty then some [] else lineEnd? rest

/-! ### Texts -/

/-- The character with a code, unless there is none. -/
def charOf? (digits : List Char) : Option Char := do
  let n := number 16 (← digits.mapM (digit? 16))
  if n.isValidChar then some (Char.ofNat n) else none

/-- The character of an escape, after the backslash. -/
def escape? : List Char → Option (Char × List Char)
  | 'b' :: rest => some ('\x08', rest)
  | 't' :: rest => some ('\t', rest)
  | 'n' :: rest => some ('\n', rest)
  | 'f' :: rest => some ('\x0c', rest)
  | 'r' :: rest => some ('\x0d', rest)
  | '"' :: rest => some ('"', rest)
  | '\\' :: rest => some ('\\', rest)
  | 'u' :: a :: b :: c :: d :: rest => (charOf? [a, b, c, d]).map fun x => (x, rest)
  | 'U' :: a :: b :: c :: d :: e :: f :: g :: h :: rest =>
    (charOf? [a, b, c, d, e, f, g, h]).map fun x => (x, rest)
  | _ => none

/-- The rest of a text on one line, up to its closing quote. Escapes count between
double quotes only. -/
def shortBody? (quote : Char) : Nat → List Char → Option (List Char × List Char)
  | 0, _ => none
  | _ + 1, [] => none
  | steps + 1, c :: rest =>
    if c = quote then some ([], rest)
    else if c = '\\' ∧ quote = '"' then do
      let (x, rest) ← escape? rest
      let (body, rest) ← shortBody? quote steps rest
      return (x :: body, rest)
    else if isPlain c then do
      let (body, rest) ← shortBody? quote steps rest
      return (c :: body, rest)
    else none

/-- What follows a backslash at the end of a line: the next text that is neither
blank nor a line end. -/
def joinLines? (text : List Char) : Option (List Char) := do
  let rest ← lineEnd? (skipBlanks text)
  return rest.dropWhile fun c => c == ' ' || c == '\t' || c == '\n' || c == '\x0d'

/-- The rest of a text on several lines, up to its three closing quotes. One or two
quotes may stand right before them. -/
def longBody? (quote : Char) : Nat → List Char → Option (List Char × List Char)
  | 0, _ => none
  | _ + 1, [] => none
  | steps + 1, c :: rest =>
    if c = quote then
      let run := ((c :: rest).takeWhile (· == quote)).length
      -- up to two of the quotes in a run belong to the text
      if 6 ≤ run then none
      else if 3 ≤ run then some (List.replicate (run - 3) quote, (c :: rest).drop run)
      else do
        let (body, rest) ← longBody? quote steps ((c :: rest).drop run)
        return (List.replicate run quote ++ body, rest)
    else if c = '\\' ∧ quote = '"' then
      match joinLines? rest with
      | some rest => longBody? quote steps rest
      | none => do
        let (x, rest) ← escape? rest
        let (body, rest) ← longBody? quote steps rest
        return (x :: body, rest)
    else
      match lineEnd? (c :: rest) with
      | some rest => do
        let (body, rest) ← longBody? quote steps rest
        return ('\n' :: body, rest)
      | none =>
        if isPlain c then do
          let (body, rest) ← longBody? quote steps rest
          return (c :: body, rest)
        else none

/-- A text after three opening quotes. A line end right after them does not count. -/
def longText? (quote : Char) (text : List Char) : Option (List Char × List Char) :=
  longBody? quote (text.length + 1) ((lineEnd? text).getD text)

/-- A text between quotes, on one line or on several. -/
def quoted? : List Char → Option (String × List Char)
  | a :: rest =>
    if a = '"' ∨ a = '\x27' then
      let body := match rest with
        | b :: c :: rest' =>
          if b = a ∧ c = a then longText? a rest' else shortBody? a (rest.length + 1) rest
        | rest => shortBody? a (rest.length + 1) rest
      body.map fun (body, rest) => (String.ofList body, rest)
    else none
  | [] => none

/-! ### Keys -/

/-- Whether a character may stand in a key without quotes. -/
def isBare (c : Char) : Bool := c.isAlphanum || c == '_' || c == '-'

/-- One part of a key. -/
def keyPart? (text : List Char) : Option (String × List Char) :=
  match text with
  | [] => none
  | a :: rest =>
    if a = '"' ∨ a = '\x27' then
      (shortBody? a (rest.length + 1) rest).map fun (body, rest) => (String.ofList body, rest)
    else
      let bare := text.takeWhile isBare
      if bare.isEmpty then none else some (String.ofList bare, text.dropWhile isBare)

/-- The greatest depth of values in values and of keys in keys. -/
def deepest : Nat := 80

/-- The parts of a key. The first argument bounds their number. -/
def keyWithin? : Nat → List Char → Option (List String × List Char)
  | 0, _ => none
  | parts + 1, text => do
    let (part, rest) ← keyPart? (skipBlanks text)
    match skipBlanks rest with
    | '.' :: rest =>
      let (more, rest) ← keyWithin? parts rest
      return (part :: more, rest)
    | rest => return ([part], rest)

/-- A key: the names of the tables that lead to it, and its own name. -/
structure Key where
  tables : List String
  name : String
  deriving DecidableEq, Repr

/-- A key, with the blanks around it. -/
def key? (text : List Char) : Option (Key × List Char) := do
  let (parts, rest) ← keyWithin? (deepest - 1) text
  return (⟨parts.dropLast, ← parts.getLast?⟩, rest)

/-! ### Tables inside lines -/

/-- A table on one line while it is read. Only tables that dotted keys made can get
more fields. -/
inductive InlineNode where
  | leaf (v : Value)
  | dotted (fields : List (String × InlineNode))

/-- Fields with one more value. -/
def insertInline (fields : List (String × InlineNode)) (name : String) (v : Value) :
    List String → Option (List (String × InlineNode))
  | [] =>
    if fields.any fun (k, _) => k = name then none else some (fields ++ [(name, .leaf v)])
  | table :: tables =>
    match fields.find? fun (k, _) => k = table with
    | none => do return fields ++ [(table, .dotted (← insertInline [] name v tables))]
    | some (_, .leaf _) => none
    | some (_, .dotted inner) => do
      let inner ← insertInline inner name v tables
      return fields.map fun (k, node) => if k = table then (k, .dotted inner) else (k, node)

mutual

/-- The value of a node. -/
def InlineNode.toValue : InlineNode → Value
  | .leaf v => v
  | .dotted fields => .object (Dict.ofList (inlineFields fields))

/-- The values of nodes. -/
def inlineFields : List (String × InlineNode) → List (String × Value)
  | [] => []
  | (name, node) :: rest => (name, node.toValue) :: inlineFields rest

end

/-! ### Values -/

/-- A reader of one thing at the front of a text. -/
abbrev Reader (α : Type) := List Char → Option (α × List Char)

/-- The items of a list after its opening bracket. -/
def items? (item : Reader Value) : Nat → Reader (List Value)
  | 0, _ => none
  | steps + 1, text => do
    match ← skipTrivia? text with
    | ']' :: rest => return ([], rest)
    | rest =>
      let (v, rest) ← item rest
      match ← skipTrivia? rest with
      | ',' :: rest =>
        let (vs, rest) ← items? item steps rest
        return (v :: vs, rest)
      | ']' :: rest => return ([v], rest)
      | _ => none

/-- A key, an equals sign and a value. -/
def assignment? (item : Reader Value) : Reader (Key × Value) := fun text => do
  let (key, rest) ← key? text
  match rest with
  | '=' :: rest =>
    let (v, rest) ← item (skipBlanks rest)
    return ((key, v), rest)
  | _ => none

/-- The fields of a table on one line, of which at least one is left to read. -/
def inlineFields? (item : Reader Value) (done : List (String × InlineNode)) :
    Nat → Reader (List (String × InlineNode))
  | 0, _ => none
  | steps + 1, text => do
    let ((key, v), rest) ← assignment? item text
    let done ← insertInline done key.name v key.tables
    match skipBlanks rest with
    | ',' :: rest => inlineFields? item done steps rest
    | '\x7d' :: rest => return (done, rest)
    | _ => none

/-- A table on one line after its opening brace. -/
def inlineTable? (item : Reader Value) : Reader Value := fun text =>
  match skipBlanks text with
  | '\x7d' :: rest => some (.object [], rest)
  | rest => do
    let (fields, rest) ← inlineFields? item [] (rest.length + 1) rest
    return ((InlineNode.dotted fields).toValue, rest)

/-- Whether a character may stand in a word. -/
def isWordChar (c : Char) : Bool := c.isAlphanum || "_+-.:".toList.contains c

/-- A word. A date may be followed by a blank and a time. -/
def wordText (text : List Char) : List Char × List Char :=
  let word := text.takeWhile isWordChar
  let rest := text.dropWhile isWordChar
  match (date? word).isSome, rest with
  | true, ' ' :: a :: rest' =>
    if a.isDigit then
      (word ++ ' ' :: (a :: rest').takeWhile isWordChar, (a :: rest').dropWhile isWordChar)
    else (word, rest)
  | _, rest => (word, rest)

/-- A value that holds others to the given depth. -/
def value? : Nat → Reader Value
  | 0, _ => none
  | depth + 1, text =>
    match text with
    | [] => none
    | c :: rest =>
      if c = '[' ∨ c = '\x7b' then
        if depth = 0 then none
        else if c = '[' then
          (items? (value? depth) (rest.length + 1) rest).map fun (vs, rest) => (.array vs, rest)
        else inlineTable? (value? depth) rest
      else if c = '"' ∨ c = '\x27' then
        (quoted? text).map fun (s, rest) => (.text s, rest)
      else
        let (word, rest) := wordText text
        (word? word).map fun v => (v, rest)

end Filewise.Toml
