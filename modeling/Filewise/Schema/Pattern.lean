/-!
# Patterns

A pattern is a regular expression of the common dialect: classes, groups,
alternatives, repetitions, anchors and lookahead. A text matches if some part of
it does. Whether it matches is computed from the set of places at which a part of
the pattern can end, so that no choice is ever taken back.

## Main definitions

* `Pattern`: regular expressions, `Pattern.parse?` their reader.
* `Pattern.ends`: where a part of a text that matches can end.
* `Pattern.matches`: whether a text has a part that matches.
-/

namespace Filewise

/-- A set of characters: ranges of code points, or everything outside them. -/
structure PatternClass where
  negated : Bool
  ranges : List (Nat × Nat)
  deriving Repr

/-- Whether a class contains a character. -/
def PatternClass.contains (s : PatternClass) (c : Char) : Bool :=
  s.negated != s.ranges.any fun (first, last) => first ≤ c.toNat && c.toNat ≤ last

/-- A regular expression. -/
inductive Pattern where
  | empty
  | oneOf (s : PatternClass)
  | seq (p q : Pattern)
  | alt (p q : Pattern)
  | repeated (p : Pattern) (least : Nat) (most : Option Nat)
  | textStart
  | textEnd
  | wordBoundary (negated : Bool)
  | lookahead (p : Pattern) (negated : Bool)
  deriving Repr

namespace Pattern

/-- A place in a text: the character before it and what follows it. -/
structure Place where
  previous : Option Char
  rest : List Char
  deriving DecidableEq

/-- Whether a character belongs to a word. -/
def isWord (c : Char) : Bool := c.isAlphanum || c == '_'

/-- Whether a word starts or ends at a place. -/
def Place.isBoundary (p : Place) : Bool :=
  (p.previous.any isWord) != (p.rest.head?.any isWord)

/-- Adds places to a list that does not have them yet. -/
def union (known more : List Place) : List Place :=
  more.foldl (fun found p => if found.contains p then found else found ++ [p]) known

/-- The places reached by any number of steps, found in at most `fuel` rounds. -/
def closure (step : Place → List Place) : Nat → List Place → List Place
  | 0, known => known
  | fuel + 1, known =>
    let more := union known (known.flatMap step)
    if more.length = known.length then known else closure step fuel more

/-- The places reached by at most the given number of steps. -/
def within (step : Place → List Place) : Nat → List Place → List Place
  | 0, known => known
  | n + 1, known =>
    let more := union known (known.flatMap step)
    if more.length = known.length then known else within step n more

/-- The places reached by exactly the given number of steps. -/
def exactly (step : Place → List Place) : Nat → List Place → List Place
  | 0, known => known
  | n + 1, known => exactly step n (union [] (known.flatMap step))

/-- The places at which a part that matches and begins at a place can end. -/
def ends : Pattern → Place → List Place
  | .empty, p => [p]
  | .oneOf s, p =>
    match p.rest with
    | c :: rest => if s.contains c then [⟨some c, rest⟩] else []
    | [] => []
  | .seq a b, p => union [] ((ends a p).flatMap (ends b))
  | .alt a b, p => union (ends a p) (ends b p)
  | .repeated a least most, p =>
    let first := exactly (ends a) least [p]
    match most with
    | none => closure (ends a) (p.rest.length + 1) first
    | some most => within (ends a) (most - least) first
  | .textStart, p => if p.previous.isNone then [p] else []
  | .textEnd, p => if p.rest.isEmpty then [p] else []
  | .wordBoundary negated, p => if p.isBoundary != negated then [p] else []
  | .lookahead a negated, p => if (ends a p).isEmpty == negated then [p] else []

/-- Whether a part that begins at some place of a text matches. -/
def matchesFrom (pattern : Pattern) (previous : Option Char) : List Char → Bool
  | [] => ¬ (pattern.ends ⟨previous, []⟩).isEmpty
  | c :: rest =>
    ¬ (pattern.ends ⟨previous, c :: rest⟩).isEmpty || matchesFrom pattern (some c) rest

/-- Whether a text has a part that matches. -/
def «matches» (pattern : Pattern) (text : String) : Bool := pattern.matchesFrom none text.toList

/-! ### Reading patterns -/

/-- The code points of a range of characters. -/
def codes (first last : Char) : Nat × Nat := (first.toNat, last.toNat)

/-- Decimal digits. -/
def digitRanges : List (Nat × Nat) := [codes '0' '9']

/-- Characters of words. -/
def wordRanges : List (Nat × Nat) := [codes '0' '9', codes 'A' 'Z', codes '_' '_', codes 'a' 'z']

/-- Spaces. -/
def spaceRanges : List (Nat × Nat) :=
  [(0x9, 0xD), (0x20, 0x20), (0xA0, 0xA0), (0x1680, 0x1680), (0x2000, 0x200A), (0x2028, 0x2029),
    (0x202F, 0x202F), (0x205F, 0x205F), (0x3000, 0x3000), (0xFEFF, 0xFEFF)]

/-- Everything outside ascending ranges, from the given code point on. -/
def complement (start : Nat) : List (Nat × Nat) → List (Nat × Nat)
  | [] => [(start, 0x10FFFF)]
  | (first, last) :: rest =>
    if start < first then (start, first - 1) :: complement (last + 1) rest
    else complement (last + 1) rest

/-- The ranges of a class that is written as an escape. -/
def escapeRanges? : Char → Option (List (Nat × Nat))
  | 'd' => some digitRanges
  | 'D' => some (complement 0 digitRanges)
  | 'w' => some wordRanges
  | 'W' => some (complement 0 wordRanges)
  | 's' => some spaceRanges
  | 'S' => some (complement 0 spaceRanges)
  | _ => none

/-- The value of hexadecimal digits. -/
def hexCode? (digits : List Char) : Option Nat :=
  digits.foldlM (fun n c =>
    if c.isDigit then some (16 * n + (c.toNat - '0'.toNat))
    else if 'a' ≤ c ∧ c ≤ 'f' then some (16 * n + (c.toNat - 'a'.toNat + 10))
    else if 'A' ≤ c ∧ c ≤ 'F' then some (16 * n + (c.toNat - 'A'.toNat + 10))
    else none) 0

/-- The character after a backslash, and what follows it. -/
def escapedChar? : List Char → Option (Char × List Char)
  | 'n' :: rest => some ('\n', rest)
  | 'r' :: rest => some ('\r', rest)
  | 't' :: rest => some ('\t', rest)
  | 'f' :: rest => some ('\x0c', rest)
  | 'v' :: rest => some ('\x0b', rest)
  | 'x' :: a :: b :: rest => (hexCode? [a, b]).map fun n => (Char.ofNat n, rest)
  | 'u' :: a :: b :: c :: d :: rest => (hexCode? [a, b, c, d]).map fun n => (Char.ofNat n, rest)
  | c :: rest => if c.isAlphanum then none else some (c, rest)
  | [] => none

/-- The first item of a class: a single character, or ranges. -/
def classItem? : List Char → Option (Sum Char (List (Nat × Nat)) × List Char)
  | '\\' :: c :: rest =>
    match escapeRanges? c with
    | some ranges => some (.inr ranges, rest)
    | none =>
      if c = 'b' then some (.inl '\x08', rest)
      else (escapedChar? (c :: rest)).map fun (c, rest) => (.inl c, rest)
  | '\\' :: [] => none
  | c :: rest => some (.inl c, rest)
  | [] => none

/-- The ranges of a class up to its closing bracket, and what follows it. -/
def classRanges? : Nat → List (Nat × Nat) → List Char → Option (List (Nat × Nat) × List Char)
  | 0, _, _ => none
  | _ + 1, done, ']' :: rest => some (done, rest)
  | fuel + 1, done, text => do
    let (item, rest) ← classItem? text
    match item, rest with
    | .inr ranges, _ => classRanges? fuel (done ++ ranges) rest
    | .inl first, '-' :: ']' :: rest =>
      some (done ++ [codes first first, codes '-' '-'], rest)
    | .inl first, '-' :: rest =>
      match ← classItem? rest with
      | (.inl last, rest) =>
        if first ≤ last then classRanges? fuel (done ++ [codes first last]) rest else none
      | (.inr _, _) => none
    | .inl first, _ => classRanges? fuel (done ++ [codes first first]) rest

/-- A natural number and what follows it. -/
def number? (text : List Char) : Option (Nat × List Char) :=
  let digits := text.takeWhile Char.isDigit
  if digits.isEmpty then none
  else some (digits.foldl (fun n c => n * 10 + (c.toNat - '0'.toNat)) 0,
    text.dropWhile Char.isDigit)

/-- The bounds of a repetition in braces, after the opening one. -/
def bounds? (text : List Char) : Option (Nat × Option Nat × List Char) := do
  let (least, rest) ← number? text
  match rest with
  | '\x7d' :: rest => some (least, some least, rest)
  | ',' :: '\x7d' :: rest => some (least, none, rest)
  | ',' :: rest => do
    let (most, rest) ← number? rest
    match rest with
    | '\x7d' :: rest => if least ≤ most then some (least, some most, rest) else none
    | _ => none
  | _ => none

/-- The repetition after a part, if there is one. -/
def repetition? : List Char → Option (Nat × Option Nat × List Char)
  | '*' :: rest => some (0, none, rest)
  | '+' :: rest => some (1, none, rest)
  | '?' :: rest => some (0, some 1, rest)
  | '\x7b' :: rest => bounds? rest
  | _ => none

/-- Drops the mark that makes a repetition take as little as it can; which part
matches does not matter here. -/
def dropLazyMark : List Char → List Char
  | '?' :: rest => rest
  | rest => rest

/-- A single part without repetition, given a reader of whole patterns. -/
def atom? (whole : List Char → Option (Pattern × List Char)) :
    List Char → Option (Pattern × List Char)
  | '^' :: rest => some (.textStart, rest)
  | '$' :: rest => some (.textEnd, rest)
  | '.' :: rest => some (.oneOf ⟨true, [codes '\n' '\n']⟩, rest)
  | '\\' :: 'b' :: rest => some (.wordBoundary false, rest)
  | '\\' :: 'B' :: rest => some (.wordBoundary true, rest)
  | '\\' :: c :: rest =>
    match escapeRanges? c with
    | some ranges => some (.oneOf ⟨false, ranges⟩, rest)
    | none => (escapedChar? (c :: rest)).map fun (c, rest) => (.oneOf ⟨false, [codes c c]⟩, rest)
  | '\\' :: [] => none
  | '[' :: '^' :: rest =>
    (classRanges? (rest.length + 1) [] rest).map fun (r, rest) => (.oneOf ⟨true, r⟩, rest)
  | '[' :: rest =>
    (classRanges? (rest.length + 1) [] rest).map fun (r, rest) => (.oneOf ⟨false, r⟩, rest)
  | '(' :: rest =>
    let close (wrap : Pattern → Pattern) (text : List Char) : Option (Pattern × List Char) := do
      match ← whole text with
      | (p, ')' :: rest) => some (wrap p, rest)
      | _ => none
    match rest with
    | '?' :: ':' :: rest => close id rest
    | '?' :: '=' :: rest => close (.lookahead · false) rest
    | '?' :: '!' :: rest => close (.lookahead · true) rest
    | '?' :: _ => none
    | _ => close id rest
  | c :: rest =>
    if c = ')' ∨ c = '|' ∨ c = '*' ∨ c = '+' ∨ c = '?' then none
    else some (.oneOf ⟨false, [codes c c]⟩, rest)
  | [] => none

/-- Parts one after the other, up to a bar, a closing parenthesis or the end. -/
def sequence? (whole : List Char → Option (Pattern × List Char)) :
    Nat → List Char → Option (Pattern × List Char)
  | 0, _ => none
  | _ + 1, [] => some (.empty, [])
  | fuel + 1, c :: rest =>
    if c = '|' ∨ c = ')' then some (.empty, c :: rest)
    else do
      let (part, rest) ← atom? whole (c :: rest)
      let (part, rest) := match repetition? rest with
        | some (least, most, rest) => (.repeated part least most, dropLazyMark rest)
        | none => (part, rest)
      let (next, rest) ← sequence? whole fuel rest
      return (.seq part next, rest)

/-- Alternatives, up to a closing parenthesis or the end. -/
def alternatives? : Nat → List Char → Option (Pattern × List Char)
  | 0, _ => none
  | fuel + 1, text => do
    let (p, rest) ← sequence? (alternatives? fuel) (text.length + 1) text
    match rest with
    | '|' :: rest => do
      let (q, rest) ← alternatives? fuel rest
      return (.alt p q, rest)
    | _ => return (p, rest)

/-- The pattern a text describes. Texts with anything else in them, such as named
groups, flags or references back, describe none. -/
def parse? (text : String) : Option Pattern :=
  match alternatives? (text.toList.length + 1) text.toList with
  | some (p, []) => some p
  | _ => none

end Pattern

end Filewise
