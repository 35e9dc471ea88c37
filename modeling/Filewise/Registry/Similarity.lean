/-!
# Similarity of names

How well a pattern fits into a name is a score: the characters of the pattern are
matched with characters of the name in order, and every way to do so earns points
for matches, more for matches at the start of words and right after each other,
and pays for gaps. The score of the best way is found row by row, one row for
each character of the pattern and one column for each character of the name.

A row is written over the row before the last one, and the bonus that a column
carries on is not cleared by a match. The score therefore depends on two rows
only, and on what the older one left behind.

## Main definitions

* `Similarity.score?`: the score of a pattern in a name, if it fits at all.
-/

namespace Filewise.Similarity

/-! ### Kinds of characters -/

/-- Kinds of characters that decide where words begin. -/
inductive CharKind where
  | hardSeparator
  | softSeparator
  | digit
  | upper
  | lower
  deriving DecidableEq, Repr

/-- The kind of a character. -/
def CharKind.of (c : Char) : CharKind :=
  if " /\\|()[]\x7b\x7d".toList.contains c then .hardSeparator
  else if "!\"#$%&'*+,-.:;<=>?@^_\x60~".toList.contains c then .softSeparator
  else if c.isDigit then .digit
  else if c.isUpper then .upper
  else .lower

/-- The points for a match at a character after another one: most at the start of
the name or of a part of it, fewer after a separator inside, and some where a
capital begins a word. -/
def startBonus (previous : Option Char) (c : Char) : Int :=
  match previous.map CharKind.of with
  | none | some .hardSeparator => 8
  | some .softSeparator => 7
  | some .lower | some .digit => if CharKind.of c = .upper then 6 else 0
  | some .upper => 0

/-- The bonuses of the characters after a given one. -/
def startBonusesAfter (previous : Option Char) : List Char → List Int
  | [] => []
  | c :: rest => startBonus previous c :: startBonusesAfter (some c) rest

/-- The bonuses of a name; that of the first character counts twice. -/
def startBonuses (name : List Char) : List Int :=
  match startBonusesAfter none name with
  | [] => []
  | b :: rest => 2 * b :: rest

/-! ### Matching characters -/

/-- Whether case matters for a pattern: only if it has a capital letter. -/
def caseMatters (pattern : List Char) : Bool := pattern.any Char.isUpper

/-- The points for a character of the pattern at a character of the name. -/
def matchPoints? (strict : Bool) (inName inPattern : Char) : Option Int :=
  if inName = inPattern then some 16
  else if !strict && inName.toLower == inPattern.toLower then some 14
  else none

/-- The earliest columns at which the characters of a pattern can be matched. -/
def earliest? (strict : Bool) : Nat → List Char → List Char → Option (List Nat)
  | _, _, [] => some []
  | _, [], _ :: _ => none
  | column, c :: name, p :: pattern =>
    if (matchPoints? strict c p).isSome then
      (earliest? strict (column + 1) name pattern).map (column :: ·)
    else earliest? strict (column + 1) name (p :: pattern)

/-! ### Rows of scores -/

/-- The scores at one place: with a match there, without one, and the bonus that a
following match can go on with. -/
structure Cell where
  matched : Int
  skipped : Int
  bonus : Int
  deriving DecidableEq, Repr

/-- The score of what is not possible. -/
def impossible : Int := -32768

/-- A place that nothing has been written to. -/
def Cell.blank : Cell := ⟨impossible, impossible, 0⟩

/-- A place before the first character of the pattern. -/
def Cell.before : Cell := ⟨impossible, -1, 0⟩

/-- What the scores at a column are computed from: the character of the name, its
bonus, the cell to the upper left, and the bonus left behind by the older row. -/
structure Column where
  char : Char
  startBonus : Int
  upperLeft : Cell
  leftBehind : Int

/-- The cells of a row from the cell on the left onwards, for a character of the
pattern. A match also settles the bonus of the cell on its left. -/
def cells (strict : Bool) (p : Char) (left : Cell) : List Column → List Cell
  | [] => [left]
  | column :: rest =>
    let skipped := max (left.matched - 4) (left.skipped - 1)
    match matchPoints? strict column.char p with
    | some points =>
      -- a run of matches keeps the best bonus that it began with
      let bonus := max left.bonus (max column.startBonus 4)
      let matched := points +
        max (column.upperLeft.matched + bonus) (column.upperLeft.skipped + column.startBonus)
      { left with bonus } :: cells strict p ⟨matched, skipped, column.leftBehind⟩ rest
    | none => left :: cells strict p ⟨impossible, skipped, 0⟩ rest

/-- The row for a character of the pattern whose earliest column is given, from
the row before and the older row that it is written over. -/
def row (strict : Bool) (name : List Char) (bonuses : List Int) (p : Char) (start : Nat)
    (previous older : List Cell) : List Cell :=
  let columns := (name.zip bonuses).zip (previous.zip ((older.drop 1).map Cell.bonus))
  let columns := (columns.drop start).map fun ((c, b), upperLeft, leftBehind) =>
    Column.mk c b upperLeft leftBehind
  -- the columns before the earliest match keep what the older row has there
  older.take start ++ cells strict p ((older[start]?).getD Cell.blank) columns

/-- The last row, for characters of the pattern with their earliest columns. -/
def lastRow (strict : Bool) (name : List Char) (bonuses : List Int) :
    List (Char × Nat) → List Cell → List Cell → List Cell
  | [], previous, _ => previous
  | (p, start) :: rest, previous, older =>
    lastRow strict name bonuses rest (row strict name bonuses p start previous older) previous

/-- The score of a pattern in a name; none if its characters do not occur in the
name in order. -/
def score? (name pattern : String) : Option Int :=
  let chars := name.toList
  let wanted := pattern.toList
  let strict := caseMatters wanted
  match wanted, earliest? strict 0 chars wanted with
  | [], _ => some 0
  | _, none => none
  | _, some starts =>
    let width := chars.length + 1
    let last := lastRow strict chars (startBonuses chars) (wanted.zip starts)
      (List.replicate width Cell.before) (List.replicate width Cell.blank)
    some (last.foldl (fun best cell => max best cell.matched) impossible)

end Filewise.Similarity
