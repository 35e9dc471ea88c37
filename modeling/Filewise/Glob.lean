/-!
# Globs

A glob describes paths inside a directory. It is read as text and matched byte by
byte against the UTF-8 form of a path: a question mark stands for one byte other
than a slash, a star for any number of them, and a double star between slashes
for any number of directories.

## Main definitions

* `Glob.Token`: the parts of a glob, `Glob.parse` their reader.
* `Glob.Fault`: why a text is not a glob.
* `Glob.matches`: whether a path matches.
-/

namespace Filewise.Glob

/-- A part of a glob. -/
inductive Token where
  | literal (c : Char)
  /-- One byte other than a slash. -/
  | single
  /-- Any number of bytes other than slashes. -/
  | run
  /-- Any number of directories at the start. -/
  | leadingDirectories
  /-- Everything inside a directory, at the end. -/
  | everythingInside
  /-- A slash, or two slashes with any number of directories in between. -/
  | innerDirectories
  /-- One byte of the given ranges, or outside them. -/
  | oneOf (negated : Bool) (ranges : List (Char × Char))
  /-- One of several alternatives; without any it stands for nothing. -/
  | choice (alternatives : List (List Token))
  deriving Inhabited

/-- Why a text is not a glob. -/
inductive Fault where
  | unclosedClass
  | invalidRange (first last : Char)
  | unclosedChoice
  | unopenedChoice
  | danglingEscape
  deriving DecidableEq, Repr

/-- The sentence of a fault. -/
def Fault.message : Fault → String
  | .unclosedClass => "unclosed character class; missing ']'"
  | .invalidRange first last => s!"invalid range; '{first}' > '{last}'"
  | .unclosedChoice =>
    "unclosed alternate group; missing '\x7d' (maybe escape '\x7b' with '[\x7b]'?)"
  | .unopenedChoice =>
    "unopened alternate group; missing '\x7b' (maybe escape '\x7d' with '[\x7d]'?)"
  | .danglingEscape => "dangling '\\'"

/-! ### Reading -/

/-- The ranges of a class as they are read; the last one comes first. A range may
be waiting for its second character. -/
structure ClassDraft where
  ranges : List (Char × Char)
  isOpen : Bool

/-- A class after one more character. -/
def ClassDraft.add (d : ClassDraft) (c : Char) : Except Fault ClassDraft :=
  match d.isOpen, d.ranges with
  | true, (first, _) :: rest =>
    if c < first then .error (.invalidRange first c) else .ok ⟨(first, c) :: rest, false⟩
  | _, ranges => .ok ⟨(c, c) :: ranges, false⟩

/-- The ranges of a class that is complete. A hyphen at its end stands for itself. -/
def ClassDraft.finish (d : ClassDraft) : List (Char × Char) :=
  (if d.isOpen then ('-', '-') :: d.ranges else d.ranges).reverse

/-- The ranges of a class up to its closing bracket, and what follows it. -/
def classRanges (d : ClassDraft) : List Char → Except Fault (List (Char × Char) × List Char)
  | [] => .error .unclosedClass
  | c :: rest => do
    -- a bracket or a hyphen at the front of a class stands for itself
    if d.ranges.isEmpty then classRanges (← d.add c) rest
    else if c = ']' then return (d.finish, rest)
    else if c = '-' ∧ ¬ d.isOpen then classRanges { d with isOpen := true } rest
    else classRanges (← d.add c) rest

/-- A class after its opening bracket, and what follows it. -/
def classToken (text : List Char) : Except Fault (Token × List Char) := do
  match text with
  | '!' :: rest | '^' :: rest =>
    let (ranges, rest) ← classRanges ⟨[], false⟩ rest
    return (.oneOf true ranges, rest)
  | rest =>
    let (ranges, rest) ← classRanges ⟨[], false⟩ rest
    return (.oneOf false ranges, rest)

/-- Whether a part stands for nothing. -/
def Token.isVacuous : Token → Bool
  | .choice [] => true
  | _ => false

/-- A sequence of parts that is being read: earlier alternatives, and the parts of
the present one, the last part first. -/
structure Branch where
  alternatives : List (List Token)
  tokens : List Token

/-- A branch after one more part. -/
def Branch.push (b : Branch) (t : Token) : Branch := { b with tokens := t :: b.tokens }

/-- The choice that ends with a branch. Alternatives that stand for nothing do not
count. -/
def Branch.choice (b : Branch) : Token :=
  .choice <| (b.alternatives ++ [b.tokens.reverse]).filter fun tokens =>
    !tokens.all Token.isVacuous

/-- A branch after two stars, with the character before them and what follows. Only
stars that fill the place between two slashes stand for directories. -/
def doubleStar (isInner : Bool) (previous : Option Char) (b : Branch) (rest : List Char) :
    Branch × List Char :=
  let ordinary := ((b.push .run).push .run, rest)
  match b.tokens with
  | [] =>
    match rest with
    | [] => (b.push .leadingDirectories, [])
    | '/' :: rest => (b.push .leadingDirectories, rest)
    | _ => ordinary
  | last :: before =>
    let directories (other : Token) : Branch :=
      match last with
      | .leadingDirectories => b
      | .everythingInside => b
      | _ => { b with tokens := other :: before }
    -- stars next to anything but a slash are two ordinary stars
    if previous ≠ some '/' ∧ ¬ (isInner ∧ (previous = some ',' ∨ previous = some '\x7b')) then
      ordinary
    else
      match rest with
      | [] => (directories .everythingInside, [])
      | '/' :: rest => (directories .innerDirectories, rest)
      | c :: _ =>
        if isInner ∧ (c = ',' ∨ c = '\x7d') then (directories .everythingInside, rest)
        else ordinary

/-- Reads parts into the innermost branch, with the branches around it and the
character before the text. The first argument bounds the number of parts. -/
def parseParts : Nat → Option Char → Branch → List Branch → List Char → Except Fault (List Token)
  | 0, _, _, _, _ => .ok []
  | _ + 1, _, b, outer, [] =>
    if outer.isEmpty then .ok b.tokens.reverse else .error .unclosedChoice
  | fuel + 1, previous, b, outer, c :: rest =>
    match c, outer with
    | '?', _ => parseParts fuel (some c) (b.push .single) outer rest
    | '*', _ =>
      match rest with
      | '*' :: rest =>
        let (b, after) := doubleStar (!outer.isEmpty) previous b rest
        let last := if after.length < rest.length then '/' else '*'
        parseParts fuel (some last) b outer after
      | _ => parseParts fuel (some c) (b.push .run) outer rest
    | '[', _ =>
      match classToken rest with
      | .error e => .error e
      | .ok (t, rest) => parseParts fuel (some ']') (b.push t) outer rest
    | '\x7b', _ => parseParts fuel (some c) ⟨[], []⟩ (b :: outer) rest
    | '\x7d', [] => .error .unopenedChoice
    | '\x7d', around :: outer =>
      parseParts fuel (some c) (around.push b.choice) outer rest
    | ',', _ :: _ =>
      parseParts fuel (some c) ⟨b.alternatives ++ [b.tokens.reverse], []⟩ outer rest
    | '\\', _ =>
      match rest with
      | [] => .error .danglingEscape
      | escaped :: rest => parseParts fuel (some escaped) (b.push (.literal escaped)) outer rest
    | c, _ => parseParts fuel (some c) (b.push (.literal c)) outer rest

/-- The parts of a glob. -/
def parse (text : List Char) : Except Fault (List Token) :=
  parseParts (text.length + 1) none ⟨[], []⟩ [] text

/-! ### Matching -/

/-- The byte of a slash. -/
def slash : UInt8 := 0x2F

/-- Adds rests of a text to a list that has none of the same length. -/
def union (known more : List (List UInt8)) : List (List UInt8) :=
  more.foldl (fun found r =>
    if found.any fun f => f.length == r.length then found else found ++ [r]) known

/-- All rests of a text, the text itself among them, up to the first slash. -/
def restsInName : List UInt8 → List (List UInt8)
  | [] => [[]]
  | b :: rest => if b = slash then [b :: rest] else (b :: rest) :: restsInName rest

/-- All rests of a text. -/
def allRests : List UInt8 → List (List UInt8)
  | [] => [[]]
  | b :: rest => (b :: rest) :: allRests rest

/-- The rests of a text after each of its slashes. -/
def restsAfterSlash : List UInt8 → List (List UInt8)
  | [] => []
  | b :: rest => if b = slash then rest :: restsAfterSlash rest else restsAfterSlash rest

/-- The rest of a text after given bytes. -/
def dropStart? : List UInt8 → List UInt8 → Option (List UInt8)
  | [], text => some text
  | _ :: _, [] => none
  | a :: start, b :: text => if a = b then dropStart? start text else none

/-- The ranges of bytes for a range of characters. Of characters beyond ASCII each
byte counts for itself. -/
def byteRanges : Char × Char → List (UInt8 × UInt8)
  | (first, last) =>
    let single (bytes : List UInt8) : List (UInt8 × UInt8) := bytes.map fun b => (b, b)
    let starts := String.utf8EncodeChar first
    let ends := String.utf8EncodeChar last
    if first = last then single starts
    else
      single starts.dropLast ++ [((starts.getLast?).getD 0, (ends.head?).getD 0)] ++
        single ends.tail

/-- Whether a byte is in one of the ranges. -/
def inRanges (ranges : List (Char × Char)) (b : UInt8) : Bool :=
  (ranges.flatMap byteRanges).any fun (first, last) => first ≤ b && b ≤ last

mutual

/-- The rests that can be left after a part of a glob at the start of a text. -/
def Token.rests : Token → List UInt8 → List (List UInt8)
  | .literal c, text => (dropStart? (String.utf8EncodeChar c) text).toList
  | .single, text =>
    match text with
    | b :: rest => if b = slash then [] else [rest]
    | [] => []
  | .run, text => restsInName text
  | .leadingDirectories, text =>
    union [text] (restsAfterSlash text)
  | .everythingInside, text =>
    match text with
    | b :: rest => if b = slash then allRests rest else []
    | [] => []
  | .innerDirectories, text =>
    match text with
    | b :: rest => if b = slash then union [rest] (restsAfterSlash rest) else []
    | [] => []
  | .oneOf negated ranges, text =>
    match text with
    | b :: rest => if inRanges ranges b != negated then [rest] else []
    | [] => []
  | .choice alternatives, text =>
    -- alternatives that were all vacuous have been left out
    if alternatives.isEmpty then [text] else choiceRests alternatives text

/-- The rests that can be left after one of several alternatives. -/
def choiceRests : List (List Token) → List UInt8 → List (List UInt8)
  | [], _ => []
  | tokens :: others, text => union (sequenceRests tokens [text]) (choiceRests others text)

/-- The rests that can be left after parts in order. -/
def sequenceRests : List Token → List (List UInt8) → List (List UInt8)
  | [], texts => texts
  | t :: tokens, texts => sequenceRests tokens (union [] (texts.flatMap t.rests))

end

/-- Whether a part is the given character. -/
def Token.isLiteral (c : Char) : Token → Bool
  | .literal d => c = d
  | _ => false

/-- Whether a part is any character. -/
def Token.isAnyLiteral : Token → Bool
  | .literal _ => true
  | _ => false

/-- Whether a glob spells a path out: all of it, or its end from a directory on. -/
def spellsOut : List Token → Bool
  | .leadingDirectories :: tokens =>
    tokens.all Token.isAnyLiteral && tokens.any (Token.isLiteral '/')
  | tokens => tokens.all Token.isAnyLiteral

/-- Whether a glob may match a path at all. A path that ends with a dot has no file
name, so a glob that ends with a dot matches it only if it spells the path out. -/
def mayMatch (tokens : List Token) (path : List UInt8) : Bool :=
  let endsWithDot := path.getLast? == some '.'.toUInt8
  let looksForDot := (tokens.getLast?.map (Token.isLiteral '.')).getD false
  !(endsWithDot && looksForDot) || spellsOut tokens

/-- Whether a path, given by its bytes, matches a glob. A double star alone matches
every path. -/
def «matches» (tokens : List Token) (path : List UInt8) : Bool :=
  match tokens with
  | [.leadingDirectories] => true
  | tokens => mayMatch tokens path && (sequenceRests tokens [path]).any List.isEmpty

end Filewise.Glob
