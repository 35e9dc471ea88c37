import Filewise.Text.CharClass

/-!
# Segments of a script

A script is cut into segments from left to right: string literals, regular
expression literals, comments, and single characters of code for everything
else. Whether a slash opens a regular expression depends on the last significant
token before it, so the cut carries that token along. Comments are not
significant, but they end a word.

## Main definitions

* `Segment`: a piece of a script, with all its characters.
* `Segment.render`: what is left of a segment when comments are removed.
* `Context`: what has to be remembered of the segments before.
* `next?`: the segment at the start of a text.
* `segments`: all segments of a text, or the first literal or comment that is
  opened and never closed.

## Main results

* `next_eq_append`: a segment and the rest make up the text.
-/

namespace Filewise.Script

/-- A piece of a script. -/
inductive Segment where
  /-- A string literal with both its quotes. -/
  | string (chars : List Char)
  /-- A regular expression literal with its slashes and flags. -/
  | regex (chars : List Char)
  /-- A comment from two slashes up to the end of the line. -/
  | lineComment (chars : List Char)
  /-- A comment between a slash with an asterisk and an asterisk with a slash. -/
  | blockComment (chars : List Char)
  /-- A single character of anything else. -/
  | code (c : Char)
  deriving DecidableEq, Repr

/-- The characters of a segment. -/
def Segment.chars : Segment → List Char
  | .string chars | .regex chars | .lineComment chars | .blockComment chars => chars
  | .code c => [c]

/-- Whether a block comment opens with an exclamation mark. -/
def isLicense (chars : List Char) : Bool := chars[2]? == some '!'

/-- What is left of a segment. -/
def Segment.render (keepLicenses : Bool) : Segment → List Char
  | .lineComment _ => []
  | .blockComment chars =>
    if keepLicenses && isLicense chars then chars else chars.filter (· == '\n')
  | segment => segment.chars

/-- The last significant token of a script. -/
inductive LastToken where
  | none
  | word (chars : List Char)
  | punctuator (c : Char)
  | literal
  deriving DecidableEq, Repr

/-- Words after which an expression begins. -/
def expressionKeywords : List String :=
  ["return", "typeof", "instanceof", "in", "of", "new", "delete", "void", "throw", "case",
    "do", "else", "yield", "await"]

/-- Punctuators after which an expression begins. -/
def expressionPunctuators : List Char := "(,=:[!&|?\x7b\x7d;+-*%<>~^".toList

/-- Whether a slash after the token opens a regular expression; after any other
token it is a division. -/
def LastToken.allowsRegex : LastToken → Bool
  | .none => true
  | .word chars => expressionKeywords.contains (String.ofList chars)
  | .punctuator c => expressionPunctuators.contains c
  | .literal => false

/-- What the segments so far leave behind. -/
structure Context where
  last : LastToken
  /-- Whether an identifier character would continue the last word. -/
  inWord : Bool
  deriving DecidableEq, Repr

/-- The context at the start of a script. -/
def Context.start : Context := ⟨.none, false⟩

/-- The context after a character of code. Spaces end a word without replacing it. -/
def Context.afterCode (context : Context) (c : Char) : Context :=
  if Text.isIdentifierChar c then
    match context.last, context.inWord with
    -- a word that a space or a comment has cut off is not continued
    | .word chars, true => ⟨.word (chars ++ [c]), true⟩
    | _, _ => ⟨.word [c], true⟩
  else if Text.isSpace c then ⟨context.last, false⟩
  else ⟨.punctuator c, false⟩

/-- The context after a segment. -/
def Context.after (context : Context) : Segment → Context
  | .string _ | .regex _ => ⟨.literal, false⟩
  | .lineComment _ | .blockComment _ => ⟨context.last, false⟩
  | .code c => context.afterCode c

/-- Something that is opened and has to be closed. -/
inductive Opening where
  | string
  | regex
  | blockComment
  deriving DecidableEq, Repr

/-- An opening that is never closed, and its line. -/
structure Unterminated where
  opening : Opening
  line : Nat
  deriving DecidableEq, Repr

/-- The sentence that reports an unclosed opening. -/
def Unterminated.message (u : Unterminated) : String :=
  match u.opening with
  | .string => s!"unterminated string literal on line {u.line}"
  | .regex => s!"unterminated regex literal on line {u.line}"
  | .blockComment => s!"unterminated block comment starting on line {u.line}"

/-- Puts a character before the first of two parts. -/
def consFirst (c : Char) (parts : List Char × List Char) : List Char × List Char :=
  (c :: parts.1, parts.2)

/-- The rest of a string literal after its opening quote, closing quote included,
and what follows. A backslash takes the next character with it; a line end closes
nothing and is allowed between backquotes only. -/
def stringBody? (quote : Char) : List Char → Option (List Char × List Char)
  | [] => none
  -- nothing is left to escape, so the quote is never closed
  | '\\' :: [] => none
  | '\\' :: c :: rest => ((stringBody? quote rest).map (consFirst c)).map (consFirst '\\')
  | c :: rest =>
    if c = '\n' ∧ quote ≠ '`' then none
    else if c = quote then some ([c], rest)
    else (stringBody? quote rest).map (consFirst c)

/-- Whether the place after a character of a regular expression is between brackets. -/
def bracketsAfter (inBrackets : Bool) (c : Char) : Bool :=
  if c = '[' then true else if c = ']' then false else inBrackets

/-- The rest of a regular expression literal after its opening slash, flags
included, and what follows. A slash between brackets does not close it, a line
end never belongs to it unless escaped. -/
def regexBody? (inBrackets : Bool) : List Char → Option (List Char × List Char)
  | [] => none
  | '\\' :: [] => none
  | '\\' :: c :: rest => ((regexBody? inBrackets rest).map (consFirst c)).map (consFirst '\\')
  | c :: rest =>
    if c = '\n' then none
    -- the flags after the closing slash are part of the literal
    else if c = '/' ∧ ¬ inBrackets then
      some (c :: rest.takeWhile Text.isAsciiLetter, rest.dropWhile Text.isAsciiLetter)
    else (regexBody? (bracketsAfter inBrackets c) rest).map (consFirst c)

/-- The rest of a block comment after its opening, closing included, and what
follows. -/
def commentBody? : List Char → Option (List Char × List Char)
  | [] => none
  | '*' :: '/' :: rest => some (['*', '/'], rest)
  | c :: rest => (commentBody? rest).map (consFirst c)

/-- The segment at the start of a text that is not empty, and what follows it. -/
def next? (context : Context) (c : Char) (rest : List Char) :
    Except Opening (Segment × List Char) :=
  if c = '"' ∨ c = '\'' ∨ c = '`' then
    match stringBody? c rest with
    | some (body, rest) => .ok (.string (c :: body), rest)
    | none => .error .string
  -- comments come first: no regular expression is empty
  else if c = '/' ∧ rest.head? = some '/' then
    .ok (.lineComment (c :: rest.takeWhile (· ≠ '\n')), rest.dropWhile (· ≠ '\n'))
  else if c = '/' ∧ rest.head? = some '*' then
    match commentBody? rest.tail with
    | some (body, rest) => .ok (.blockComment (c :: '*' :: body), rest)
    | none => .error .blockComment
  else if c = '/' ∧ context.last.allowsRegex then
    match regexBody? false rest with
    | some (body, rest) => .ok (.regex (c :: body), rest)
    | none => .error .regex
  -- a slash that is left over is a division
  else .ok (.code c, rest)

theorem eq_of_map_consFirst {c : Char} {found : Option (List Char × List Char)}
    {body rest : List Char} (h : found.map (consFirst c) = some (body, rest)) :
    ∃ shorter, body = c :: shorter ∧ found = some (shorter, rest) := by
  obtain ⟨⟨shorter, rest'⟩, hfound, heq⟩ := Option.map_eq_some_iff.1 h
  simp only [consFirst, Prod.mk.injEq] at heq
  exact ⟨shorter, heq.1.symm, by rw [hfound, heq.2]⟩

/-- The body of a string literal and what follows it make up the text. -/
theorem stringBody?_eq_append {quote : Char} {text body rest : List Char}
    (h : stringBody? quote text = some (body, rest)) : text = body ++ rest := by
  fun_induction stringBody? quote text generalizing body rest with
  | case1 | case2 | case4 => simp at h
  | case3 c text ih =>
    obtain ⟨escaped, rfl, hescaped⟩ := eq_of_map_consFirst h
    obtain ⟨shorter, rfl, hfound⟩ := eq_of_map_consFirst hescaped
    simp [← ih hfound]
  | case5 =>
    simp only [Option.some.injEq, Prod.mk.injEq] at h
    simp [← h.1, h.2]
  | case6 c text _ _ _ _ ih =>
    obtain ⟨shorter, rfl, hfound⟩ := eq_of_map_consFirst h
    simp [← ih hfound]

/-- The body of a regular expression and what follows it make up the text. -/
theorem regexBody?_eq_append {inBrackets : Bool} {text body rest : List Char}
    (h : regexBody? inBrackets text = some (body, rest)) : text = body ++ rest := by
  fun_induction regexBody? inBrackets text generalizing body rest with
  | case1 | case2 | case4 => simp at h
  | case3 inBrackets c text ih =>
    obtain ⟨escaped, rfl, hescaped⟩ := eq_of_map_consFirst h
    obtain ⟨shorter, rfl, hfound⟩ := eq_of_map_consFirst hescaped
    simp [← ih hfound]
  | case5 =>
    simp only [Option.some.injEq, Prod.mk.injEq] at h
    simp [← h.1, ← h.2]
  | case6 inBrackets c text _ _ _ _ ih =>
    obtain ⟨shorter, rfl, hfound⟩ := eq_of_map_consFirst h
    simp [← ih hfound]

/-- The body of a block comment and what follows it make up the text. -/
theorem commentBody?_eq_append {text body rest : List Char}
    (h : commentBody? text = some (body, rest)) : text = body ++ rest := by
  fun_induction commentBody? text generalizing body rest with
  | case1 => simp at h
  | case2 =>
    simp only [Option.some.injEq, Prod.mk.injEq] at h
    simp [← h.1, h.2]
  | case3 c text _ ih =>
    obtain ⟨shorter, rfl, hfound⟩ := eq_of_map_consFirst h
    simp [← ih hfound]

/-- A segment and what follows it make up the text. -/
theorem next_eq_append {context : Context} {c : Char} {rest rest' : List Char}
    {segment : Segment} (h : next? context c rest = .ok (segment, rest')) :
    c :: rest = segment.chars ++ rest' := by
  revert h
  fun_cases next? context c rest with
  | case1 _ body after hbody =>
    intro h
    obtain ⟨rfl, rfl⟩ := Prod.mk.inj (Except.ok.inj h)
    simp [Segment.chars, stringBody?_eq_append hbody]
  | case3 =>
    intro h
    obtain ⟨rfl, rfl⟩ := Prod.mk.inj (Except.ok.inj h)
    simp [Segment.chars]
  | case4 _ _ hstar body after hbody =>
    intro h
    obtain ⟨rfl, rfl⟩ := Prod.mk.inj (Except.ok.inj h)
    obtain ⟨tail, rfl⟩ := List.head?_eq_some_iff.1 hstar.2
    simpa [Segment.chars] using commentBody?_eq_append hbody
  | case6 _ _ _ _ body after hbody =>
    intro h
    obtain ⟨rfl, rfl⟩ := Prod.mk.inj (Except.ok.inj h)
    simp [Segment.chars, regexBody?_eq_append hbody]
  | case8 =>
    intro h
    obtain ⟨rfl, rfl⟩ := Prod.mk.inj (Except.ok.inj h)
    rfl
  | case2 | case5 | case7 => simp

/-- What follows a segment is shorter than the text. -/
theorem length_lt_of_next {context : Context} {c : Char} {rest rest' : List Char}
    {segment : Segment} (h : next? context c rest = .ok (segment, rest')) :
    rest'.length < (c :: rest).length := by
  have happend := next_eq_append h
  rw [happend, List.length_append]
  suffices 0 < segment.chars.length by omega
  cases hchars : segment.chars with
  | cons => simp
  | nil =>
    exfalso
    unfold next? at h
    grind [Segment.chars]

/-- The segments of a text that starts in the given context and line, or the
first opening that is never closed. -/
def segmentsFrom (context : Context) (line : Nat) :
    List Char → Except Unterminated (List Segment)
  | [] => .ok []
  | c :: rest =>
    match _h : next? context c rest with
    | .error opening => .error ⟨opening, line⟩
    | .ok (segment, rest') => do
      let newlines := segment.chars.count '\n'
      return segment :: (← segmentsFrom (context.after segment) (line + newlines) rest')
termination_by text => text.length
decreasing_by exact length_lt_of_next (by assumption)

theorem segmentsFrom_of_error {context : Context} {line : Nat} {c : Char} {rest : List Char}
    {opening : Opening} (h : next? context c rest = .error opening) :
    segmentsFrom context line (c :: rest) = .error ⟨opening, line⟩ := by
  rw [segmentsFrom]
  split <;> simp_all

theorem segmentsFrom_of_ok {context : Context} {line : Nat} {c : Char} {rest rest' : List Char}
    {segment : Segment} (h : next? context c rest = .ok (segment, rest')) :
    segmentsFrom context line (c :: rest) =
      (segmentsFrom (context.after segment) (line + segment.chars.count '\n') rest').map
        (segment :: ·) := by
  rw [segmentsFrom]
  split
  · simp_all
  · next segment' after h' =>
    obtain ⟨rfl, rfl⟩ := Prod.mk.inj (Except.ok.inj (h.symm.trans h'))
    rfl

/-- The segments of a script. -/
def segments (text : List Char) : Except Unterminated (List Segment) :=
  segmentsFrom .start 1 text

end Filewise.Script
