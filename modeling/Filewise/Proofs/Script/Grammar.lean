import Filewise.Proofs.Text.Runs
import Filewise.Script.Comments
import Mathlib.Data.List.Basic
import Mathlib.Data.List.Induction
import Mathlib.Tactic.Common

/-!
# The grammar of scripts

What a segment of a script looks like is said without reading the script: a string literal
closes at the first quote that fits and is not escaped, a block comment at the first closing
after its opening, and a regular expression literal at the first slash that is neither escaped
nor between brackets. Which segments may stand at a place depends on the last significant
token, which is read off the segments before.

Reading a script from left to right finds exactly these segments, and there is only one way
to cut a script into them.

## Main definitions

* `StringTail`, `RegexTail`, `CommentTail`: literals and comments after their openings.
* `lastToken`: the last significant token before a place.
* `IsSegmentAt`: the segments that may stand at a place.
* `IsSegmentation`: a script cut into segments, each of which may stand at its place.

## Main results

* `next_eq_ok_iff`: the segment at the start of a text is the one that may stand there.
* `segments_eq_ok_iff`: reading a script cuts it into segments.
* `stripComments_iff_segmentation`: comments are removed from a script exactly if it can be
  cut into segments, which can be done in one way only.
-/

namespace Filewise.Script

/-! ### Literals and comments -/

/-- The characters that open and close string literals. -/
def IsQuote (c : Char) : Prop := c = '"' ∨ c = '\'' ∨ c = '`'

instance (c : Char) : Decidable (IsQuote c) := inferInstanceAs (Decidable (_ ∨ _))

/-- A string literal after its opening quote. Only a backquoted one goes on in the next line,
unless the line end is escaped. -/
inductive StringTail (quote : Char) : List Char → Prop
  | close : StringTail quote [quote]
  | escape {c tail} : StringTail quote tail → StringTail quote ('\\' :: c :: tail)
  | char {c tail} : c ≠ '\\' → c ≠ quote → (c = '\n' → quote = '`') →
      StringTail quote tail → StringTail quote (c :: tail)

/-- A regular expression literal after its opening slash, or after a part of it that ends
between brackets or outside of them. The letters after the closing slash are its flags. -/
inductive RegexTail : Bool → List Char → Prop
  | close {flags} : (∀ c ∈ flags, Text.isAsciiLetter c = true) → RegexTail false ('/' :: flags)
  | escape {inBrackets c tail} : RegexTail inBrackets tail →
      RegexTail inBrackets ('\\' :: c :: tail)
  | openBracket {inBrackets tail} : RegexTail true tail → RegexTail inBrackets ('[' :: tail)
  | closeBracket {inBrackets tail} : RegexTail false tail → RegexTail inBrackets (']' :: tail)
  | char {inBrackets c tail} : c ∉ ['\\', '\n', '[', ']'] → (c = '/' → inBrackets = true) →
      RegexTail inBrackets tail → RegexTail inBrackets (c :: tail)

/-- A block comment after its opening: it ends with the only closing in it. -/
structure CommentTail (tail : List Char) : Prop where
  closed : ∃ body, tail = body ++ ['*', '/']
  first : ∀ before after, tail = before ++ '*' :: '/' :: after → after = []

/-! ### Segments at their places -/

/-- The text of segments. -/
def textOf (found : List Segment) : List Char := found.flatMap Segment.chars

/-- Whether a segment is neither a comment nor a space. -/
def Segment.isSignificant : Segment → Bool
  | .lineComment _ | .blockComment _ => false
  | .code c => Text.isIdentifierChar c || !Text.isSpace c
  | .string _ | .regex _ => true

/-- The identifier characters in front of segments. -/
def leadingWord : List Segment → List Char
  | .code c :: rest => if Text.isIdentifierChar c then c :: leadingWord rest else []
  | _ => []

/-- The last significant token of segments: a literal, a word with all the identifier
characters that stand together, or any other character of code. -/
def lastToken (before : List Segment) : LastToken :=
  match before.reverse.dropWhile (fun segment => !segment.isSignificant) with
  | [] => .none
  | .code c :: rest =>
    if Text.isIdentifierChar c then .word (leadingWord (.code c :: rest)).reverse
    else .punctuator c
  | _ :: _ => .literal

/-- The segments that may stand after a token and in front of a text. A slash opens a comment if
it can, else a regular expression if one may begin, and is a character of code otherwise. -/
inductive IsSegmentAt (last : LastToken) : Segment → List Char → Prop
  | string {quote tail rest} : IsQuote quote → StringTail quote tail →
      IsSegmentAt last (.string (quote :: tail)) rest
  | lineComment {body rest} : '\n' ∉ body → (∀ c, rest.head? = some c → c = '\n') →
      IsSegmentAt last (.lineComment ('/' :: '/' :: body)) rest
  | blockComment {tail rest} : CommentTail tail →
      IsSegmentAt last (.blockComment ('/' :: '*' :: tail)) rest
  | regex {tail rest} : last.allowsRegex = true → RegexTail false tail →
      tail.head? ≠ some '/' → tail.head? ≠ some '*' →
      (∀ c, rest.head? = some c → Text.isAsciiLetter c = false) →
      IsSegmentAt last (.regex ('/' :: tail)) rest
  | code {c rest} : ¬IsQuote c →
      (c = '/' → last.allowsRegex = false ∧ rest.head? ≠ some '/' ∧ rest.head? ≠ some '*') →
      IsSegmentAt last (.code c) rest

/-- A script cut into segments, each of which may stand after those before it and in front of the
text of those after it. -/
structure IsSegmentation (found : List Segment) (text : List Char) : Prop where
  textOf_eq : textOf found = text
  isAt : ∀ before segment after, found = before ++ segment :: after →
    IsSegmentAt (lastToken before) segment (textOf after)

variable {text tail rest rest' : List Char} {found found' : List Segment} {segment : Segment}

@[simp] theorem textOf_nil : textOf [] = [] := rfl

@[simp] theorem textOf_cons (segment : Segment) (found : List Segment) :
    textOf (segment :: found) = segment.chars ++ textOf found := rfl

@[simp] theorem textOf_append (found found' : List Segment) :
    textOf (found ++ found') = textOf found ++ textOf found' := List.flatMap_append

/-! ### Reading literals and comments -/

theorem stringBody?_cons {quote c : Char} (hc : c ≠ '\\') (text : List Char) :
    stringBody? quote (c :: text) =
      if c = '\n' ∧ quote ≠ '`' then none
      else if c = quote then some ([c], text)
      else (stringBody? quote text).map (consFirst c) :=
  stringBody?.eq_4 quote c text (by simp [hc]) (by simp [hc])

theorem regexBody?_cons {inBrackets : Bool} {c : Char} (hc : c ≠ '\\') (text : List Char) :
    regexBody? inBrackets (c :: text) =
      if c = '\n' then none
      else if c = '/' ∧ ¬inBrackets then
        some (c :: text.takeWhile Text.isAsciiLetter, text.dropWhile Text.isAsciiLetter)
      else (regexBody? (bracketsAfter inBrackets c) text).map (consFirst c) :=
  regexBody?.eq_4 inBrackets c text (by simp [hc]) (by simp [hc])

theorem commentBody?_cons {c : Char} (h : c = '*' → text.head? ≠ some '/') :
    commentBody? (c :: text) = (commentBody? text).map (consFirst c) := by
  refine commentBody?.eq_3 c text fun rest hc htext => ?_
  subst htext
  exact h hc rfl

/-- A character that begins no escape, whether or not something follows it, is no backslash. -/
theorem ne_backslash {c : Char} (hend : c = '\\' → text = [] → False)
    (hescape : ∀ d rest, c = '\\' → text = d :: rest → False) : c ≠ '\\' := by
  rintro rfl
  cases text with
  | nil => exact hend rfl rfl
  | cons d rest => exact hescape d rest rfl rfl

/-- What is read after an opening quote is the rest of the literal. -/
theorem stringTail_of_stringBody? {quote : Char} (h : stringBody? quote text = some (tail, rest)) :
    StringTail quote tail := by
  -- the reader takes an escape, the closing quote or one character at a time
  fun_induction stringBody? quote text generalizing tail rest with
  | case1 | case2 | case4 => simp at h
  | case3 c text ih =>
    obtain ⟨escaped, rfl, hescaped⟩ := eq_of_map_consFirst h
    obtain ⟨shorter, rfl, hfound⟩ := eq_of_map_consFirst hescaped
    exact .escape (ih hfound)
  | case5 =>
    simp only [Option.some.injEq, Prod.mk.injEq] at h
    rw [← h.1]
    exact .close
  | case6 c text hend hnotEscape hline hne ih =>
    obtain ⟨shorter, rfl, hfound⟩ := eq_of_map_consFirst h
    refine .char (ne_backslash hend hnotEscape) hne (fun hc => ?_) (ih hfound)
    by_contra hbackquote
    exact hline ⟨hc, hbackquote⟩

/-- The rest of a literal is read after its opening quote. -/
theorem StringTail.stringBody?_append {quote : Char} (hquote : IsQuote quote)
    (h : StringTail quote tail) : stringBody? quote (tail ++ rest) = some (tail, rest) := by
  have hescape : quote ≠ '\\' := by
    rintro rfl
    revert hquote
    decide
  have hline : quote ≠ '\n' := by
    rintro rfl
    revert hquote
    decide
  induction h with
  | close =>
    rw [List.singleton_append, stringBody?_cons hescape, if_neg (by simp [hline]), if_pos rfl]
  | escape _ ih =>
    rw [List.cons_append, List.cons_append, stringBody?, ih]
    rfl
  | char hnotEscape hne hlineEnd _ ih =>
    rw [List.cons_append, stringBody?_cons hnotEscape, if_neg (by tauto), if_neg hne, ih]
    rfl

/-- A string literal is read exactly if it stands there. -/
theorem stringBody?_eq_some_iff {quote : Char} (hquote : IsQuote quote) :
    stringBody? quote text = some (tail, rest) ↔ StringTail quote tail ∧ text = tail ++ rest := by
  constructor
  · intro h
    exact ⟨stringTail_of_stringBody? h, stringBody?_eq_append h⟩
  · rintro ⟨h, rfl⟩
    exact h.stringBody?_append hquote

/-- What is read after the opening slash of a regular expression is the rest of the literal, with
all its flags. -/
theorem regexTail_of_regexBody? {inBrackets : Bool}
    (h : regexBody? inBrackets text = some (tail, rest)) :
    RegexTail inBrackets tail ∧ ∀ c, rest.head? = some c → Text.isAsciiLetter c = false := by
  fun_induction regexBody? inBrackets text generalizing tail rest with
  | case1 | case2 | case4 => simp at h
  | case3 inBrackets c text ih =>
    obtain ⟨escaped, rfl, hescaped⟩ := eq_of_map_consFirst h
    obtain ⟨shorter, rfl, hfound⟩ := eq_of_map_consFirst hescaped
    exact ⟨.escape (ih hfound).1, (ih hfound).2⟩
  | case5 inBrackets c text hend hnotEscape _ hclose =>
    simp only [Option.some.injEq, Prod.mk.injEq] at h
    obtain ⟨rfl, rfl⟩ := h
    obtain ⟨rfl, hclosed⟩ := hclose
    obtain rfl : inBrackets = false := by simpa using hclosed
    exact ⟨.close fun c hc => List.mem_takeWhile_imp hc,
      fun c hc => Text.head?_dropWhile_eq_false hc⟩
  | case6 inBrackets c text hend hnotEscape hline hopen ih =>
    obtain ⟨shorter, rfl, hfound⟩ := eq_of_map_consFirst h
    obtain ⟨htail, hrest⟩ := ih hfound
    refine ⟨?_, hrest⟩
    have hescape : c ≠ '\\' := ne_backslash hend hnotEscape
    unfold bracketsAfter at htail
    split_ifs at htail with hopening hclosing
    · rw [hopening]
      exact .openBracket htail
    · rw [hclosing]
      exact .closeBracket htail
    · refine .char (by simp [hescape, hline, hopening, hclosing]) (fun hc => ?_) htail
      by_contra hbrackets
      exact hopen ⟨hc, hbrackets⟩

/-- The rest of a literal with all its flags is read after the opening slash. -/
theorem RegexTail.regexBody?_append {inBrackets : Bool} (h : RegexTail inBrackets tail)
    (hrest : ∀ c, rest.head? = some c → Text.isAsciiLetter c = false) :
    regexBody? inBrackets (tail ++ rest) = some (tail, rest) := by
  induction h with
  | close hflags =>
    obtain ⟨htake, hdrop⟩ := Text.takeWhile_dropWhile_append hflags hrest
    rw [List.cons_append, regexBody?_cons (by decide), if_neg (by decide), if_pos (by simp),
      htake, hdrop]
  | escape _ ih =>
    rw [List.cons_append, List.cons_append, regexBody?, ih]
    rfl
  | openBracket _ ih =>
    rw [List.cons_append, regexBody?_cons (by decide), if_neg (by decide), if_neg (by simp),
      bracketsAfter, if_pos rfl, ih]
    rfl
  | closeBracket _ ih =>
    rw [List.cons_append, regexBody?_cons (by decide), if_neg (by decide), if_neg (by simp),
      bracketsAfter, if_neg (by decide), if_pos rfl, ih]
    rfl
  | @char inBrackets c tail hc hslash _ ih =>
    simp only [List.mem_cons, List.not_mem_nil, or_false, not_or] at hc
    obtain ⟨hescape, hline, hopening, hclosing⟩ := hc
    have hopen : ¬(c = '/' ∧ ¬inBrackets = true) := fun h => h.2 (hslash h.1)
    rw [List.cons_append, regexBody?_cons hescape, if_neg hline, if_neg hopen, bracketsAfter,
      if_neg hopening, if_neg hclosing, ih]
    rfl

/-- A regular expression is read exactly if its literal stands there. -/
theorem regexBody?_eq_some_iff {inBrackets : Bool} :
    regexBody? inBrackets text = some (tail, rest) ↔
      RegexTail inBrackets tail ∧ text = tail ++ rest ∧
        ∀ c, rest.head? = some c → Text.isAsciiLetter c = false := by
  constructor
  · intro h
    exact ⟨(regexTail_of_regexBody? h).1, regexBody?_eq_append h, (regexTail_of_regexBody? h).2⟩
  · rintro ⟨h, rfl, hrest⟩
    exact h.regexBody?_append hrest

/-- A comment ends at once, or its first character does not belong to the closing. -/
theorem commentTail_cons {c : Char} : CommentTail (c :: tail) ↔
    (c = '*' ∧ tail = ['/']) ∨ (CommentTail tail ∧ (c = '*' → tail.head? ≠ some '/')) := by
  constructor
  · rintro ⟨⟨body, hbody⟩, hfirst⟩
    cases body with
    | nil =>
      obtain ⟨rfl, rfl⟩ := List.cons.inj hbody
      exact Or.inl ⟨rfl, rfl⟩
    | cons d body =>
      obtain ⟨rfl, rfl⟩ := List.cons.inj hbody
      refine Or.inr ⟨⟨⟨body, rfl⟩, fun before after h => ?_⟩, ?_⟩
      · exact hfirst (c :: before) after (by rw [h, List.cons_append])
      · rintro rfl hhead
        -- otherwise the comment would have ended here
        obtain ⟨after, hafter⟩ := List.head?_eq_some_iff.mp hhead
        have hnil := hfirst [] after (by rw [hafter, List.nil_append])
        have hlength := congrArg List.length hafter
        simp [hnil] at hlength
  · rintro (⟨rfl, rfl⟩ | ⟨⟨⟨body, rfl⟩, hfirst⟩, hnot⟩)
    · refine ⟨⟨[], rfl⟩, fun before after h => ?_⟩
      have hlength := congrArg List.length h
      simp only [List.length_append, List.length_cons, List.length_nil] at hlength
      exact List.length_eq_zero_iff.mp (by omega)
    · refine ⟨⟨c :: body, rfl⟩, fun before after h => ?_⟩
      cases before with
      | nil =>
        obtain ⟨rfl, htail⟩ := List.cons.inj h
        exact absurd (by rw [htail, List.head?_cons]) (hnot rfl)
      | cons d before => exact hfirst before after (List.cons.inj h).2

theorem not_commentTail_nil : ¬CommentTail [] := by
  rintro ⟨⟨body, hbody⟩, -⟩
  simp at hbody

/-- What is read after the opening of a block comment is the rest of the comment. -/
theorem commentBody?_eq_some_iff :
    commentBody? text = some (tail, rest) ↔ CommentTail tail ∧ text = tail ++ rest := by
  constructor
  · intro h
    refine ⟨?_, commentBody?_eq_append h⟩
    fun_induction commentBody? text generalizing tail rest with
    | case1 => simp at h
    | case2 =>
      simp only [Option.some.injEq, Prod.mk.injEq] at h
      rw [← h.1]
      exact commentTail_cons.mpr (Or.inl ⟨rfl, rfl⟩)
    | case3 c text hnot ih =>
      obtain ⟨shorter, rfl, hfound⟩ := eq_of_map_consFirst h
      refine commentTail_cons.mpr (Or.inr ⟨ih hfound, fun hc hhead => ?_⟩)
      obtain ⟨after, rfl⟩ := List.head?_eq_some_iff.mp hhead
      exact hnot (after ++ rest) hc (by rw [commentBody?_eq_append hfound, List.cons_append])
  · rintro ⟨h, rfl⟩
    induction tail with
    | nil => exact absurd h not_commentTail_nil
    | cons c tail ih =>
      rcases commentTail_cons.mp h with ⟨rfl, rfl⟩ | ⟨htail, hnot⟩
      · rfl
      · have hne : tail ≠ [] := by
          rintro rfl
          exact not_commentTail_nil htail
        rw [List.cons_append, commentBody?_cons, ih htail]
        · rfl
        · rwa [List.head?_append_of_ne_nil _ hne]

/-! ### Reading segments -/

theorem RegexTail.ne_nil {inBrackets : Bool} (h : RegexTail inBrackets tail) : tail ≠ [] := by
  cases h <;> exact List.cons_ne_nil _ _

/-- A line comment is read up to the end of its line. -/
theorem takeWhile_dropWhile_of_line {body : List Char} (hbody : '\n' ∉ body)
    (hrest : ∀ c, rest.head? = some c → c = '\n') :
    (body ++ rest).takeWhile (· ≠ '\n') = body ∧ (body ++ rest).dropWhile (· ≠ '\n') = rest := by
  refine Text.takeWhile_dropWhile_append (fun c hc => ?_) fun c hc => ?_
  · rw [decide_eq_true_iff]
    rintro rfl
    exact hbody hc
  · rw [hrest c hc]
    decide

/-- What is read at the start of a text may stand there. -/
theorem isSegmentAt_of_next {context : Context} {c : Char}
    (h : next? context c rest = .ok (segment, rest')) :
    IsSegmentAt context.last segment rest' := by
  revert h
  -- a quote, a line comment, a block comment and a regular expression are tried in this order
  fun_cases next? context c rest with
  | case1 hquote tail after hbody =>
    intro h
    obtain ⟨rfl, rfl⟩ := Prod.mk.inj (Except.ok.inj h)
    exact .string hquote ((stringBody?_eq_some_iff hquote).mp hbody).1
  | case3 _ hline =>
    intro h
    obtain ⟨rfl, hhead⟩ := hline
    obtain ⟨body, rfl⟩ := List.head?_eq_some_iff.mp hhead
    obtain ⟨rfl, rfl⟩ := Prod.mk.inj (Except.ok.inj h)
    rw [List.takeWhile_cons_of_pos (by decide), List.dropWhile_cons_of_pos (by decide)]
    refine .lineComment (fun hmem => ?_) fun d hd => ?_
    · simpa using List.mem_takeWhile_imp hmem
    · simpa using Text.head?_dropWhile_eq_false hd
  | case4 _ _ hblock tail after hbody =>
    intro h
    obtain ⟨rfl, -⟩ := hblock
    obtain ⟨rfl, rfl⟩ := Prod.mk.inj (Except.ok.inj h)
    exact .blockComment (commentBody?_eq_some_iff.mp hbody).1
  | case6 _ hline hblock hregex tail after hbody =>
    intro h
    obtain ⟨rfl, hallowed⟩ := hregex
    obtain ⟨rfl, rfl⟩ := Prod.mk.inj (Except.ok.inj h)
    obtain ⟨htail, rfl, hrest⟩ := regexBody?_eq_some_iff.mp hbody
    rw [List.head?_append_of_ne_nil _ htail.ne_nil] at hline hblock
    exact .regex hallowed htail (fun h => hline ⟨rfl, h⟩) (fun h => hblock ⟨rfl, h⟩) hrest
  | case8 hquote hline hblock hregex =>
    intro h
    obtain ⟨rfl, rfl⟩ := Prod.mk.inj (Except.ok.inj h)
    refine .code hquote fun hc => ⟨?_, fun h => hline ⟨hc, h⟩, fun h => hblock ⟨hc, h⟩⟩
    rw [← Bool.not_eq_true]
    exact fun h => hregex ⟨hc, h⟩
  | case2 | case5 | case7 => simp

/-- What may stand at the start of a text is read there. -/
theorem next_of_isSegmentAt {context : Context} {c : Char}
    (h : IsSegmentAt context.last segment rest') (happend : c :: rest = segment.chars ++ rest') :
    next? context c rest = .ok (segment, rest') := by
  -- the first character decides how the rest of the segment is read
  cases h with
  | @string quote tail _ hquote htail =>
    rw [Segment.chars, List.cons_append] at happend
    obtain ⟨rfl, rfl⟩ := List.cons.inj happend
    unfold IsQuote at hquote
    rw [next?, if_pos hquote, (stringBody?_eq_some_iff hquote).mpr ⟨htail, rfl⟩]
  | @lineComment body _ hbody hrest =>
    rw [Segment.chars, List.cons_append] at happend
    obtain ⟨rfl, rfl⟩ := List.cons.inj happend
    have hslash : '\n' ∉ '/' :: body := by simpa using hbody
    obtain ⟨htake, hdrop⟩ := takeWhile_dropWhile_of_line hslash hrest
    rw [next?, if_neg (by decide), if_pos ⟨rfl, rfl⟩, htake, hdrop]
  | @blockComment tail _ htail =>
    rw [Segment.chars, List.cons_append] at happend
    obtain ⟨rfl, rfl⟩ := List.cons.inj happend
    rw [next?, if_neg (by decide), if_neg (by simp), if_pos ⟨rfl, rfl⟩, List.cons_append,
      List.tail_cons, commentBody?_eq_some_iff.mpr ⟨htail, rfl⟩]
  | @regex tail _ hallowed htail hline hblock hrest =>
    rw [Segment.chars, List.cons_append] at happend
    obtain ⟨rfl, rfl⟩ := List.cons.inj happend
    have hhead : (tail ++ rest').head? = tail.head? :=
      List.head?_append_of_ne_nil _ htail.ne_nil
    rw [next?, if_neg (by decide), if_neg fun h => hline (hhead ▸ h.2),
      if_neg fun h => hblock (hhead ▸ h.2), if_pos ⟨rfl, hallowed⟩,
      regexBody?_eq_some_iff.mpr ⟨htail, rfl, hrest⟩]
  | @code d _ hquote hslash =>
    obtain ⟨rfl, rfl⟩ := List.cons.inj happend
    unfold IsQuote at hquote
    rw [next?, if_neg hquote, if_neg fun h => (hslash h.1).2.1 h.2,
      if_neg fun h => (hslash h.1).2.2 h.2, if_neg]
    rintro ⟨hc, hallowed⟩
    rw [(hslash hc).1] at hallowed
    simp at hallowed

/-- The segment that is read at the start of a text is the one that may stand there. -/
theorem next_eq_ok_iff {context : Context} {c : Char} :
    next? context c rest = .ok (segment, rest') ↔
      IsSegmentAt context.last segment rest' ∧ c :: rest = segment.chars ++ rest' :=
  ⟨fun h => ⟨isSegmentAt_of_next h, next_eq_append h⟩,
    fun ⟨h, happend⟩ => next_of_isSegmentAt h happend⟩

/-- A segment has at least one character. -/
theorem IsSegmentAt.chars_ne_nil {last : LastToken} (h : IsSegmentAt last segment rest) :
    segment.chars ≠ [] := by
  cases h <;> exact List.cons_ne_nil _ _

/-- At the start of a text there is only one segment. -/
theorem IsSegmentAt.unique {last : LastToken} {segment' : Segment}
    (h : IsSegmentAt last segment rest) (h' : IsSegmentAt last segment' rest')
    (htext : segment.chars ++ rest = segment'.chars ++ rest') :
    segment = segment' ∧ rest = rest' := by
  obtain ⟨c, shorter, hchars⟩ := List.exists_cons_of_ne_nil h.chars_ne_nil
  rw [hchars, List.cons_append] at htext
  have hread : next? ⟨last, false⟩ c (shorter ++ rest) = .ok (segment, rest) :=
    next_eq_ok_iff.mpr ⟨h, by rw [hchars, List.cons_append]⟩
  have hread' : next? ⟨last, false⟩ c (shorter ++ rest) = .ok (segment', rest') :=
    next_eq_ok_iff.mpr ⟨h', htext⟩
  rw [hread, Except.ok.injEq, Prod.mk.injEq] at hread'
  exact hread'

/-! ### The last significant token -/

/-- What reading some segments leaves behind. -/
def contextAfter (before : List Segment) : Context := before.foldl Context.after .start

theorem contextAfter_concat (before : List Segment) (segment : Segment) :
    contextAfter (before ++ [segment]) = (contextAfter before).after segment := by
  rw [contextAfter, List.foldl_append]
  rfl

theorem lastToken_concat_of_insignificant (before : List Segment)
    (h : segment.isSignificant = false) : lastToken (before ++ [segment]) = lastToken before := by
  rw [lastToken, List.reverse_concat, List.dropWhile_cons_of_pos (by simp [h]), lastToken]

/-- A word that ends right here is the last significant token. -/
theorem lastToken_of_leadingWord {before : List Segment} (h : leadingWord before.reverse ≠ []) :
    lastToken before = .word (leadingWord before.reverse).reverse := by
  unfold lastToken
  cases hreverse : before.reverse with
  | nil => simp [hreverse, leadingWord] at h
  | cons segment rest =>
    rw [hreverse] at h
    cases segment with
    | code c =>
      have hword : Text.isIdentifierChar c = true := by
        by_contra hword
        simp [leadingWord, hword] at h
      simp [Segment.isSignificant, hword]
    | _ => simp [leadingWord] at h

/-- What is remembered of the segments before is their last significant token, and whether an
identifier character would continue a word. -/
theorem contextAfter_eq (before : List Segment) : contextAfter before =
    ⟨lastToken before, !(leadingWord before.reverse).isEmpty⟩ := by
  induction before using List.reverseRecOn with
  | nil => rfl
  | append_singleton before segment ih =>
    rw [contextAfter_concat, ih, List.reverse_concat]
    cases segment with
    | string chars | regex chars =>
      simp [Context.after, lastToken, leadingWord, Segment.isSignificant]
    | lineComment chars | blockComment chars =>
      rw [lastToken_concat_of_insignificant before rfl]
      rfl
    | code c =>
      rw [Context.after, Context.afterCode]
      by_cases hword : Text.isIdentifierChar c = true
      · have hlast : lastToken (before ++ [.code c]) =
            .word ((leadingWord before.reverse).reverse ++ [c]) := by
          simp [lastToken, leadingWord, Segment.isSignificant, hword]
        rw [hlast, if_pos hword, leadingWord, if_pos hword]
        -- the word goes on if an identifier character stands right before
        by_cases hbefore : leadingWord before.reverse = []
        · simp [hbefore]
        · have hinWord : (leadingWord before.reverse).isEmpty = false := by simpa using hbefore
          rw [lastToken_of_leadingWord hbefore, hinWord]
          rfl
      · rw [if_neg hword, leadingWord, if_neg hword]
        by_cases hspace : Text.isSpace c = true
        · rw [lastToken_concat_of_insignificant before (by simp [Segment.isSignificant, *]),
            if_pos hspace]
          rfl
        · simp [lastToken, Segment.isSignificant, hword, hspace]

/-! ### Reading scripts -/

/-- Each segment may stand where it is read, in the context that those before leave behind. -/
def Reads (context : Context) : List Segment → Prop
  | [] => True
  | segment :: rest =>
    IsSegmentAt context.last segment (textOf rest) ∧ Reads (context.after segment) rest

/-- Segments are read at their places if they may stand there. -/
theorem reads_contextAfter_iff (before : List Segment) :
    Reads (contextAfter before) found ↔ ∀ between segment after,
      found = between ++ segment :: after →
        IsSegmentAt (lastToken (before ++ between)) segment (textOf after) := by
  induction found generalizing before with
  | nil => simp [Reads]
  | cons first rest ih =>
    rw [Reads, ← contextAfter_concat, ih]
    have hlast : (contextAfter before).last = lastToken before := by rw [contextAfter_eq]
    rw [hlast]
    constructor
    · rintro ⟨hfirst, hrest⟩ between segment after heq
      cases between with
      | nil =>
        obtain ⟨rfl, rfl⟩ := List.cons.inj heq
        rwa [List.append_nil]
      | cons d between =>
        obtain ⟨rfl, hsplit⟩ := List.cons.inj heq
        have hplace := hrest between segment after hsplit
        rwa [List.append_assoc] at hplace
    · intro h
      refine ⟨?_, fun between segment after heq => ?_⟩
      · have hfirst := h [] first rest rfl
        rwa [List.append_nil] at hfirst
      · have hplace := h (first :: between) segment after (by rw [heq, List.cons_append])
        rwa [List.append_assoc]

/-- What is read of a text are segments that make it up, each at its place. -/
theorem segmentsFrom_eq_ok_iff {context : Context} {line : Nat} :
    segmentsFrom context line text = .ok found ↔ Reads context found ∧ textOf found = text := by
  fun_induction segmentsFrom context line text generalizing found with
  | case1 context line =>
    constructor
    · rintro h
      obtain rfl := Except.ok.inj h
      exact ⟨trivial, rfl⟩
    · rintro ⟨hreads, htext⟩
      cases found with
      | nil => rfl
      | cons segment rest =>
        exact absurd (List.append_eq_nil_iff.mp htext).1 hreads.1.chars_ne_nil
  | case2 context line c rest opening hnext =>
    refine iff_of_false (by simp) ?_
    rintro ⟨hreads, htext⟩
    cases found with
    | nil => simp at htext
    | cons segment after =>
      rw [next_eq_ok_iff.mpr ⟨hreads.1, htext.symm⟩] at hnext
      simp at hnext
  | case3 context line c rest segment rest' hnext newlines =>
    rename_i ih
    obtain ⟨hsegment, happend⟩ := next_eq_ok_iff.mp hnext
    constructor
    · intro h
      cases hrest : segmentsFrom (context.after segment) (line + newlines) rest' with
      | error opening => simp [hrest, bind, Except.bind] at h
      | ok after =>
        simp only [hrest, bind, Except.bind, pure, Except.pure, Except.ok.injEq] at h
        subst h
        obtain ⟨hreads, htext⟩ := ih.mp hrest
        exact ⟨⟨htext ▸ hsegment, hreads⟩, by rw [textOf_cons, htext, happend]⟩
    · rintro ⟨hreads, htext⟩
      cases found with
      | nil => simp at htext
      | cons segment' after =>
        -- only one segment may stand here
        obtain ⟨rfl, hafter⟩ := hreads.1.unique hsegment (htext.trans happend)
        rw [ih.mpr ⟨hreads.2, hafter⟩]
        rfl

/-- Reading a script cuts it into segments, each of which may stand at its place. -/
theorem segments_eq_ok_iff : segments text = .ok found ↔ IsSegmentation found text := by
  have hstart := @reads_contextAfter_iff found []
  rw [segments, segmentsFrom_eq_ok_iff]
  constructor
  · rintro ⟨hreads, htext⟩
    exact ⟨htext, hstart.mp hreads⟩
  · rintro ⟨htext, hplaces⟩
    exact ⟨hstart.mpr hplaces, htext⟩

/-- A script can be cut into segments in one way only. -/
theorem IsSegmentation.unique (h : IsSegmentation found text) (h' : IsSegmentation found' text) :
    found = found' :=
  Except.ok.inj ((segments_eq_ok_iff.mpr h).symm.trans (segments_eq_ok_iff.mpr h'))

/-- Comments are removed from a script exactly if it can be cut into segments. This can be done in
one way only, and what is left of the segments is what is left of the script. -/
theorem stripComments_iff_segmentation (keepLicenses : Bool) (script : String) :
    ((∃ output, stripComments keepLicenses script = .ok output) ↔
      ∃ found, IsSegmentation found script.toList) ∧
    (∀ found found', IsSegmentation found script.toList → IsSegmentation found' script.toList →
      found = found') ∧
    ∀ found, IsSegmentation found script.toList → stripComments keepLicenses script =
      .ok (String.ofList (found.flatMap (Segment.render keepLicenses))) := by
  have houtput : ∀ found, IsSegmentation found script.toList → stripComments keepLicenses script =
      .ok (String.ofList (found.flatMap (Segment.render keepLicenses))) := by
    intro found h
    rw [stripComments_eq, segments_eq_ok_iff.mpr h]
    rfl
  refine ⟨⟨?_, fun ⟨found, h⟩ => ⟨_, houtput found h⟩⟩, fun _ _ h h' => h.unique h', houtput⟩
  rintro ⟨output, h⟩
  cases hfound : segments script.toList with
  | error opening => simp [stripComments_eq, hfound, Except.map] at h
  | ok found => exact ⟨found, segments_eq_ok_iff.mp hfound⟩

end Filewise.Script
