import Filewise.Proofs.Script.Grammar

/-!
# Tokens that comments keep apart

A comment ends a word, but where it is removed nothing need be left that keeps what stands
before it apart from what stands after it. Then a word runs on into the next word, or a regular
expression takes letters for flags that were a word of their own. Everywhere else the tokens of
a script stay what they are when comments are removed from it, and removing comments once more
changes nothing.

## Main definitions

* `Token`, `tokens`: what a script consists of, apart from spaces and removed comments.
* `Segment.RunsOn`: a segment that goes on behind the comments after it once these are removed.
* `NothingRunsOn`: comments that are removed leave everything apart.

## Main results

* `reads_remaining`: where nothing runs on, what is left of segments is read as it was.
* `nothingRunsOn_of_tokens_eq`: where something runs on, the tokens change.
* `stripComments_keeps_tokens_iff`: the tokens stay and removing comments again changes nothing,
  exactly if nothing runs on.
-/

namespace Filewise.Script

/-! ### Tokens -/

/-- What a script consists of. -/
inductive Token where
  | word (chars : List Char)
  | punctuator (c : Char)
  | string (chars : List Char)
  | regex (chars : List Char)
  | license (chars : List Char)
  deriving DecidableEq, Repr

namespace Segment

/-- Whether a segment is a comment. -/
def isComment : Segment → Bool
  | .lineComment _ | .blockComment _ => true
  | .string _ | .regex _ | .code _ => false

/-- Whether a segment is a comment that is removed. -/
def isRemoved (keepLicenses : Bool) : Segment → Bool
  | .lineComment _ => true
  | .blockComment chars => !(keepLicenses && isLicense chars)
  | .string _ | .regex _ | .code _ => false

/-- The character of a segment that belongs to a word. -/
def identifierChar? : Segment → Option Char
  | .code c => if Text.isIdentifierChar c then some c else none
  | _ => none

/-- The token that a segment is, unless it belongs to a word. -/
def token? (keepLicenses : Bool) : Segment → Option Token
  | .code c => if Text.isSpace c then none else some (.punctuator c)
  | .string chars => some (.string chars)
  | .regex chars => some (.regex chars)
  | .lineComment _ => none
  | .blockComment chars => if keepLicenses && isLicense chars then some (.license chars) else none

end Segment

/-- The token of a word, if it has characters. -/
def wordToken : List Char → List Token
  | [] => []
  | word => [.word word]

/-- The tokens of segments after the beginning of a word, which may be empty. A word goes as far as
its characters stand together. -/
def tokensAfter (keepLicenses : Bool) (word : List Char) : List Segment → List Token
  | [] => wordToken word
  | segment :: rest =>
    match segment.identifierChar? with
    | some c => tokensAfter keepLicenses (word ++ [c]) rest
    | none =>
      wordToken word ++ (segment.token? keepLicenses).toList ++ tokensAfter keepLicenses [] rest

/-- The tokens of segments. -/
def tokens (keepLicenses : Bool) (found : List Segment) : List Token :=
  tokensAfter keepLicenses [] found

/-! ### What is left of segments -/

/-- What is left of the text of segments. -/
def leftOf (keepLicenses : Bool) (found : List Segment) : List Char :=
  found.flatMap (Segment.render keepLicenses)

/-- Once the comments after a segment are removed, it goes on in what stands behind them: a word
in an identifier character, a regular expression in a letter. -/
def Segment.RunsOn (keepLicenses : Bool) (after : List Segment) : Segment → Prop
  | .code c => Text.isIdentifierChar c = true ∧ (after.head?.any Segment.isComment) = true ∧
      ∃ d, (leftOf keepLicenses after).head? = some d ∧ Text.isIdentifierChar d = true
  | .regex _ => ∃ d, (leftOf keepLicenses after).head? = some d ∧ Text.isAsciiLetter d = true
  | .string _ | .lineComment _ | .blockComment _ => False

/-- Comments that are removed leave words and regular expressions apart from what stands behind. -/
def NothingRunsOn (keepLicenses : Bool) (found : List Segment) : Prop :=
  ∀ before segment after, found = before ++ segment :: after →
    ¬segment.RunsOn keepLicenses after

/-- The segments that are left of a segment. -/
def Segment.remains (keepLicenses : Bool) (segment : Segment) : List Segment :=
  if segment.isRemoved keepLicenses then (segment.render keepLicenses).map .code
  else [segment]

/-- The segments that are left of segments. -/
def remaining (keepLicenses : Bool) (found : List Segment) : List Segment :=
  found.flatMap (Segment.remains keepLicenses)

variable {keepLicenses : Bool} {segment : Segment} {found found' rest : List Segment}
  {word text : List Char} {last : LastToken} {context : Context}

@[simp] theorem leftOf_cons : leftOf keepLicenses (segment :: rest) =
    segment.render keepLicenses ++ leftOf keepLicenses rest := rfl

@[simp] theorem remaining_cons : remaining keepLicenses (segment :: rest) =
    segment.remains keepLicenses ++ remaining keepLicenses rest := rfl

theorem nothingRunsOn_cons : NothingRunsOn keepLicenses (segment :: rest) ↔
    ¬segment.RunsOn keepLicenses rest ∧ NothingRunsOn keepLicenses rest := by
  constructor
  · intro h
    exact ⟨h [] segment rest rfl, fun before next after heq =>
      h (segment :: before) next after (by rw [heq, List.cons_append])⟩
  · rintro ⟨hfirst, hrest⟩ before next after heq
    cases before with
    | nil =>
      obtain ⟨rfl, rfl⟩ := List.cons.inj heq
      exact hfirst
    | cons _ before =>
      obtain ⟨-, heq⟩ := List.cons.inj heq
      exact hrest before next after heq

namespace Segment

/-- A segment that is not removed is left as it is. -/
theorem render_of_stays (h : segment.isRemoved keepLicenses = false) :
    segment.render keepLicenses = segment.chars := by
  cases segment with
  | lineComment chars => simp [isRemoved] at h
  | blockComment chars => exact if_pos (by simpa [isRemoved] using h)
  | _ => rfl

/-- A segment that is removed is a comment, of which only line ends are left. -/
theorem of_isRemoved (h : segment.isRemoved keepLicenses = true) :
    segment.isComment = true ∧ segment.identifierChar? = none ∧
      segment.token? keepLicenses = none ∧ ∀ c ∈ segment.render keepLicenses, c = '\n' := by
  cases segment with
  | lineComment chars => exact ⟨rfl, rfl, rfl, by simp [render]⟩
  | blockComment chars =>
    have hkept : (keepLicenses && isLicense chars) = false := by
      simpa only [isRemoved, Bool.not_eq_true'] using h
    refine ⟨rfl, rfl, by rw [token?, hkept]; rfl, fun c hc => ?_⟩
    rw [render, hkept] at hc
    simpa using (List.mem_filter.mp hc).2
  | _ => simp [isRemoved] at h

theorem textOf_remains (keepLicenses : Bool) (segment : Segment) :
    textOf (segment.remains keepLicenses) = segment.render keepLicenses := by
  unfold remains
  split_ifs with h
  · rw [textOf, List.flatMap_map]
    exact List.flatMap_singleton' _
  · rw [render_of_stays (by simpa using h), textOf, List.flatMap_singleton]

/-- Removing comments from what is left changes nothing. -/
theorem render_remains (keepLicenses : Bool) (segment : Segment) :
    (segment.remains keepLicenses).flatMap (render keepLicenses) =
      segment.render keepLicenses := by
  unfold remains
  split_ifs with h
  · rw [List.flatMap_map]
    exact List.flatMap_singleton' _
  · exact List.flatMap_singleton _ _

end Segment

theorem textOf_remaining (keepLicenses : Bool) (found : List Segment) :
    textOf (remaining keepLicenses found) = leftOf keepLicenses found := by
  induction found with
  | nil => rfl
  | cons segment rest ih =>
    rw [remaining_cons, textOf_append, ih, Segment.textOf_remains, leftOf_cons]

theorem leftOf_remaining (keepLicenses : Bool) (found : List Segment) :
    leftOf keepLicenses (remaining keepLicenses found) = leftOf keepLicenses found := by
  induction found with
  | nil => rfl
  | cons segment rest ih =>
    rw [remaining_cons, leftOf, List.flatMap_append, Segment.render_remains, leftOf_cons, ← ih]
    rfl

/-! ### Where words end -/

/-- Some segments do not begin with an identifier character. -/
def StartsNoWord (found : List Segment) : Prop :=
  ∀ segment ∈ found.head?, segment.identifierChar? = none

/-- Unless an identifier character follows, it does not matter whether one would continue a word. -/
theorem reads_iff_of_startsNoWord (h : StartsNoWord found) (inWord : Bool) :
    Reads ⟨last, inWord⟩ found ↔ Reads ⟨last, false⟩ found := by
  cases found with
  | nil => exact Iff.rfl
  | cons segment rest =>
    have hword := h segment rfl
    have hafter : (⟨last, inWord⟩ : Context).after segment =
        (⟨last, false⟩ : Context).after segment := by
      cases segment with
      | code c =>
        have hc : Text.isIdentifierChar c = false := by
          by_contra hc
          simp [Segment.identifierChar?, hc] at hword
        simp [Context.after, Context.afterCode, hc]
      | _ => rfl
    rw [Reads, Reads, hafter]

/-- Unless an identifier character follows, a word ends. -/
theorem tokensAfter_of_startsNoWord (h : StartsNoWord found) (word : List Char) :
    tokensAfter keepLicenses word found =
      wordToken word ++ tokensAfter keepLicenses [] found := by
  cases found with
  | nil => simp [tokensAfter, wordToken]
  | cons segment rest =>
    rw [tokensAfter, tokensAfter, h segment rfl]
    simp [wordToken]

/-- A word that has begun is the first token, with all the characters that follow. -/
theorem exists_word_tokensAfter (keepLicenses : Bool) (found : List Segment) (word : List Char)
    (hword : word ≠ []) : ∃ more others,
    tokensAfter keepLicenses word found = .word (word ++ more) :: others := by
  induction found generalizing word with
  | nil =>
    obtain ⟨c, word, rfl⟩ := List.exists_cons_of_ne_nil hword
    exact ⟨[], [], by rw [List.append_nil]; rfl⟩
  | cons segment rest ih =>
    cases hchar : segment.identifierChar? with
    | some c =>
      obtain ⟨more, others, heq⟩ := ih (word ++ [c]) (by simp)
      exact ⟨c :: more, others, by simp [tokensAfter, hchar, heq]⟩
    | none =>
      obtain ⟨c, word, rfl⟩ := List.exists_cons_of_ne_nil hword
      exact ⟨[], _, by rw [tokensAfter, hchar, List.append_nil]; rfl⟩

/-! ### Comments that are removed -/

/-- A line end is a space. -/
theorem identifierChar?_newline (keepLicenses : Bool) : (Segment.code '\n').identifierChar? = none ∧
    (Segment.code '\n').token? keepLicenses = none := by
  have hidentifier : Text.isIdentifierChar '\n' = false := by decide +kernel
  have hspace : Text.isSpace '\n' = true := by decide +kernel
  simp [Segment.identifierChar?, Segment.token?, hidentifier, hspace]

/-- A line end leaves the last token, and ends a word. -/
theorem after_newline (context : Context) :
    context.after (.code '\n') = ⟨context.last, false⟩ := by
  have hidentifier : Text.isIdentifierChar '\n' = false := by decide +kernel
  have hspace : Text.isSpace '\n' = true := by decide +kernel
  simp [Context.after, Context.afterCode, hidentifier, hspace]

/-- A line end may stand wherever no literal and no comment has been opened. -/
theorem isSegmentAt_newline (last : LastToken) (text : List Char) :
    IsSegmentAt last (.code '\n') text :=
  .code (by decide) fun h => absurd h (by decide)

/-- The line ends that are left of a comment are read as spaces. -/
theorem reads_map_code {newlines : List Char} (hnewlines : ∀ c ∈ newlines, c = '\n')
    (h : Reads ⟨last, false⟩ found) (hword : newlines = [] → Reads context found)
    (hlast : context.last = last) : Reads context (newlines.map .code ++ found) := by
  -- behind a line end no word goes on, whatever stood before it
  induction newlines generalizing context with
  | nil => exact hword rfl
  | cons c newlines ih =>
    obtain ⟨_, inWord⟩ := context
    obtain rfl := hlast
    obtain rfl := hnewlines c List.mem_cons_self
    refine ⟨isSegmentAt_newline _ _, ?_⟩
    rw [after_newline]
    exact ih (fun c hc => hnewlines c (List.mem_cons_of_mem _ hc)) (fun _ => h) rfl

/-- The line ends that are left of a comment end a word and are no tokens. -/
theorem tokensAfter_map_code {newlines : List Char} (hnewlines : ∀ c ∈ newlines, c = '\n')
    (hword : newlines = [] → word ≠ [] → StartsNoWord found) :
    tokensAfter keepLicenses word (newlines.map .code ++ found) =
      wordToken word ++ tokensAfter keepLicenses [] found := by
  have hstep : ∀ (word : List Char) found, tokensAfter keepLicenses word (.code '\n' :: found) =
      wordToken word ++ tokensAfter keepLicenses [] found := by
    intro word found
    obtain ⟨hidentifier, htoken⟩ := identifierChar?_newline keepLicenses
    rw [tokensAfter, hidentifier, htoken]
    simp
  induction newlines generalizing word with
  | nil =>
    by_cases hempty : word = []
    · rw [hempty]
      rfl
    · exact tokensAfter_of_startsNoWord (hword rfl hempty) word
  | cons c newlines ih =>
    obtain rfl := hnewlines c List.mem_cons_self
    have hrest := ih (fun c hc => hnewlines c (List.mem_cons_of_mem _ hc))
      (fun _ hne => absurd rfl hne)
    rw [List.map_cons, List.cons_append, hstep, hrest]
    rfl

/-! ### Segments in what is left -/

/-- No quote and no slash belongs to a word. -/
theorem isIdentifierChar_eq_false {c : Char} (h : IsQuote c ∨ c = '/') :
    Text.isIdentifierChar c = false := by
  rcases h with (rfl | rfl | rfl) | rfl <;> decide +kernel

/-- Where an identifier character stands, it is read as code. -/
theorem IsSegmentAt.eq_code {c : Char} (h : IsSegmentAt last segment text)
    (hc : segment.chars.head? = some c) (hword : Text.isIdentifierChar c = true) :
    segment = .code c := by
  have hnot : ∀ d, IsQuote d ∨ d = '/' → some d ≠ some c := by
    rintro d hd heq
    rw [← Option.some_inj.mp heq, isIdentifierChar_eq_false hd] at hword
    simp at hword
  cases h with
  | string hquote _ => exact absurd hc (hnot _ (Or.inl hquote))
  | code _ _ => rw [Option.some_inj.mp hc]
  | lineComment _ _ => exact absurd hc (hnot _ (Or.inr rfl))
  | blockComment _ => exact absurd hc (hnot _ (Or.inr rfl))
  | regex _ _ _ _ _ => exact absurd hc (hnot _ (Or.inr rfl))

/-- Segments whose text does not begin with an identifier character begin with no word. -/
theorem startsNoWord_of_textOf
    (h : ∀ c, (textOf found).head? = some c → Text.isIdentifierChar c = false) :
    StartsNoWord found := by
  rintro segment hsegment
  obtain ⟨rest, rfl⟩ := List.head?_eq_some_iff.mp hsegment
  cases segment with
  | code c => rw [Segment.identifierChar?, h c rfl, if_neg (by simp)]
  | _ => rfl

/-- Where no comment follows, the text goes on as what is left of it. -/
theorem head?_leftOf (h : Reads context rest) (hslash : (textOf rest).head? ≠ some '/') :
    (leftOf keepLicenses rest).head? = (textOf rest).head? := by
  cases rest with
  | nil => rfl
  | cons next after =>
    have hne := h.1.chars_ne_nil
    have hstays : next.isRemoved keepLicenses = false := by
      cases h.1 with
      | lineComment _ _ => exact absurd rfl hslash
      | blockComment _ => exact absurd rfl hslash
      | _ => rfl
    rw [leftOf_cons, textOf_cons, Segment.render_of_stays hstays,
      List.head?_append_of_ne_nil _ hne, List.head?_append_of_ne_nil _ hne]

/-- A segment that stays may stand in front of what is left of the text behind it, unless it is a
regular expression that runs on. -/
theorem IsSegmentAt.leftOf (h : IsSegmentAt last segment (textOf rest))
    (hstays : segment.isRemoved keepLicenses = false) (hrest : Reads context rest)
    (hregex : ∀ chars, segment = .regex chars → ¬segment.RunsOn keepLicenses rest) :
    IsSegmentAt last segment (leftOf keepLicenses rest) := by
  cases h with
  | string hquote htail => exact .string hquote htail
  | lineComment _ _ => simp [Segment.isRemoved] at hstays
  | blockComment htail => exact .blockComment htail
  | regex hallowed htail hline hblock _ =>
    refine .regex hallowed htail hline hblock fun c hc => ?_
    by_contra hletter
    exact hregex _ rfl ⟨c, hc, by simpa using hletter⟩
  | code hquote hslash =>
    refine .code hquote fun hc => ?_
    obtain ⟨hallowed, hline, hblock⟩ := hslash hc
    rw [head?_leftOf hrest hline]
    exact ⟨hallowed, hline, hblock⟩

/-- A word that has begun before some segments ends with the comments that they begin with. -/
def WordEnds (keepLicenses : Bool) (found : List Segment) : Prop :=
  found.head?.any Segment.isComment = true →
    ∀ c, (Script.leftOf keepLicenses found).head? = some c → Text.isIdentifierChar c = false

/-- A word that does not run on ends. -/
theorem wordEnds_of_not_runsOn {c : Char} (h : segment.identifierChar? = some c)
    (hruns : ¬segment.RunsOn keepLicenses rest) : WordEnds keepLicenses rest := by
  intro hcomment d hd
  by_contra hword
  cases segment with
  | code c =>
    have hc : Text.isIdentifierChar c = true := by
      by_contra hc
      simp [Segment.identifierChar?, hc] at h
    exact hruns ⟨hc, hcomment, d, hd, by simpa using hword⟩
  | _ => simp [Segment.identifierChar?] at h

/-- After a segment that is no identifier character, none would continue a word. -/
theorem inWord_after (h : segment.identifierChar? = none) :
    (context.after segment).inWord = false := by
  cases segment with
  | code c =>
    have hc : Text.isIdentifierChar c = false := by
      by_contra hc
      simp [Segment.identifierChar?, hc] at h
    rw [Context.after, Context.afterCode, hc]
    split_ifs <;> simp_all
  | _ => rfl

/-- A comment leaves the last token, and ends a word. -/
theorem after_of_isComment (h : segment.isComment = true) :
    context.after segment = ⟨context.last, false⟩ := by
  cases segment <;> simp_all [Segment.isComment, Context.after]

/-- Behind a comment that leaves nothing, no word begins if the word before ends. -/
theorem startsNoWord_of_wordEnds (h : WordEnds keepLicenses (segment :: rest))
    (hcomment : segment.isComment = true) (hnothing : segment.render keepLicenses = [])
    (htext : textOf found = Script.leftOf keepLicenses rest) : StartsNoWord found := by
  refine startsNoWord_of_textOf fun c hc => h hcomment c ?_
  rwa [leftOf_cons, hnothing, List.nil_append, ← htext]

/-! ### Where nothing runs on -/

/-- Where nothing runs on, what is left of segments is read as it was, and its tokens are those that
there were. -/
theorem reads_remaining (word : List Char) (h : Reads context found)
    (hruns : NothingRunsOn keepLicenses found)
    (hinWord : context.inWord = true → WordEnds keepLicenses found)
    (hword : word ≠ [] → WordEnds keepLicenses found) :
    Reads context (remaining keepLicenses found) ∧
      tokensAfter keepLicenses word (remaining keepLicenses found) =
        tokensAfter keepLicenses word found := by
  induction found generalizing context word with
  | nil => exact ⟨trivial, rfl⟩
  | cons segment rest ih =>
    obtain ⟨hsegment, hrest⟩ := h
    obtain ⟨hfirst, hruns⟩ := nothingRunsOn_cons.mp hruns
    rw [remaining_cons]
    by_cases hremoved : segment.isRemoved keepLicenses = true
    · obtain ⟨hcomment, hchar, htoken, hnewlines⟩ := Segment.of_isRemoved hremoved
      rw [after_of_isComment hcomment] at hrest
      obtain ⟨hreads, htokens⟩ := ih [] hrest hruns (by simp) (by simp)
      have htext := textOf_remaining keepLicenses rest
      rw [Segment.remains, if_pos hremoved]
      constructor
      · refine reads_map_code hnewlines hreads (fun hnothing => ?_) rfl
        -- nothing is left in between, so a word must have ended before
        cases hcontext : context.inWord with
        | true =>
          have hstarts := startsNoWord_of_wordEnds (hinWord hcontext) hcomment hnothing htext
          exact (reads_iff_of_startsNoWord hstarts context.inWord).mpr hreads
        | false => rwa [← hcontext] at hreads
      · have hends : tokensAfter keepLicenses word (segment :: rest) =
            wordToken word ++ tokensAfter keepLicenses [] rest := by
          simp [tokensAfter, hchar, htoken]
        rw [hends, ← htokens]
        exact tokensAfter_map_code hnewlines fun hnothing hempty =>
          startsNoWord_of_wordEnds (hword hempty) hcomment hnothing htext
    · have hstays : segment.isRemoved keepLicenses = false := by simpa using hremoved
      have hplace := hsegment.leftOf hstays hrest fun _ _ => hfirst
      rw [Segment.remains, if_neg hremoved, List.singleton_append, Reads, textOf_remaining,
        tokensAfter, tokensAfter]
      cases hchar : segment.identifierChar? with
      | some c =>
        have hends := wordEnds_of_not_runsOn hchar hfirst
        obtain ⟨hreads, htokens⟩ := ih (word ++ [c]) hrest hruns (fun _ => hends)
          fun _ => hends
        exact ⟨⟨hplace, hreads⟩, htokens⟩
      | none =>
        obtain ⟨hreads, htokens⟩ := ih [] hrest hruns
          (by simp [inWord_after hchar]) (by simp)
        exact ⟨⟨hplace, hreads⟩, by rw [htokens]⟩

/-! ### Where something runs on -/

/-- Segments that are read in a text begin with the one that may stand there. -/
theorem Reads.exists_cons (h : Reads context found)
    (hsegment : IsSegmentAt context.last segment text)
    (htext : textOf found = segment.chars ++ text) : ∃ rest, found = segment :: rest ∧
      Reads (context.after segment) rest ∧ textOf rest = text := by
  cases found with
  | nil => exact absurd (List.append_eq_nil_iff.mp htext.symm).1 hsegment.chars_ne_nil
  | cons first rest =>
    obtain ⟨rfl, hrest⟩ := h.1.unique hsegment htext
    exact ⟨rest, rfl, h.2, hrest⟩

/-- Behind the line ends that are left of a comment, segments are read as behind the comment. -/
theorem Reads.exists_map_code {newlines : List Char} (h : Reads context found)
    (hnewlines : ∀ c ∈ newlines, c = '\n') (htext : textOf found = newlines ++ text) :
    ∃ rest, found = newlines.map .code ++ rest ∧ textOf rest = text ∧
      Reads ⟨context.last, context.inWord && newlines.isEmpty⟩ rest := by
  induction newlines generalizing context found with
  | nil =>
    refine ⟨found, rfl, htext, ?_⟩
    rwa [List.isEmpty_nil, Bool.and_true]
  | cons c newlines ih =>
    obtain rfl := hnewlines c List.mem_cons_self
    obtain ⟨after, rfl, hreads, hafter⟩ := h.exists_cons (isSegmentAt_newline _ _) htext
    obtain ⟨rest, rfl, hrest, hreads⟩ :=
      ih hreads (fun c hc => hnewlines c (List.mem_cons_of_mem _ hc)) hafter
    rw [after_newline, Bool.false_and] at hreads
    refine ⟨rest, rfl, hrest, ?_⟩
    rwa [List.isEmpty_cons, Bool.and_false]

/-- Where a regular expression began, one begins in what is left. -/
theorem IsSegmentAt.exists_regex {chars left : List Char} {first : Segment}
    (h : IsSegmentAt last (.regex chars) text) (h' : IsSegmentAt last first (textOf rest))
    (htext : first.chars ++ textOf rest = chars ++ left) : ∃ chars', first = .regex chars' := by
  cases h with
  | @regex tail _ hallowed htail hline hblock _ =>
    rw [List.cons_append] at htext
    -- the character behind the slash is one of the regular expression
    have hsecond : ∀ {c more}, c :: more = tail ++ left → tail.head? = some c := by
      intro c more heq
      have hhead := congrArg List.head? heq
      rw [List.head?_append_of_ne_nil _ htail.ne_nil] at hhead
      exact hhead.symm
    cases h' with
    | string hquote _ =>
      obtain ⟨rfl, -⟩ := List.cons.inj htext
      exact absurd hquote (by decide)
    | lineComment _ _ =>
      exact absurd (hsecond (List.cons.inj htext).2) hline
    | blockComment _ =>
      exact absurd (hsecond (List.cons.inj htext).2) hblock
    | regex _ _ _ _ _ => exact ⟨_, rfl⟩
    | code _ hslash =>
      have hc := (hslash (List.cons.inj htext).1).1
      rw [hallowed] at hc
      simp at hc

/-- A word that runs on is another token than the word with comments behind it. -/
theorem not_runsOn_of_tokens_eq {c : Char} (h' : Reads context found')
    (hchar : segment.identifierChar? = some c)
    (htext : textOf found' = Script.leftOf keepLicenses rest)
    (htokens : tokensAfter keepLicenses (word ++ [c]) found' =
      tokensAfter keepLicenses (word ++ [c]) rest) : ¬segment.RunsOn keepLicenses rest := by
  intro hruns
  cases segment with
  | code c' =>
    obtain ⟨-, hcomment, d, hd, hidentifier⟩ := hruns
    obtain ⟨comment, hhead, hcomment⟩ := (Option.any_eq_true _ _).mp hcomment
    obtain ⟨rest, rfl⟩ := List.head?_eq_some_iff.mp hhead
    rw [← htext] at hd
    cases found' with
    | nil => simp at hd
    | cons first after =>
      rw [textOf_cons, List.head?_append_of_ne_nil _ h'.1.chars_ne_nil] at hd
      obtain rfl := h'.1.eq_code hd hidentifier
      obtain ⟨more, others, hword⟩ := exists_word_tokensAfter keepLicenses after
        (word ++ [c] ++ [d]) (by simp)
      have hnone : comment.identifierChar? = none := by
        cases comment <;> simp_all [Segment.isComment, Segment.identifierChar?]
      have hends : wordToken (word ++ [c]) = [.word (word ++ [c])] := by
        cases word <;> rfl
      rw [tokensAfter, tokensAfter, hnone, Segment.identifierChar?, if_pos hidentifier] at htokens
      dsimp only at htokens
      rw [hword, hends] at htokens
      -- the one word is longer than the other
      have hlength := congrArg List.length (Token.word.inj (List.cons.inj htokens).1)
      simp at hlength
  | _ => simp [Segment.identifierChar?] at hchar

/-- Behind what is left of a removed comment, the same tokens are read as behind the comment. -/
theorem Reads.exists_behind_comment (h' : Reads context found')
    (hremoved : segment.isRemoved keepLicenses = true)
    (htext : textOf found' = segment.render keepLicenses ++ Script.leftOf keepLicenses rest)
    (htokens : tokensAfter keepLicenses word found' =
      tokensAfter keepLicenses word (segment :: rest))
    (hinWord : context.inWord = true → WordEnds keepLicenses (segment :: rest))
    (hword : word ≠ [] → WordEnds keepLicenses (segment :: rest)) :
    ∃ after, Reads ⟨context.last, false⟩ after ∧ textOf after = Script.leftOf keepLicenses rest ∧
      tokensAfter keepLicenses [] after = tokensAfter keepLicenses [] rest := by
  obtain ⟨hcomment, hchar, htoken, hnewlines⟩ := Segment.of_isRemoved hremoved
  obtain ⟨after, rfl, hafter, hreads⟩ := h'.exists_map_code hnewlines htext
  have hstarts : segment.render keepLicenses = [] → WordEnds keepLicenses (segment :: rest) →
      StartsNoWord after := fun hnothing hends =>
    startsNoWord_of_wordEnds hends hcomment hnothing hafter
  refine ⟨after, ?_, hafter, ?_⟩
  · -- a word that has begun ends with the comment, or with the line ends that are left of it
    by_cases hinside : (context.inWord && (segment.render keepLicenses).isEmpty) = true
    · rw [Bool.and_eq_true, List.isEmpty_iff] at hinside
      exact (reads_iff_of_startsNoWord (hstarts hinside.2 (hinWord hinside.1)) _).mp hreads
    · rw [Bool.not_eq_true] at hinside
      rwa [hinside] at hreads
  · rwa [tokensAfter_map_code hnewlines fun hnothing hempty => hstarts hnothing (hword hempty),
      tokensAfter, hchar, htoken, Option.toList_none, List.append_nil,
      List.append_cancel_left_eq] at htokens

/-- Where the tokens are the same, a regular expression is the same, and it does not run on. -/
theorem Reads.exists_behind_regex {chars : List Char} (h' : Reads context found')
    (hregex : IsSegmentAt context.last (.regex chars) (textOf rest))
    (htext : textOf found' = chars ++ Script.leftOf keepLicenses rest)
    (htokens : tokensAfter keepLicenses word found' =
      tokensAfter keepLicenses word (.regex chars :: rest)) :
    ¬(Segment.regex chars).RunsOn keepLicenses rest ∧
      ∃ after, Reads (context.after (.regex chars)) after ∧
        textOf after = Script.leftOf keepLicenses rest ∧
        tokensAfter keepLicenses [] after = tokensAfter keepLicenses [] rest := by
  cases found' with
  | nil => exact absurd (List.append_eq_nil_iff.mp htext.symm).1 hregex.chars_ne_nil
  | cons first after =>
    rw [textOf_cons] at htext
    obtain ⟨chars', rfl⟩ := hregex.exists_regex h'.1 htext
    -- the tokens say that the regular expression is the same
    simp only [tokensAfter, Segment.identifierChar?, Segment.token?, Option.toList_some,
      List.append_assoc, List.append_cancel_left_eq, List.singleton_append, List.cons.injEq,
      Token.regex.injEq] at htokens
    obtain ⟨rfl, htokens⟩ := htokens
    have hafter : textOf after = Script.leftOf keepLicenses rest :=
      List.append_cancel_left htext
    refine ⟨?_, after, h'.2, hafter, htokens⟩
    rintro ⟨c, hc, hletter⟩
    cases h'.1 with
    | regex _ _ _ _ hend =>
      rw [hend c (hafter ▸ hc)] at hletter
      simp at hletter

/-- If what is left of segments can be read and has the tokens that there were, then nothing
runs on. -/
theorem nothingRunsOn_of_tokens_eq (word : List Char) (h : Reads context found)
    (h' : Reads context found')
    (htext : textOf found' = Script.leftOf keepLicenses found)
    (htokens : tokensAfter keepLicenses word found' = tokensAfter keepLicenses word found)
    (hinWord : context.inWord = true → WordEnds keepLicenses found)
    (hword : word ≠ [] → WordEnds keepLicenses found) : NothingRunsOn keepLicenses found := by
  induction found generalizing context word found' with
  | nil => simp [NothingRunsOn]
  | cons segment rest ih =>
    obtain ⟨hsegment, hrest⟩ := h
    rw [leftOf_cons] at htext
    by_cases hremoved : segment.isRemoved keepLicenses = true
    · have hcomment := (Segment.of_isRemoved hremoved).1
      rw [after_of_isComment hcomment] at hrest
      obtain ⟨after, hreads, hafter, htokens⟩ :=
        h'.exists_behind_comment hremoved htext htokens hinWord hword
      refine nothingRunsOn_cons.mpr
        ⟨?_, ih [] hrest hreads hafter htokens (by simp) (by simp)⟩
      cases segment <;> simp_all [Segment.isComment, Segment.RunsOn]
    have hstays : segment.isRemoved keepLicenses = false := by simpa using hremoved
    rw [Segment.render_of_stays hstays] at htext
    by_cases hregex : ∃ chars, segment = .regex chars
    · obtain ⟨chars, rfl⟩ := hregex
      obtain ⟨hends, after, hreads, hafter, htokens⟩ :=
        h'.exists_behind_regex hsegment htext htokens
      exact nothingRunsOn_cons.mpr
        ⟨hends, ih [] hrest hreads hafter htokens (by simp [Context.after]) (by simp)⟩
    -- any other segment is read in what is left as it was
    have hplace := hsegment.leftOf hstays hrest fun chars heq => absurd ⟨chars, heq⟩ hregex
    obtain ⟨after, rfl, hreads, hafter⟩ := h'.exists_cons hplace htext
    rw [tokensAfter, tokensAfter] at htokens
    cases hchar : segment.identifierChar? with
    | some c =>
      rw [hchar] at htokens
      have hfirst := not_runsOn_of_tokens_eq hreads hchar hafter htokens
      have hends := wordEnds_of_not_runsOn hchar hfirst
      exact nothingRunsOn_cons.mpr
        ⟨hfirst, ih _ hrest hreads hafter htokens (fun _ => hends) fun _ => hends⟩
    | none =>
      rw [hchar] at htokens
      have htokens := List.append_cancel_left htokens
      refine nothingRunsOn_cons.mpr ⟨?_, ih [] hrest hreads hafter htokens
        (by simp [inWord_after hchar]) (by simp)⟩
      cases segment with
      | code c =>
        rintro ⟨hc, -, -⟩
        simp [Segment.identifierChar?, hc] at hchar
      | regex chars => exact absurd ⟨chars, rfl⟩ hregex
      | _ => exact id

/-- The tokens of a script stay, and removing comments once more changes nothing, exactly if nothing
runs on where comments are removed. -/
theorem stripComments_keeps_tokens_iff {script output : String}
    (h : stripComments keepLicenses script = .ok output) :
    ∃ found, segments script.toList = .ok found ∧
      ((∃ found', segments output.toList = .ok found' ∧
          tokens keepLicenses found' = tokens keepLicenses found ∧
          stripComments keepLicenses output = .ok output) ↔
        NothingRunsOn keepLicenses found) := by
  cases hfound : segments script.toList with
  | error opening => simp [stripComments_eq, hfound, Except.map] at h
  | ok found =>
    have houtput : output.toList = leftOf keepLicenses found := by
      rw [stripComments_eq, hfound] at h
      rw [← Except.ok.inj h, String.toList_ofList]
      rfl
    have hreads := (segmentsFrom_eq_ok_iff.mp hfound).1
    refine ⟨found, rfl, ?_, fun hruns => ?_⟩
    · rintro ⟨found', hfound', htokens, -⟩
      obtain ⟨hreads', htext⟩ := segmentsFrom_eq_ok_iff.mp hfound'
      exact nothingRunsOn_of_tokens_eq [] hreads hreads' (htext.trans houtput) htokens
        (by simp [Context.start]) (by simp)
    · obtain ⟨hreads', htokens⟩ := reads_remaining [] hreads hruns
        (by simp [Context.start]) (by simp)
      have hfound' : segments output.toList = .ok (remaining keepLicenses found) :=
        segmentsFrom_eq_ok_iff.mpr
          ⟨hreads', (textOf_remaining keepLicenses found).trans houtput.symm⟩
      have hleft : (remaining keepLicenses found).flatMap (Segment.render keepLicenses) =
          output.toList := (leftOf_remaining keepLicenses found).trans houtput.symm
      refine ⟨remaining keepLicenses found, hfound', htokens, ?_⟩
      rw [stripComments_eq, hfound']
      change Except.ok (String.ofList (List.flatMap _ _)) = _
      rw [hleft, String.ofList_toList]

/-- A comment over two lines leaves the words around it apart. -/
theorem twoLines_nothingRunsOn : stripComments false "a/*\n*/b" = .ok "a\nb" ∧
    ∃ found, segments "a/*\n*/b".toList = .ok found ∧ NothingRunsOn false found := by
  have h : stripComments false "a/*\n*/b" = .ok "a\nb" := by decide +kernel
  refine ⟨h, ?_⟩
  obtain ⟨found, hfound, hiff⟩ := stripComments_keeps_tokens_iff h
  have hcomment : segments "a/*\n*/b".toList =
      .ok [.code 'a', .blockComment ['/', '*', '\n', '*', '/'], .code 'b'] := by decide +kernel
  have hleft : segments "a\nb".toList = .ok [.code 'a', .code '\n', .code 'b'] := by
    decide +kernel
  obtain rfl := Except.ok.inj (hfound.symm.trans hcomment)
  exact ⟨_, hfound, hiff.mp ⟨_, hleft, by decide +kernel, by decide +kernel⟩⟩

/-- Without the comment between them two words are one, after which the regular expression that
followed begins no more. -/
theorem joinedWords_unterminated :
    stripComments false "x/**/in /'/" = .ok "xin /'/" ∧
      stripComments false "xin /'/" = .error ⟨.string, 1⟩ ∧
      ¬∃ found found', segments "x/**/in /'/".toList = .ok found ∧
        segments "xin /'/".toList = .ok found' ∧ tokens false found' = tokens false found := by
  refine ⟨by decide +kernel, by decide +kernel, ?_⟩
  rintro ⟨found, found', -, hfound', -⟩
  have herror : segments "xin /'/".toList = .error ⟨.string, 1⟩ := by decide +kernel
  rw [herror] at hfound'
  simp at hfound'

end Filewise.Script
