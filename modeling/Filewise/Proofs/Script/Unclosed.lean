import Filewise.Proofs.Script.Grammar

/-!
# Scripts with an opening that is never closed

A script that cannot be cut into segments can be cut up to a place where a string literal, a regular
expression or a block comment opens of which no closing follows. All segments before that place are
well formed, so the opening is the first one of its kind. What is reported is this opening and its
line.

## Main definitions

* `IsUnclosedAt`: a text that starts with an opening and does not close it.
* `IsCutBefore`: segments at their places that make up a text up to its rest.
* `StopsAt`: a text that can be cut up to an opening that is reported.

## Main results

* `next_eq_error_iff`: at the start of a text no segment is read exactly if it does not close what
  it opens.
* `segments_eq_error_iff`: a script is refused exactly if it can be cut up to an unclosed opening.
* `IsCutBefore.unique`: there is only one such place.
* `stripComments_reports_first_unclosed`: the message names the opening and its line.
-/

namespace Filewise.Script

/-! ### Openings -/

/-- A text that starts with an opening after a token, where no beginning of what follows is the rest
of such a literal or comment. -/
inductive IsUnclosedAt (last : LastToken) : Opening → List Char → Prop
  | string {quote rest} : IsQuote quote → (∀ tail, tail <+: rest → ¬StringTail quote tail) →
      IsUnclosedAt last .string (quote :: rest)
  | regex {rest} : last.allowsRegex = true → rest.head? ≠ some '/' → rest.head? ≠ some '*' →
      (∀ tail, tail <+: rest → ¬RegexTail false tail) → IsUnclosedAt last .regex ('/' :: rest)
  | blockComment {rest} : (∀ tail, tail <+: rest → ¬CommentTail tail) →
      IsUnclosedAt last .blockComment ('/' :: '*' :: rest)

variable {text tail rest rest' : List Char} {found found' before : List Segment}
  {segment : Segment} {last : LastToken} {opening opening' : Opening}

/-- Nothing is read exactly if nothing stands there that could be, given that all that is read
stands there, and that something is read where something stands. -/
theorem eq_none_iff_of_reads {read : Option (List Char × List Char)} {IsTail : List Char → Prop}
    (hsound : ∀ tail rest, read = some (tail, rest) → IsTail tail ∧ text = tail ++ rest)
    (hcomplete : ∀ tail rest, IsTail tail → text = tail ++ rest → read ≠ none) :
    read = none ↔ ∀ tail, tail <+: text → ¬IsTail tail := by
  constructor
  · rintro hnone tail ⟨rest, htext⟩ htail
    exact hcomplete tail rest htail htext.symm hnone
  · intro hall
    rw [Option.eq_none_iff_forall_ne_some]
    rintro ⟨tail, rest⟩ hsome
    obtain ⟨htail, rfl⟩ := hsound tail rest hsome
    exact hall tail (List.prefix_append tail rest) htail

/-- No string literal is read exactly if none stands there. -/
theorem stringBody?_eq_none_iff {quote : Char} (hquote : IsQuote quote) :
    stringBody? quote text = none ↔ ∀ tail, tail <+: text → ¬StringTail quote tail := by
  refine eq_none_iff_of_reads (fun _ _ => (stringBody?_eq_some_iff hquote).mp) ?_
  intro tail rest htail htext
  rw [(stringBody?_eq_some_iff hquote).mpr ⟨htail, htext⟩]
  exact Option.some_ne_none _

/-- No block comment is read exactly if none stands there. -/
theorem commentBody?_eq_none_iff :
    commentBody? text = none ↔ ∀ tail, tail <+: text → ¬CommentTail tail := by
  refine eq_none_iff_of_reads (fun _ _ => commentBody?_eq_some_iff.mp) ?_
  intro tail rest htail htext
  rw [commentBody?_eq_some_iff.mpr ⟨htail, htext⟩]
  exact Option.some_ne_none _

/-- More letters after a regular expression are more flags of it. -/
theorem RegexTail.append_flags {inBrackets : Bool} {flags : List Char}
    (h : RegexTail inBrackets tail) (hflags : ∀ c ∈ flags, Text.isAsciiLetter c = true) :
    RegexTail inBrackets (tail ++ flags) := by
  induction h with
  | close hfirst =>
    refine .close fun c hc => ?_
    rcases List.mem_append.mp hc with hc | hc
    · exact hfirst c hc
    · exact hflags c hc
  | escape _ ih => exact .escape ih
  | openBracket _ ih => exact .openBracket ih
  | closeBracket _ ih => exact .closeBracket ih
  | char hc hslash _ ih => exact .char hc hslash ih

/-- No regular expression is read exactly if none stands there. -/
theorem regexBody?_eq_none_iff {inBrackets : Bool} :
    regexBody? inBrackets text = none ↔ ∀ tail, tail <+: text → ¬RegexTail inBrackets tail := by
  refine eq_none_iff_of_reads (fun tail rest h => ?_) ?_
  · obtain ⟨htail, htext, -⟩ := regexBody?_eq_some_iff.mp h
    exact ⟨htail, htext⟩
  · rintro tail rest htail rfl
    -- all letters that follow belong to the literal that is read
    have hflags : RegexTail inBrackets (tail ++ rest.takeWhile Text.isAsciiLetter) :=
      htail.append_flags fun c hc => List.mem_takeWhile_imp hc
    have hstop : ∀ c, (rest.dropWhile Text.isAsciiLetter).head? = some c →
        Text.isAsciiLetter c = false := fun c hc => Text.head?_dropWhile_eq_false hc
    have hread := hflags.regexBody?_append hstop
    rw [List.append_assoc, List.takeWhile_append_dropWhile] at hread
    rw [hread]
    exact Option.some_ne_none _

/-- At the start of a text no segment is read exactly if the text opens what it does not close. -/
theorem next_eq_error_iff {context : Context} {c : Char} :
    next? context c rest = .error opening ↔ IsUnclosedAt context.last opening (c :: rest) := by
  constructor
  · fun_cases next? context c rest with
    | case2 hquote hbody =>
      intro h
      obtain rfl := Except.error.inj h
      exact .string hquote ((stringBody?_eq_none_iff hquote).mp hbody)
    | case5 _ _ hblock hbody =>
      intro h
      obtain ⟨rfl, hhead⟩ := hblock
      obtain ⟨rest, rfl⟩ := List.head?_eq_some_iff.mp hhead
      obtain rfl := Except.error.inj h
      exact .blockComment (commentBody?_eq_none_iff.mp hbody)
    | case7 _ hline hblock hregex hbody =>
      intro h
      obtain ⟨rfl, hallowed⟩ := hregex
      obtain rfl := Except.error.inj h
      exact .regex hallowed (fun h => hline ⟨rfl, h⟩) (fun h => hblock ⟨rfl, h⟩)
        (regexBody?_eq_none_iff.mp hbody)
    -- whatever else is read is a segment
    | case1 | case3 | case4 | case6 | case8 => simp
  · intro h
    cases h with
    | string hquote hopen =>
      have hbody := (stringBody?_eq_none_iff hquote).mpr hopen
      unfold IsQuote at hquote
      rw [next?, if_pos hquote, hbody]
    | regex hallowed hline hblock hopen =>
      rw [next?, if_neg (by decide), if_neg fun h => hline h.2, if_neg fun h => hblock h.2,
        if_pos ⟨rfl, hallowed⟩, regexBody?_eq_none_iff.mpr hopen]
    | blockComment hopen =>
      rw [next?, if_neg (by decide), if_neg (by simp), if_pos ⟨rfl, rfl⟩, List.tail_cons,
        commentBody?_eq_none_iff.mpr hopen]

/-- Nothing opens in an empty text. -/
theorem IsUnclosedAt.ne_nil (h : IsUnclosedAt last opening text) : text ≠ [] := by
  cases h <;> exact List.cons_ne_nil _ _

/-- A segment closes what it opens. -/
theorem IsUnclosedAt.not_isSegmentAt (h : IsUnclosedAt last opening text)
    (hsegment : IsSegmentAt last segment rest) : text ≠ segment.chars ++ rest := by
  intro htext
  obtain ⟨c, shorter, hchars⟩ := List.exists_cons_of_ne_nil hsegment.chars_ne_nil
  have hcons : text = c :: (shorter ++ rest) := by rw [htext, hchars, List.cons_append]
  have hread : next? ⟨last, false⟩ c (shorter ++ rest) = .ok (segment, rest) :=
    next_eq_ok_iff.mpr ⟨hsegment, hcons.symm.trans htext⟩
  have hopen : next? ⟨last, false⟩ c (shorter ++ rest) = .error opening :=
    next_eq_error_iff.mpr (hcons ▸ h)
  rw [hread] at hopen
  simp at hopen

/-- A text opens one thing at a place. -/
theorem IsUnclosedAt.unique (h : IsUnclosedAt last opening text)
    (h' : IsUnclosedAt last opening' text) : opening = opening' := by
  cases text with
  | nil => cases h
  | cons c rest =>
    have hread : next? ⟨last, false⟩ c rest = .error opening := next_eq_error_iff.mpr h
    rw [next_eq_error_iff.mpr h'] at hread
    exact (Except.error.inj hread).symm

/-! ### Cuts up to a place -/

/-- Segments that make up a text up to its rest, each of which may stand after those before it, the
first ones given, and in front of what follows. -/
structure IsCutBefore (before found : List Segment) (rest text : List Char) : Prop where
  textOf_append : textOf found ++ rest = text
  isAt : ∀ between segment after, found = between ++ segment :: after →
    IsSegmentAt (lastToken (before ++ between)) segment (textOf after ++ rest)

theorem isCutBefore_nil : IsCutBefore before [] rest text ↔ rest = text := by
  constructor
  · exact fun h => h.textOf_append
  · rintro rfl
    refine ⟨rfl, fun between segment after heq => ?_⟩
    simp at heq

/-- A cut begins with a segment at its place, and goes on after that segment. -/
theorem isCutBefore_cons : IsCutBefore before (segment :: found) rest text ↔
    IsSegmentAt (lastToken before) segment (textOf found ++ rest) ∧
      ∃ text', text = segment.chars ++ text' ∧
        IsCutBefore (before ++ [segment]) found rest text' := by
  constructor
  · rintro ⟨htext, hplaces⟩
    refine ⟨?_, textOf found ++ rest, ?_, rfl, fun between next after heq => ?_⟩
    · simpa using hplaces [] segment found rfl
    · rw [← htext, textOf_cons, List.append_assoc]
    · have hplace := hplaces (segment :: between) next after (by rw [heq, List.cons_append])
      rwa [List.append_assoc]
  · rintro ⟨hfirst, text', rfl, htext, hplaces⟩
    refine ⟨by rw [textOf_cons, List.append_assoc, htext], fun between next after heq => ?_⟩
    cases between with
    | nil =>
      obtain ⟨rfl, rfl⟩ := List.cons.inj heq
      simpa using hfirst
    | cons _ between =>
      obtain ⟨rfl, hsplit⟩ := List.cons.inj heq
      have hplace := hplaces between next after hsplit
      rwa [List.append_assoc] at hplace

/-- Where segments end at an unclosed opening, there is no other way to cut the text up to an
unclosed opening. -/
theorem IsCutBefore.unique (h : IsCutBefore before found rest text)
    (hopen : IsUnclosedAt (lastToken (before ++ found)) opening rest)
    (h' : IsCutBefore before found' rest' text)
    (hopen' : IsUnclosedAt (lastToken (before ++ found')) opening' rest') :
    found = found' ∧ opening = opening' ∧ rest = rest' := by
  induction found generalizing before found' text with
  | nil =>
    obtain rfl := isCutBefore_nil.mp h
    rw [List.append_nil] at hopen
    cases found' with
    | nil =>
      obtain rfl := isCutBefore_nil.mp h'
      rw [List.append_nil] at hopen'
      exact ⟨rfl, hopen.unique hopen', rfl⟩
    | cons segment after =>
      -- the segment of the other cut closes what is open here
      obtain ⟨hsegment, text', htext, hafter⟩ := isCutBefore_cons.mp h'
      rw [← hafter.textOf_append] at htext
      exact absurd htext (hopen.not_isSegmentAt hsegment)
  | cons segment after ih =>
    obtain ⟨hsegment, text', rfl, hafter⟩ := isCutBefore_cons.mp h
    cases found' with
    | nil =>
      obtain rfl := isCutBefore_nil.mp h'
      rw [List.append_nil] at hopen'
      rw [← hafter.textOf_append] at hopen'
      exact absurd rfl (hopen'.not_isSegmentAt hsegment)
    | cons segment' after' =>
      obtain ⟨hsegment', text'', htext, hafter'⟩ := isCutBefore_cons.mp h'
      rw [← hafter.textOf_append, ← hafter'.textOf_append] at htext
      obtain ⟨rfl, heq⟩ := hsegment.unique hsegment' htext
      rw [← hafter'.textOf_append, ← heq, hafter.textOf_append] at hafter'
      rw [List.append_cons] at hopen hopen'
      obtain ⟨rfl, hrest⟩ := ih hafter hopen hafter' hopen'
      exact ⟨rfl, hrest⟩

/-- Behind segments, a text can be cut up to the opening that is reported, which is in the line
that is reported if the text starts in the given one. -/
def StopsAt (before : List Segment) (line : Nat) (text : List Char) (u : Unterminated) : Prop :=
  ∃ found rest, IsCutBefore before found rest text ∧
    IsUnclosedAt (lastToken (before ++ found)) u.opening rest ∧
    u.line = line + (textOf found).count '\n'

variable {line : Nat} {u : Unterminated}

theorem not_stopsAt_nil : ¬StopsAt before line [] u := by
  rintro ⟨found, rest, hcut, hopen, -⟩
  exact hopen.ne_nil (List.append_eq_nil_iff.mp hcut.textOf_append).2

/-- What opens at the start of a text and is not closed is what is reported. -/
theorem IsUnclosedAt.stopsAt_iff (h : IsUnclosedAt (lastToken before) opening text) :
    StopsAt before line text u ↔ u = ⟨opening, line⟩ := by
  have hhere : IsUnclosedAt (lastToken (before ++ [])) opening text := by rwa [List.append_nil]
  constructor
  · rintro ⟨found, rest, hcut, hopen, hline⟩
    -- no segment stands before it
    obtain ⟨rfl, rfl, -⟩ := (isCutBefore_nil.mpr rfl).unique hhere hcut hopen
    cases u
    rw [Unterminated.mk.injEq]
    exact ⟨rfl, hline⟩
  · rintro rfl
    exact ⟨[], text, isCutBefore_nil.mpr rfl, hhere, rfl⟩

/-- A segment at the start of a text is the first one of each cut, so what is reported is found
behind it. -/
theorem IsSegmentAt.stopsAt_iff (h : IsSegmentAt (lastToken before) segment rest) :
    StopsAt before line (segment.chars ++ rest) u ↔
      StopsAt (before ++ [segment]) (line + segment.chars.count '\n') rest u := by
  constructor
  · rintro ⟨found, left, hcut, hopen, hline⟩
    cases found with
    | nil =>
      obtain rfl := isCutBefore_nil.mp hcut
      rw [List.append_nil] at hopen
      exact absurd rfl (hopen.not_isSegmentAt h)
    | cons segment' found =>
      obtain ⟨h', text', htext, hcut⟩ := isCutBefore_cons.mp hcut
      rw [hcut.textOf_append] at h'
      obtain ⟨rfl, rfl⟩ := h.unique h' htext
      refine ⟨found, left, hcut, by rwa [List.append_cons] at hopen, ?_⟩
      rw [hline, textOf_cons, List.count_append, Nat.add_assoc]
  · rintro ⟨found, left, hcut, hopen, hline⟩
    refine ⟨segment :: found, left, isCutBefore_cons.mpr ⟨?_, rest, rfl, hcut⟩, ?_, ?_⟩
    · rwa [hcut.textOf_append]
    · rwa [List.append_cons]
    · rw [hline, textOf_cons, List.count_append, Nat.add_assoc]

/-! ### Reading -/

/-- A text is refused, in the context that segments before it leave behind, exactly if it can be cut
up to an unclosed opening. The line that is reported is that of this opening. -/
theorem segmentsFrom_eq_error_iff {context : Context} (hcontext : context = contextAfter before) :
    segmentsFrom context line text = .error u ↔ StopsAt before line text u := by
  have hlast : context.last = lastToken before := by rw [hcontext, contextAfter_eq]
  fun_induction segmentsFrom context line text generalizing before with
  | case1 context line => exact iff_of_false (by simp) not_stopsAt_nil
  | case2 context line c rest opening hnext =>
    rw [next_eq_error_iff, hlast] at hnext
    rw [hnext.stopsAt_iff, Except.error.injEq, eq_comm]
  | case3 context line c rest segment rest' hnext newlines =>
    rename_i ih
    obtain ⟨hsegment, happend⟩ := next_eq_ok_iff.mp hnext
    rw [hlast] at hsegment
    have hafter : context.after segment = contextAfter (before ++ [segment]) := by
      rw [contextAfter_concat, hcontext]
    have hrest := ih hafter (by rw [hafter, contextAfter_eq])
    rw [happend]
    refine Iff.trans ?_ (hrest.trans hsegment.stopsAt_iff.symm)
    cases segmentsFrom (context.after segment) (line + newlines) rest' <;>
      simp [bind, Except.bind, pure, Except.pure]

/-! ### Reports -/

/-- What a report says before the number of the line. -/
def Opening.phrase : Opening → String
  | .string => "unterminated string literal on line "
  | .regex => "unterminated regex literal on line "
  | .blockComment => "unterminated block comment starting on line "

theorem Unterminated.message_eq (u : Unterminated) :
    u.message = u.opening.phrase ++ toString u.line := by
  obtain ⟨opening, line⟩ := u
  cases opening <;> rfl

/-- A report tells what is not closed, and in which line it opens. -/
theorem Opening.phrase_append_inj {line line' : Nat}
    (h : opening.phrase ++ toString line = opening'.phrase ++ toString line') :
    opening = opening' ∧ line = line' := by
  -- the phrases differ in the letter after the first word
  have hletter : ∀ (opening : Opening) (line : Nat),
      (opening.phrase ++ toString line).toList[13]? = opening.phrase.toList[13]? := by
    intro opening line
    rw [String.toList_append]
    refine List.getElem?_append_left ?_
    cases opening <;> decide
  have hphrase : opening.phrase.toList[13]? = opening'.phrase.toList[13]? := by
    rw [← hletter opening line, h, hletter]
  have hopening : opening = opening' := by
    revert hphrase
    cases opening <;> cases opening' <;> decide
  subst hopening
  rw [String.append_right_inj] at h
  have hdigits : Nat.toDigits 10 line = Nat.toDigits 10 line' := by
    rw [← Nat.toList_repr, ← Nat.toList_repr]
    exact congrArg String.toList h
  refine ⟨rfl, ?_⟩
  rw [← Nat.ofDigitChars_ten_toDigits (n := line), hdigits, Nat.ofDigitChars_ten_toDigits]

/-- Segments at their places and behind them an opening that is not closed. -/
structure IsFirstUnclosed (found : List Segment) (opening : Opening) (rest text : List Char) :
    Prop where
  cut : IsCutBefore [] found rest text
  isUnclosedAt : IsUnclosedAt (lastToken found) opening rest

/-- A script is refused exactly if it can be cut up to an unclosed opening. -/
theorem segments_eq_error_iff {u : Unterminated} : segments text = .error u ↔ ∃ found rest,
    IsFirstUnclosed found u.opening rest text ∧ u.line = 1 + (textOf found).count '\n' := by
  rw [segments, segmentsFrom_eq_error_iff (show Context.start = contextAfter [] from rfl)]
  constructor
  · rintro ⟨found, rest, hcut, hopen, hline⟩
    exact ⟨found, rest, ⟨hcut, hopen⟩, hline⟩
  · rintro ⟨found, rest, ⟨hcut, hopen⟩, hline⟩
    exact ⟨found, rest, hcut, hopen, hline⟩

/-- Removing comments fails exactly if a script is made of segments at their places up to an opening
that is not closed. There is only one such place in a script. The message names what opens there and
its line, which is one more than the line ends before it; no other opening or line has this
message. -/
theorem stripComments_reports_first_unclosed (keepLicenses : Bool) (script : String) :
    (∀ message, (stripComments keepLicenses script).mapError Unterminated.message =
        .error message ↔ ∃ found opening rest, IsFirstUnclosed found opening rest script.toList ∧
          message = opening.phrase ++ toString (1 + (textOf found).count '\n')) ∧
      (∀ found found' opening opening' rest rest',
        IsFirstUnclosed found opening rest script.toList →
        IsFirstUnclosed found' opening' rest' script.toList →
          found = found' ∧ opening = opening' ∧ rest = rest') ∧
      ∀ opening opening' (line line' : Nat),
        Opening.phrase opening ++ toString line = Opening.phrase opening' ++ toString line' →
          opening = opening' ∧ line = line' := by
  refine ⟨fun message => ?_, fun found found' opening opening' rest rest' h h' =>
    h.cut.unique h.isUnclosedAt h'.cut h'.isUnclosedAt,
    fun opening opening' line line' => Opening.phrase_append_inj⟩
  have herror : (stripComments keepLicenses script).mapError Unterminated.message =
      .error message ↔ ∃ u, segments script.toList = .error u ∧ u.message = message := by
    rw [stripComments_eq]
    cases segments script.toList <;> simp [Except.map, Except.mapError]
  rw [herror]
  constructor
  · rintro ⟨u, hu, rfl⟩
    obtain ⟨found, rest, hfirst, hline⟩ := segments_eq_error_iff.mp hu
    exact ⟨found, u.opening, rest, hfirst, by rw [u.message_eq, hline]⟩
  · rintro ⟨found, opening, rest, hfirst, rfl⟩
    exact ⟨⟨opening, 1 + (textOf found).count '\n'⟩,
      segments_eq_error_iff.mpr ⟨found, rest, hfirst, rfl⟩, Unterminated.message_eq _⟩

example : stripComments true "a = `\n//` /* b\n */ / '\n'" = .error ⟨.string, 3⟩ := by
  decide +kernel

end Filewise.Script
