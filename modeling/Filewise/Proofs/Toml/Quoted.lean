import Filewise.Proofs.Text.Runs
import Filewise.Toml.Quoted
import Mathlib.Tactic.Common

/-!
# Reading quoted texts

A text between quotes is read back as it was written, in each of the four ways to write it. Between
single marks every character is read by itself. Between three marks a row of quotes is read at once,
so the quotes that stand right before a character are carried along until it is read.

## Main definitions

* `Toml.Takes`: what is written for a character is read as that character.
* `Toml.IsLongBody`: a text as it is written between three marks.

## Main results

* `Toml.quoted?_quotedChars`: a text is read back.
* `Toml.keyPart?_keyChars`: a name is read back.
-/

namespace Filewise.Toml

variable {quote c : Char} {quotes steps : ℕ} {text rest chars : List Char}

/-! ### Characters -/

/-- A character that needs no escape and is no line end may stand in a text. -/
theorem isPlain_of_isControl_eq_false (h : isControl c = false) (hline : c ≠ '\n') :
    isPlain c = true := by
  simp only [isControl, isPlain, Bool.or_eq_false_iff, Bool.and_eq_false_iff,
    decide_eq_false_iff_not, Char.not_lt] at h ⊢
  obtain ⟨(h | h) | h, hdelete⟩ := h
  · simpa [h] using Or.inr hdelete
  · simp_all
  · simp_all

/-- A character that cannot be written without an escape has a small code. -/
theorem toNat_lt_of_isControl (h : isControl c = true) : c.toNat < 128 := by
  simp only [isControl, Bool.or_eq_true, Bool.and_eq_true, decide_eq_true_eq, beq_iff_eq] at h
  rcases h with ⟨⟨hlt, -⟩, -⟩ | rfl
  · exact lt_trans (Char.lt_def.mp hlt) (by decide)
  · decide

/-- The code of a character is read as that character. -/
theorem charOf?_codeEscape (h : c.toNat < 128) :
    charOf? ['0', '0', upperDigit (c.toNat / 16), upperDigit (c.toNat % 16)] = some c := by
  have hall : ∀ n < 128, charOf? ['0', '0', upperDigit (n / 16), upperDigit (n % 16)] =
      some (Char.ofNat n) := by decide +kernel
  rw [hall c.toNat h, Char.ofNat_toNat]

/-- What is written for a character is read as that character, in one step. -/
def Takes (body : ℕ → List Char → Option (List Char × List Char)) (chars : List Char) (c : Char) :
    Prop :=
  ∀ steps rest, body (steps + 1) (chars ++ rest) =
    (body steps rest).map fun (text, rest) => (c :: text, rest)

/-! ### Texts between single marks -/

/-- A plain character stands for itself. -/
theorem takes_shortBody?_self (hquote : c ≠ quote) (hslash : c = '\\' → quote ≠ '"')
    (hplain : isPlain c = true) : Takes (shortBody? quote) [c] c := by
  intro steps rest
  rw [List.singleton_append, shortBody?, if_neg hquote, if_neg (fun h => hslash h.1 h.2),
    if_pos hplain]
  cases shortBody? quote steps rest <;> rfl

/-- An escape is read as its character. -/
theorem takes_shortBody?_escape (h : ∀ rest, escape? (chars ++ rest) = some (c, rest)) :
    Takes (shortBody? '"') ('\\' :: chars) c := by
  intro steps rest
  rw [List.cons_append, shortBody?, if_neg (by decide), if_pos ⟨rfl, rfl⟩, h]
  simp only [Option.bind_eq_bind, Option.bind_some]
  cases shortBody? '"' steps rest <;> rfl

/-- A text is read back if the characters are read that are written for its own. -/
theorem shortBody?_flatMap {write : Char → List Char}
    (h : ∀ c ∈ text, Takes (shortBody? quote) (write c) c) (hsteps : text.length < steps) :
    shortBody? quote steps (text.flatMap write ++ quote :: rest) = some (text, rest) := by
  induction text generalizing steps with
  | nil =>
    obtain ⟨steps, rfl⟩ := Nat.exists_eq_add_of_lt hsteps
    simp [shortBody?]
  | cons c text ih =>
    obtain ⟨steps, rfl⟩ := Nat.exists_eq_add_of_lt (Nat.zero_lt_of_lt hsteps)
    rw [List.flatMap_cons, List.append_assoc, h c List.mem_cons_self,
      ih (fun c' hc' => h c' (List.mem_cons_of_mem _ hc')) (by simp at hsteps ⊢; omega)]
    rfl

/-- A character is written by itself or as an escape that does not begin like a joined line. -/
theorem escapedChar_cases (isLong : Bool) (c : Char) :
    (escapedChar isLong c = [c] ∧ c ≠ '\\' ∧ (isPlain c = true ∨ isLong = true ∧ c = '\n')) ∨
    ∃ mark chars, escapedChar isLong c = '\\' :: mark :: chars ∧
      mark ∈ ['\\', 'b', 't', 'n', 'f', 'r', 'u'] ∧
      ∀ rest, escape? (mark :: chars ++ rest) = some (c, rest) := by
  unfold escapedChar
  split_ifs with hslash hback htab hline hlong hfeed hreturn hcontrol
  · exact .inr ⟨_, _, rfl, by decide, fun rest => by rw [hslash]; rfl⟩
  · exact .inr ⟨_, _, rfl, by decide, fun rest => by rw [hback]; rfl⟩
  · exact .inr ⟨_, _, rfl, by decide, fun rest => by rw [htab]; rfl⟩
  · exact .inl ⟨by rw [hline], hslash, .inr ⟨hlong, hline⟩⟩
  · exact .inr ⟨_, _, rfl, by decide, fun rest => by rw [hline]; rfl⟩
  · exact .inr ⟨_, _, rfl, by decide, fun rest => by rw [hfeed]; rfl⟩
  · exact .inr ⟨_, _, rfl, by decide, fun rest => by rw [hreturn]; rfl⟩
  · refine .inr ⟨_, _, rfl, by decide, fun rest => ?_⟩
    simp only [List.cons_append, List.nil_append, escape?,
      charOf?_codeEscape (toNat_lt_of_isControl hcontrol), Option.map_some]
  · exact .inl ⟨rfl, hslash, .inl (isPlain_of_isControl_eq_false (by simpa using hcontrol) hline)⟩

/-- A character is read from what is written for it on a single line. -/
theorem takes_shortBody?_escapedChar (hquote : c ≠ '"') :
    Takes (shortBody? '"') (escapedChar false c) c := by
  obtain ⟨hself, hslash, hplain⟩ | ⟨mark, chars, hescape, -, hread⟩ := escapedChar_cases false c
  · rw [hself]
    exact takes_shortBody?_self hquote (fun h => absurd h hslash) (by simpa using hplain)
  · rw [hescape]
    exact takes_shortBody?_escape hread

/-! ### Texts between three marks -/

/-- A text as it is written between three marks, behind some of the marks. -/
inductive IsLongBody (quote : Char) : ℕ → List Char → List Char → Prop where
  | nil {quotes : ℕ} (h : quotes < 3) : IsLongBody quote quotes [] []
  | quote {quotes : ℕ} {text chars : List Char} (h : quotes + 1 < 3)
      (hrest : IsLongBody quote (quotes + 1) text chars) :
      IsLongBody quote quotes (quote :: text) (quote :: chars)
  | char {quotes : ℕ} {c : Char} {text written chars : List Char} (h : quotes < 3)
      (hquote : ∀ rest, (written ++ rest).head? ≠ some quote)
      (htakes : Takes (longBody? quote) written c) (hrest : IsLongBody quote 0 text chars) :
      IsLongBody quote quotes (c :: text) (written ++ chars)

/-- A row of quotes ends where another character comes. -/
theorem takeWhile_quotes (quotes : ℕ) (hrest : rest.head? ≠ some quote) :
    (List.replicate quotes quote ++ rest).takeWhile (· == quote) = List.replicate quotes quote := by
  refine (Text.takeWhile_dropWhile_append (by simp) fun c hc => ?_).1
  rw [beq_eq_false_iff_ne]
  rintro rfl
  exact hrest hc

theorem drop_quotes (quote : Char) (quotes : ℕ) (rest : List Char) :
    (List.replicate quotes quote ++ rest).drop quotes = rest := by
  rw [List.drop_left' (List.length_replicate)]

/-- A row of quotes is read at once. With three marks in it the text is over. -/
theorem longBody?_quotes (hquotes : quotes < 5) (hrest : rest.head? ≠ some quote) :
    longBody? quote (steps + 1) (List.replicate (quotes + 1) quote ++ rest) =
      if quotes < 2 then (longBody? quote steps rest).map fun (text, rest) =>
        (List.replicate (quotes + 1) quote ++ text, rest)
      else some (List.replicate (quotes - 2) quote, rest) := by
  have htake := takeWhile_quotes (quotes + 1) hrest
  have hdrop := drop_quotes quote (quotes + 1) rest
  rw [List.replicate_succ, List.cons_append] at htake hdrop ⊢
  rw [longBody?, if_pos rfl, htake]
  dsimp only
  rw [List.length_cons, List.length_replicate, hdrop, if_neg (by omega)]
  split_ifs with hthree htwo htwo
  · omega
  · rw [show quotes + 1 - 3 = quotes - 2 by omega]
  · cases longBody? quote steps rest <;> rfl
  · omega

/-- A character other than a quote stands for itself. -/
theorem takes_longBody?_self (hquote : c ≠ quote) (hslash : c = '\\' → quote ≠ '"')
    (hplain : isPlain c = true ∨ c = '\n') : Takes (longBody? quote) [c] c := by
  intro steps rest
  rw [List.singleton_append, longBody?, if_neg hquote, if_neg (fun h => hslash h.1 h.2)]
  by_cases hline : c = '\n'
  · subst hline
    rw [lineEnd?]
    dsimp only
    cases longBody? quote steps rest <;> rfl
  · have hreturn : c ≠ '\x0d' := by
      rintro rfl
      simp [isPlain] at hplain
    have hend : lineEnd? (c :: rest) = none := by
      rw [lineEnd?]
      · simpa using hline
      · simp [hreturn]
    rw [hend]
    simp only [hplain.resolve_right hline, ↓reduceIte]
    cases longBody? quote steps rest <;> rfl

/-- The mark of an escape does not join lines. -/
theorem joinLines?_eq_none {mark : Char} (h : mark ∈ ['"', '\\', 'b', 't', 'n', 'f', 'r', 'u']) :
    joinLines? (mark :: rest) = none := by
  simp only [List.mem_cons, List.not_mem_nil, or_false] at h
  rcases h with rfl | rfl | rfl | rfl | rfl | rfl | rfl | rfl <;> rfl

/-- An escape is read as its character. -/
theorem takes_longBody?_escape {mark : Char}
    (hmark : mark ∈ ['"', '\\', 'b', 't', 'n', 'f', 'r', 'u'])
    (h : ∀ rest, escape? (mark :: chars ++ rest) = some (c, rest)) :
    Takes (longBody? '"') ('\\' :: mark :: chars) c := by
  intro steps rest
  have hread := h rest
  rw [List.cons_append] at hread
  rw [List.cons_append, List.cons_append, longBody?, if_neg (by decide), if_pos ⟨rfl, rfl⟩,
    joinLines?_eq_none hmark, hread]
  simp only [Option.bind_eq_bind, Option.bind_some]
  cases longBody? '"' steps rest <;> rfl

/-- A text between three marks is read back, and so are the quotes before it. -/
theorem IsLongBody.longBody?_eq (h : IsLongBody quote quotes text chars)
    (hrest : rest.head? ≠ some quote) (hsteps : quotes + chars.length < steps) :
    longBody? quote steps
        (List.replicate quotes quote ++ (chars ++ (List.replicate 3 quote ++ rest))) =
      some (List.replicate quotes quote ++ text, rest) := by
  -- the quotes that have been written one after the other wait in front of the text
  induction h generalizing steps with
  | @nil quotes hquotes =>
    -- the three marks at the end make one row with them
    obtain ⟨steps, rfl⟩ := Nat.exists_eq_add_of_lt (Nat.zero_lt_of_lt hsteps)
    have hrow : List.replicate quotes quote ++ ([] ++ (List.replicate 3 quote ++ rest)) =
        List.replicate (quotes + 2 + 1) quote ++ rest := by
      rw [List.nil_append, ← List.append_assoc, List.replicate_append_replicate]
    rw [hrow, longBody?_quotes (by omega) hrest, if_neg (by omega), Nat.add_sub_cancel,
      List.append_nil]
  | @quote quotes text chars _ _ ih =>
    have hrow : ∀ more, List.replicate quotes quote ++ quote :: more =
        List.replicate (quotes + 1) quote ++ more := fun more => by
      rw [List.replicate_succ', List.append_assoc, List.singleton_append]
    rw [List.cons_append, hrow, hrow, ih (by simp at hsteps ⊢; omega)]
  | @char quotes c text written chars hquotes hquote htakes _ ih =>
    have hchar : ∀ steps, chars.length < steps → longBody? quote (steps + 1)
        (written ++ chars ++ (List.replicate 3 quote ++ rest)) = some (c :: text, rest) := by
      intro steps hsteps
      have hrest := @ih steps (by omega)
      rw [List.replicate_zero, List.nil_append, List.nil_append] at hrest
      rw [List.append_assoc, htakes, hrest]
      rfl
    have hwritten : 0 < written.length := by
      cases written with
      | nil => exact absurd rfl (hquote [quote])
      | cons _ _ => simp
    rw [List.length_append] at hsteps
    obtain ⟨steps, rfl⟩ := Nat.exists_eq_succ_of_ne_zero (Nat.ne_zero_of_lt hsteps)
    -- quotes in front of another character are too few to end the text
    cases quotes with
    | zero => exact hchar _ (by omega)
    | succ quotes =>
      obtain ⟨steps, rfl⟩ := Nat.exists_eq_succ_of_ne_zero (show steps ≠ 0 by omega)
      rw [longBody?_quotes (by omega) (by rw [List.append_assoc]; exact hquote _),
        if_pos (by omega), hchar steps (by omega)]
      rfl

/-- A character is read from what is written for it on several lines. -/
theorem takes_longBody?_escapedChar (hquote : c ≠ '"') :
    Takes (longBody? '"') (escapedChar true c) c := by
  obtain ⟨hself, hslash, hplain⟩ | ⟨mark, chars, hescape, hmark, hread⟩ := escapedChar_cases true c
  · rw [hself]
    exact takes_longBody?_self hquote (fun h => absurd h hslash) (by simpa using hplain)
  · rw [hescape]
    exact takes_longBody?_escape (List.mem_cons_of_mem _ hmark) hread

/-- What is written for a character has a character, and it begins with a backslash unless it is
the character itself. -/
theorem exists_escapedChar_eq (isLong : Bool) (c : Char) :
    ∃ first more, escapedChar isLong c = first :: more ∧
      (first = '\\' ∨ first = c ∧ (isPlain c = true ∨ c = '\n')) := by
  obtain ⟨hself, -, hplain⟩ | ⟨mark, chars, hescape, -, -⟩ := escapedChar_cases isLong c
  · exact ⟨c, [], hself, .inr ⟨rfl, hplain.imp_right And.right⟩⟩
  · exact ⟨_, _, hescape, .inl rfl⟩

/-- A text with escapes, of which only every third quote of a row needs one. -/
theorem isLongBody_escapedChars (hquotes : quotes < 3) :
    IsLongBody '"' quotes text (escapedChars true quotes text) := by
  induction text generalizing quotes with
  | nil => exact .nil hquotes
  | cons c text ih =>
    unfold escapedChars
    rw [if_pos rfl]
    split_ifs with hc hfew
    · subst hc
      exact .quote (Nat.succ_lt_succ hfew) (ih (Nat.succ_lt_succ hfew))
    · subst hc
      change IsLongBody '"' quotes ('"' :: text) (['\\', '"'] ++ escapedChars true 0 text)
      exact .char hquotes (by simp) (takes_longBody?_escape (by decide) fun _ => rfl)
        (ih (by decide))
    · obtain ⟨first, more, hchars, hfirst⟩ := exists_escapedChar_eq true c
      refine .char hquotes (fun rest => ?_) (takes_longBody?_escapedChar hc) (ih (by decide))
      rw [hchars, List.cons_append, List.head?_cons, ne_eq, Option.some_inj]
      rintro rfl
      rcases hfirst with hfirst | ⟨hfirst, -⟩
      · exact absurd hfirst (by decide)
      · exact hc hfirst.symm

/-- The longest run of a character in a text, given how many of them stand right before. -/
def longestBehind (c : Char) (run : ℕ) : List Char → ℕ
  | [] => 0
  | x :: rest => if x = c then max (run + 1) (longestBehind c (run + 1) rest)
    else longestBehind c 0 rest

theorem longestRun_eq (c : Char) (text : List Char) :
    longestRun c text = longestBehind c 0 text := by
  have hfold : ∀ counts : ℕ × ℕ, (text.foldl (fun counts x =>
      if x = c then (counts.1 + 1, max counts.2 (counts.1 + 1)) else (0, counts.2)) counts).2 =
      max counts.2 (longestBehind c counts.1 text) := by
    induction text with
    | nil => simp [longestBehind]
    | cons x rest ih =>
      intro counts
      rw [List.foldl_cons, longestBehind]
      split_ifs
      · rw [ih, Nat.max_assoc]
      · rw [ih]
  exact (hfold (0, 0)).trans (Nat.zero_max _)

/-- A character does not stand in a text where its longest run is empty. -/
theorem notMem_of_longestBehind (h : longestBehind c quotes text = 0) : c ∉ text := by
  induction text generalizing quotes with
  | nil => exact List.not_mem_nil
  | cons x rest ih =>
    rw [longestBehind] at h
    split_ifs at h with hx
    · omega
    · exact List.not_mem_cons_of_ne_of_not_mem (Ne.symm hx) (ih h)

/-- A text without escapes, in which no row of quotes is long. -/
theorem isLongBody_self (hquotes : quotes < 3) (hrun : longestBehind '\x27' quotes text < 3)
    (hcontrol : ∀ c ∈ text, isControl c = false) : IsLongBody '\x27' quotes text text := by
  induction text generalizing quotes with
  | nil => exact .nil hquotes
  | cons c text ih =>
    obtain ⟨hc, htext⟩ := List.forall_mem_cons.mp hcontrol
    rw [longestBehind] at hrun
    split_ifs at hrun with hquote
    · subst hquote
      have hfew := (Nat.max_lt.mp hrun).1
      exact .quote hfew (ih hfew (Nat.max_lt.mp hrun).2 htext)
    · have hplain : isPlain c = true ∨ c = '\n' := by
        by_cases hline : c = '\n'
        · exact .inr hline
        · exact .inl (isPlain_of_isControl_eq_false hc hline)
      rw [← List.singleton_append]
      exact .char hquotes (by simpa using hquote)
        (takes_longBody?_self hquote (fun _ => by decide) hplain) (ih (by decide) hrun htext)

/-! ### Quotes around texts -/

/-- A line end begins with one of two characters. -/
theorem lineEnd?_eq_none (hline : text.head? ≠ some '\n') (hreturn : text.head? ≠ some '\x0d') :
    lineEnd? text = none := by
  unfold lineEnd?
  split
  · simp at hline
  · simp at hreturn
  · rfl

/-- A text on a single line is told by its first character from one on several. -/
theorem quoted?_short (hquote : quote = '"' ∨ quote = '\x27') (hchars : chars.head? ≠ some quote)
    (hrest : rest.head? ≠ some quote) (hlength : text.length ≤ chars.length)
    (h : ∀ steps, text.length < steps →
      shortBody? quote steps (chars ++ quote :: rest) = some (text, rest)) :
    quoted? (quote :: (chars ++ quote :: rest)) = some (String.ofList text, rest) := by
  have hread := h ((chars ++ quote :: rest).length + 1) (by simp; omega)
  unfold quoted?
  dsimp only
  rw [if_pos hquote]
  split
  · rename_i b c rest' htext
    have hne : ¬(b = quote ∧ c = quote) := by
      rintro ⟨rfl, rfl⟩
      cases chars with
      | nil => simp_all
      | cons x chars => simp_all
    rw [if_neg hne, hread]
    rfl
  · rw [hread]
    rfl

/-- A text on several lines may begin with a line end that does not count. -/
theorem quoted?_longQuoted {hasLines : Bool} (hquote : quote = '"' ∨ quote = '\x27')
    (hlines : hasLines = false → chars.head? ≠ some '\n' ∧ chars.head? ≠ some '\x0d')
    (hrest : rest.head? ≠ some quote) (h : IsLongBody quote 0 text chars) :
    quoted? (longQuoted quote hasLines chars ++ rest) = some (String.ofList text, rest) := by
  have hread : ∀ steps, chars.length < steps →
      longBody? quote steps (chars ++ (List.replicate 3 quote ++ rest)) = some (text, rest) :=
    fun steps hsteps => by simpa using h.longBody?_eq hrest (by simpa using hsteps)
  have hlong : longText? quote ((if hasLines then ['\n'] else []) ++
      (chars ++ (List.replicate 3 quote ++ rest))) = some (text, rest) := by
    cases hasLines with
    | true => exact hread _ (by simp; omega)
    | false =>
      have hnone : lineEnd? (chars ++ (List.replicate 3 quote ++ rest)) = none := by
        obtain ⟨hline, hreturn⟩ := hlines rfl
        cases chars with
        | nil => rcases hquote with rfl | rfl <;> rfl
        | cons c chars => exact lineEnd?_eq_none (by simpa using hline) (by simpa using hreturn)
      simp only [Bool.false_eq_true, ↓reduceIte, List.nil_append, longText?]
      rw [hnone]
      exact hread _ (by rw [List.length_append]; omega)
  have hchars : longQuoted quote hasLines chars ++ rest = quote :: quote :: quote ::
      ((if hasLines then ['\n'] else []) ++ (chars ++ (List.replicate 3 quote ++ rest))) := by
    simp [longQuoted]
  rw [hchars, quoted?, if_pos hquote]
  dsimp only
  rw [if_pos ⟨rfl, rfl⟩, hlong]
  rfl

/-- A text without escapes between single marks is on one line and has no such mark. -/
theorem QuoteStyle.of_verbatim (h : ofText text = .verbatim) :
    (∀ c ∈ text, isControl c = false) ∧ '\n' ∉ text ∧ longestBehind '\x27' 0 text = 0 := by
  unfold ofText at h
  simp only [longestRun_eq] at h
  split_ifs at h
  simp_all

/-- A text without escapes between three marks has no long row of them. -/
theorem QuoteStyle.of_longVerbatim (h : ofText text = .longVerbatim) :
    (∀ c ∈ text, isControl c = false) ∧ longestBehind '\x27' 0 text < 3 := by
  unfold ofText at h
  simp only [longestRun_eq] at h
  split_ifs at h
  simp_all
  omega

/-- Something is written for each character. -/
theorem length_le_length_flatMap {write : Char → List Char} (h : ∀ c, write c ≠ []) :
    text.length ≤ (text.flatMap write).length := by
  induction text with
  | nil => exact Nat.le_refl _
  | cons c text ih =>
    have hc := List.length_pos_iff.mpr (h c)
    rw [List.flatMap_cons, List.length_append, List.length_cons]
    omega

/-- How a character is written between double quotes on a single line. -/
def quotedChar (c : Char) : List Char := if c = '"' then ['\\', '"'] else escapedChar false c

theorem quotedChar_ne_nil (c : Char) : quotedChar c ≠ [] := by
  unfold quotedChar
  split_ifs
  · simp
  · obtain ⟨first, more, hchars, -⟩ := exists_escapedChar_eq false c
    simp [hchars]

theorem takes_quotedChar (c : Char) : Takes (shortBody? '"') (quotedChar c) c := by
  unfold quotedChar
  split_ifs with hquote
  · subst hquote
    exact takes_shortBody?_escape fun _ => rfl
  · exact takes_shortBody?_escapedChar hquote

theorem escapedChars_eq_flatMap (text : List Char) :
    escapedChars false 0 text = text.flatMap quotedChar := by
  induction text with
  | nil => rfl
  | cons c text ih =>
    rw [escapedChars, List.flatMap_cons, ← ih, quotedChar]
    split_ifs <;> simp_all

/-- A text with escapes is read back from a single line. -/
theorem shortBody?_escapedChars (hsteps : text.length < steps) :
    shortBody? '"' steps (escapedChars false 0 text ++ '"' :: rest) = some (text, rest) := by
  rw [escapedChars_eq_flatMap]
  exact shortBody?_flatMap (fun c _ => takes_quotedChar c) hsteps

/-- A text without escapes is read back from a single line. -/
theorem shortBody?_self (hcontrol : ∀ c ∈ text, isControl c = false) (hline : '\n' ∉ text)
    (hquote : '\x27' ∉ text) (hsteps : text.length < steps) :
    shortBody? '\x27' steps (text ++ '\x27' :: rest) = some (text, rest) := by
  have htakes : ∀ c ∈ text, Takes (shortBody? '\x27') [c] c := fun c hc =>
    takes_shortBody?_self (fun h => hquote (h ▸ hc)) (fun _ => by decide)
      (isPlain_of_isControl_eq_false (hcontrol c hc) fun h => hline (h ▸ hc))
  have hread : shortBody? '\x27' steps (text.flatMap (fun c => [c]) ++ '\x27' :: rest) =
      some (text, rest) := shortBody?_flatMap htakes hsteps
  simpa using hread

/-- What is written for a text on a single line does not begin with a double quote. -/
theorem head?_escapedChars_short : (escapedChars false 0 text).head? ≠ some '"' := by
  cases text with
  | nil => simp [escapedChars]
  | cons c text =>
    rw [escapedChars_eq_flatMap, List.flatMap_cons, quotedChar]
    split_ifs with hquote
    · simp
    · obtain ⟨first, more, hchars, hfirst⟩ := exists_escapedChar_eq false c
      rw [hchars, List.cons_append, List.head?_cons, ne_eq, Option.some_inj]
      rintro rfl
      rcases hfirst with hfirst | ⟨hfirst, -⟩
      · exact absurd hfirst (by decide)
      · exact hquote hfirst.symm

/-- What is written for a text without line ends does not begin with one. -/
theorem head?_escapedChars_long (hline : '\n' ∉ text) :
    (escapedChars true 0 text).head? ≠ some '\n' ∧
      (escapedChars true 0 text).head? ≠ some '\x0d' := by
  cases text with
  | nil => simp [escapedChars]
  | cons c text =>
    rw [List.mem_cons, not_or] at hline
    rw [escapedChars, if_pos rfl]
    split_ifs
    · simp
    · simp
    · obtain ⟨first, more, hchars, hfirst⟩ := exists_escapedChar_eq true c
      rw [hchars, List.cons_append, List.head?_cons, ne_eq, ne_eq, Option.some_inj, Option.some_inj]
      rcases hfirst with rfl | ⟨rfl, hplain⟩
      · decide
      · refine ⟨Ne.symm hline.1, ?_⟩
        rintro rfl
        simp [isPlain] at hplain

/-- A text is read back from between its quotes. -/
theorem quoted?_quotedChars (s : String) (hdouble : rest.head? ≠ some '"')
    (hsingle : rest.head? ≠ some '\x27') : quoted? (quotedChars s ++ rest) = some (s, rest) := by
  have hs : s = String.ofList s.toList := String.ofList_toList.symm
  unfold quotedChars
  dsimp only
  rw [hs, String.toList_ofList]
  generalize s.toList = text
  split
  · have hlength : text.length ≤ (escapedChars false 0 text).length := by
      rw [escapedChars_eq_flatMap]
      exact length_le_length_flatMap quotedChar_ne_nil
    simpa using quoted?_short (.inl rfl) head?_escapedChars_short hdouble hlength
      fun steps => shortBody?_escapedChars
  · rename_i hstyle
    obtain ⟨hcontrol, hline, hrun⟩ := QuoteStyle.of_verbatim hstyle
    have hquote := notMem_of_longestBehind hrun
    have hhead : text.head? ≠ some '\x27' := fun h => hquote (List.mem_of_mem_head? h)
    simpa using quoted?_short (.inr rfl) hhead hsingle (Nat.le_refl _)
      fun steps => shortBody?_self hcontrol hline hquote
  · exact quoted?_longQuoted (.inl rfl) (fun h => head?_escapedChars_long (by simpa using h))
      hdouble (isLongBody_escapedChars (by decide))
  · rename_i hstyle
    obtain ⟨hcontrol, hrun⟩ := QuoteStyle.of_longVerbatim hstyle
    refine quoted?_longQuoted (.inr rfl) (fun h => ⟨fun hhead => ?_, fun hhead => ?_⟩) hsingle
      (isLongBody_self (by decide) hrun hcontrol)
    · simp [List.mem_of_mem_head? hhead] at h
    · exact absurd (hcontrol _ (List.mem_of_mem_head? hhead)) (by decide)

example : quotedChars "C:\\x" = "'C:\\x'".toList := by decide

/-! ### Names -/

/-- A name is read back if what follows is no part of it. -/
theorem keyPart?_keyChars (name : String) (hrest : ∀ c, rest.head? = some c → isBare c = false) :
    keyPart? (keyChars name ++ rest) = some (name, rest) := by
  have hname : name = String.ofList name.toList := String.ofList_toList.symm
  unfold keyChars
  dsimp only
  rw [hname, String.toList_ofList]
  generalize name.toList = text
  split_ifs with hbare hself
  · -- a bare name ends where a character follows that is not bare
    simp only [Bool.and_eq_true, Bool.not_eq_true', List.isEmpty_eq_false_iff,
      List.all_eq_true] at hbare
    obtain ⟨hne, hall⟩ := hbare
    obtain ⟨htake, hdrop⟩ := Text.takeWhile_dropWhile_append hall hrest
    obtain ⟨a, more, rfl⟩ := List.exists_cons_of_ne_nil hne
    have hquote : ¬(a = '"' ∨ a = '\x27') := by
      have ha := hall a List.mem_cons_self
      rintro (rfl | rfl) <;> simp [isBare] at ha
    rw [List.cons_append] at htake hdrop ⊢
    rw [keyPart?, if_neg hquote, htake, hdrop]
    rfl
  · -- between single quotes each character stands for itself
    simp only [Bool.and_eq_true, Bool.not_eq_true', List.any_eq_false, Bool.or_eq_true,
      beq_iff_eq, not_or, Bool.not_eq_true, List.contains_eq_mem, decide_eq_false_iff_not] at hself
    obtain ⟨⟨hcontrol, -⟩, hquote⟩ := hself
    have hread : shortBody? '\x27' ((text ++ '\x27' :: rest).length + 1)
        (text ++ '\x27' :: rest) = some (text, rest) :=
      shortBody?_self (fun c hc => (hcontrol c hc).1) (fun h => (hcontrol _ h).2 rfl) hquote
        (by rw [List.length_append]; omega)
    rw [List.cons_append, List.cons_append, List.append_assoc, List.singleton_append, keyPart?,
      if_pos (.inr rfl), hread]
    rfl
  · have hlength : text.length ≤ (escapedChars false 0 text).length := by
      rw [escapedChars_eq_flatMap]
      exact length_le_length_flatMap quotedChar_ne_nil
    have hread : shortBody? '"' ((escapedChars false 0 text ++ '"' :: rest).length + 1)
        (escapedChars false 0 text ++ '"' :: rest) = some (text, rest) :=
      shortBody?_escapedChars (by simp; omega)
    rw [List.cons_append, List.cons_append, List.append_assoc, List.singleton_append, keyPart?,
      if_pos (.inl rfl), hread]
    rfl

end Filewise.Toml
