import Filewise.Proofs.Number.Layout
import Filewise.Proofs.Number.Nearest
import Filewise.Toml.Printer
import Mathlib.Data.List.TakeWhile

/-!
# Reading words

Truth values and numbers are written as words. Only the text of a floating-point number has a point,
and no word is a date, since a date has hyphens behind its first character. So each word is read as
what it was written for. A floating-point number is written with digits that lie in its rounding
interval, so it is read back, too.

## Main results

* `Toml.word?_integer`, `Toml.word?_float`: numbers are read back.
* `Toml.IsWord.wordText_append`: a word ends where no character of a word comes.
-/

namespace Filewise.Toml

open Numeral

variable {c : Char} {n : ℕ} {text digits whole part rest : List Char} {x : Double}

/-! ### Digits -/

/-- The value of a decimal digit. -/
def digitValue (c : Char) : ℕ := c.toNat - '0'.toNat

theorem digit?_of_isDigit (h : c.isDigit = true) : digit? 10 c = some (digitValue c) := by
  have hlt : digitValue c < 10 := by
    have hdigit := Char.isDigit_iff_toNat.mp h
    have hzero : ('0').toNat = 48 := rfl
    have hnine : ('9').toNat = 57 := rfl
    rw [digitValue]
    omega
  unfold digit?
  dsimp only
  rw [if_pos h]
  exact if_pos hlt

/-- Digits without underscores stand for themselves. -/
theorem ungrouped?_of_isDigit (isInside : Bool) (h : ∀ c ∈ text, c.isDigit = true)
    (hne : isInside = true ∨ text ≠ []) :
    ungrouped? 10 isInside text = some (text.map digitValue) := by
  induction text generalizing isInside with
  | nil => simp [ungrouped?, hne.resolve_right (by simp)]
  | cons c rest ih =>
    obtain ⟨hc, hrest⟩ := List.forall_mem_cons.mp h
    rw [ungrouped?, digit?_of_isDigit hc]
    · simp [ih true hrest (.inl rfl)]
    · rintro c' rest' rfl
      simp at hc

theorem digits?_of_isDigit (h : ∀ c ∈ text, c.isDigit = true) (hne : text ≠ []) :
    digits? 10 text = some (text.map digitValue) := ungrouped?_of_isDigit false h (.inr hne)

theorem number_map_digitValue (digits : List Char) :
    number 10 (digits.map digitValue) = ofDigits digits := by
  rw [number, List.foldl_map]
  rfl

/-- Digits with no zero in front, unless it is the only digit. -/
structure IsWhole (digits : List Char) : Prop where
  ne_nil : digits ≠ []
  isDigit : ∀ c ∈ digits, c.isDigit = true
  leading : digits.head? = some '0' → digits = ['0']

theorem IsWhole.decimal?_eq (h : IsWhole digits) :
    decimal? digits = some (digits.map digitValue) := by
  rw [decimal?, digits?_of_isDigit h.isDigit h.ne_nil]
  split
  · rename_i heq
    obtain ⟨c, c', more, rfl⟩ : ∃ c c' more, digits = c :: c' :: more := by
      rcases digits with _ | ⟨c, _ | ⟨c', more⟩⟩ <;> simp_all
    have hzero : digitValue c = 0 := by simpa using congrArg (Option.map List.head?) heq
    have hc := Char.isDigit_iff_toNat.mp (h.isDigit c List.mem_cons_self)
    have hc' : c = '0' := Char.toNat_inj.mp (by rw [digitValue] at hzero; omega)
    subst hc'
    simpa using h.leading rfl
  · rfl

/-- The digits of a number other than zero do not begin with a zero. -/
theorem head?_toDigits (h : n ≠ 0) : (Nat.toDigits 10 n).head? ≠ some '0' := by
  induction n using Nat.strongRecOn with
  | ind n ih =>
    rw [Nat.toDigits_eq_if (by decide)]
    split_ifs with hlt
    · have hsmall : ∀ n < 10, n ≠ 0 → [Nat.digitChar n].head? ≠ some '0' := by decide
      exact hsmall n hlt h
    · have hne : n / 10 ≠ 0 := by omega
      rw [List.head?_append_of_ne_nil _ Nat.toDigits_ne_nil]
      exact ih (n / 10) (by omega) hne

theorem isWhole_digitText (n : ℕ) : IsWhole (Decimal.digitText n) where
  ne_nil := Nat.toDigits_ne_nil
  isDigit _ := Decimal.isDigit_of_mem_digitText
  leading h := by
    rcases eq_or_ne n 0 with rfl | hn
    · rfl
    · exact absurd h (head?_toDigits hn)

/-! ### Words -/

/-- A text that is read as one word and is no date. -/
structure IsWord (text : List Char) : Prop where
  ne_nil : text ≠ []
  chars : ∀ c ∈ text, isWordChar c = true
  hyphen : '-' ∉ text.tail

/-- A word that consists of characters of numbers. -/
structure IsNumber (text : List Char) : Prop where
  ne_nil : text ≠ []
  chars : ∀ c ∈ text, FloatLayout.isNumberChar c = true
  hyphen : '-' ∉ text.tail

theorem isWordChar_of_isNumberChar (h : FloatLayout.isNumberChar c = true) :
    isWordChar c = true := by
  simp only [FloatLayout.isNumberChar, Bool.or_eq_true, beq_iff_eq] at h
  obtain (((h | rfl) | rfl) | rfl) | rfl := h
  · simp [isWordChar, Char.isAlphanum, h]
  all_goals decide

theorem IsNumber.isWord (h : IsNumber text) : IsWord text :=
  ⟨h.ne_nil, fun c hc => isWordChar_of_isNumberChar (h.chars c hc), h.hyphen⟩

theorem isWord_bool (b : Bool) : IsWord (if b then "true" else "false").toList := by
  cases b
  · exact ⟨by decide, List.all_eq_true.mp (by decide), by decide⟩
  · exact ⟨by decide, List.all_eq_true.mp (by decide), by decide⟩

/-- A date has hyphens behind its first character. -/
theorem IsWord.date?_eq_none (h : IsWord text) : date? text = none := by
  have hhyphen := h.hyphen
  unfold date?
  split
  · simp at hhyphen
  · rfl

/-- A word ends where no character of a word comes. -/
theorem IsWord.wordText_append (h : IsWord text)
    (hrest : ∀ c, rest.head? = some c → isWordChar c = false) :
    wordText (text ++ rest) = (text, rest) := by
  obtain ⟨htake, hdrop⟩ := Text.takeWhile_dropWhile_append h.chars hrest
  unfold wordText
  rw [htake, hdrop]
  dsimp only
  rw [h.date?_eq_none]
  rfl

/-- No number is a date or a time. -/
theorem IsNumber.dateTime?_eq_none (h : IsNumber text) : dateTime? text = none := by
  have htime : time? text = none := by
    unfold time?
    split
    · have hcolon := h.chars ':' (by simp)
      simp [FloatLayout.isNumberChar] at hcolon
    · rfl
  unfold dateTime?
  split
  · rw [h.isWord.date?_eq_none, htime]
    rfl
  · rename_i mark more hdrop
    have hmark := h.chars mark (List.mem_of_mem_drop (hdrop ▸ List.mem_cons_self))
    have hne : ¬(mark = 'T' ∨ mark = 't' ∨ mark = ' ') := by
      rintro (rfl | rfl | rfl) <;> simp [FloatLayout.isNumberChar] at hmark
    rw [if_neg hne, htime]

/-- A number is no truth value. -/
theorem IsNumber.word?_eq (h : IsNumber text) :
    word? text = ((float? text).map Value.float).or ((integer? text).map .integer) := by
  have htrue : text ≠ "true".toList := by
    rintro rfl
    exact absurd (h.chars 't' (by decide)) (by decide)
  have hfalse : text ≠ "false".toList := by
    rintro rfl
    exact absurd (h.chars 'f' (by decide)) (by decide)
  rw [word?, if_neg htrue, if_neg hfalse, h.dateTime?_eq_none]
  cases float? text <;> rfl

/-! ### Signs -/

/-- The sign of a number. -/
def signChars (negative : Bool) : List Char := if negative then ['-'] else []

/-- A number has no hyphen behind its sign. -/
theorem isNumber_signChars (negative : Bool) (hne : text ≠ [])
    (h : ∀ c ∈ text, FloatLayout.isNumberChar c = true) (hhyphen : '-' ∉ text) :
    IsNumber (signChars negative ++ text) where
  ne_nil := by simp [hne]
  chars := by
    intro c hc
    rcases List.mem_append.mp hc with hc | hc
    · cases negative <;> simp_all [signChars]
      decide
    · exact h c hc
  hyphen := by
    cases negative with
    | true => exact hhyphen
    | false => exact fun hmem => hhyphen (List.mem_of_mem_tail hmem)

/-- A number that begins with a digit is told from its sign. -/
theorem signed_signChars (negative : Bool) (h : ∀ c, text.head? = some c → c.isDigit = true) :
    signed (signChars negative ++ text) = (negative, text) := by
  cases negative with
  | true => rfl
  | false =>
    rw [signChars, if_neg (by decide), List.nil_append]
    unfold signed
    split
    · exact absurd (h _ rfl) (by decide)
    · exact absurd (h _ rfl) (by decide)
    · rfl

/-! ### Integers -/

/-- A digit is not one of the other characters. -/
theorem ne_of_isDigit {d : Char} (hc : c.isDigit = true) (hd : d.isDigit = false) : c ≠ d := by
  rintro rfl
  rw [hc] at hd
  exact Bool.noConfusion hd

/-- An integer is written with its digits behind its sign. -/
theorem toList_toString (n : ℤ) :
    (toString n).toList = signChars (decide (n < 0)) ++ Decimal.digitText n.natAbs := by
  have htext : toString n = n.repr := rfl
  rw [htext, Int.repr_eq_if, signChars, Decimal.digitText]
  rcases lt_or_ge n 0 with hneg | hpos
  · have hn : (-n).toNat = n.natAbs := by omega
    rw [if_neg (by omega), String.toList_append, Nat.toList_repr, hn, if_pos (by simpa using hneg)]
    rfl
  · have hn : n.toNat = n.natAbs := by omega
    rw [if_pos hpos, Nat.toList_repr, hn, if_neg (by simpa using hpos), List.nil_append]

theorem head?_of_isWhole (h : IsWhole digits) (more : List Char) :
    ∀ c, (digits ++ more).head? = some c → c.isDigit = true := by
  intro c hc
  rw [List.head?_append_of_ne_nil _ h.ne_nil] at hc
  exact h.isDigit c (List.mem_of_mem_head? hc)

/-- A number consists of a mantissa and a power. Without the mark of a power there is none. -/
theorem float?_of_noMark (negative : Bool) (hhead : ∀ c, text.head? = some c → c.isDigit = true)
    (hmark : ∀ c ∈ text, c ≠ 'e' ∧ c ≠ 'E') :
    float? (signChars negative ++ text) =
      if (text.dropWhile (· != '.')).isEmpty then none
      else (decimal? (text.takeWhile (· != '.'))).bind fun w =>
        (fraction? (text.dropWhile (· != '.'))).bind fun f =>
          let x := Double.ofDecimal negative (number 10 (w ++ f)) (-f.length)
          if x = Double.infinity false then none else some x := by
  have hmantissa : text.takeWhile (fun c => !(c == 'e' || c == 'E')) = text :=
    List.takeWhile_eq_self_iff.mpr fun c hc => by simp [hmark c hc]
  have hpower : text.dropWhile (fun c => !(c == 'e' || c == 'E')) = [] :=
    List.dropWhile_eq_nil_iff.mpr fun c hc => by simp [hmark c hc]
  have hinf : text ≠ ['i', 'n', 'f'] := by
    rintro rfl
    exact absurd (hhead _ rfl) (by decide)
  have hnan : text ≠ ['n', 'a', 'n'] := by
    rintro rfl
    exact absurd (hhead _ rfl) (by decide)
  rw [float?, signed_signChars negative hhead]
  dsimp only
  rw [if_neg hinf, if_neg hnan, hmantissa, hpower, List.isEmpty_nil, Bool.true_and]
  simp [exponent?]

/-- Digits without a point are no floating-point number. -/
theorem float?_of_isWhole (negative : Bool) (h : IsWhole digits) :
    float? (signChars negative ++ digits) = none := by
  have hhead := head?_of_isWhole h []
  rw [List.append_nil] at hhead
  rw [float?_of_noMark negative hhead fun c hc => ⟨ne_of_isDigit (h.isDigit c hc) rfl,
    ne_of_isDigit (h.isDigit c hc) rfl⟩]
  have hpoint : digits.dropWhile (· != '.') = [] :=
    List.dropWhile_eq_nil_iff.mpr fun c hc => by simpa using ne_of_isDigit (h.isDigit c hc) rfl
  simp [hpoint]

/-- Digits without an underscore or a prefix are an integer. -/
theorem integer?_of_isWhole (negative : Bool) (h : IsWhole digits) :
    integer? (signChars negative ++ digits) =
      (some (if negative then -(ofDigits digits : ℤ) else ofDigits digits)).filter
        Word.fitsSigned := by
  have hhead := head?_of_isWhole h []
  rw [List.append_nil] at hhead
  have hbase : ∀ base more, base.isDigit = false →
      signChars negative ++ digits ≠ '0' :: base :: more := by
    intro base more hbase heq
    cases negative with
    | true => simp [signChars] at heq
    | false =>
      have hmem : base ∈ digits := by
        rw [signChars, if_neg (by decide), List.nil_append] at heq
        simp [heq]
      exact ne_of_isDigit (h.isDigit base hmem) hbase rfl
  unfold integer?
  split
  · rename_i heq
    exact absurd heq (hbase _ _ rfl)
  · rename_i heq
    exact absurd heq (hbase _ _ rfl)
  · rename_i heq
    exact absurd heq (hbase _ _ rfl)
  · rw [signed_signChars negative hhead]
    simp only [h.decimal?_eq, Option.map_some, number_map_digitValue]

theorem isNumber_integer (n : ℤ) : IsNumber (toString n).toList := by
  have hwhole := isWhole_digitText n.natAbs
  rw [toList_toString]
  exact isNumber_signChars _ hwhole.ne_nil
    (fun c hc => FloatLayout.isNumberChar_of_isDigit (hwhole.isDigit c hc))
    fun hmem => absurd (hwhole.isDigit _ hmem) (by decide)

/-- An integer of 64 bits is read back. -/
theorem word?_integer {n : ℤ} (h : Word.fitsSigned n = true) :
    word? (toString n).toList = some (.integer n) := by
  have hwhole := isWhole_digitText n.natAbs
  have hn : (if decide (n < 0) then -(n.natAbs : ℤ) else n.natAbs) = n := by
    split_ifs with hneg
    · rw [decide_eq_true_eq] at hneg
      omega
    · rw [decide_eq_true_eq] at hneg
      omega
  rw [(isNumber_integer n).word?_eq, toList_toString, float?_of_isWhole _ hwhole,
    integer?_of_isWhole _ hwhole, ofDigits_digitText, hn]
  simp [h]

/-! ### Floating-point numbers -/

/-- Digits around a point are a floating-point number. -/
theorem float?_of_point (negative : Bool) (hwhole : IsWhole whole)
    (hpart : ∀ c ∈ part, c.isDigit = true) (hne : part ≠ []) :
    float? (signChars negative ++ (whole ++ '.' :: part)) =
      let x := Double.ofDecimal negative (ofDigits (whole ++ part)) (-part.length)
      if x = Double.infinity false then none else some x := by
  have hmark : ∀ c ∈ whole ++ '.' :: part, c ≠ 'e' ∧ c ≠ 'E' := by
    intro c hc
    rcases List.mem_append.mp hc with hc | hc
    · exact ⟨ne_of_isDigit (hwhole.isDigit c hc) rfl, ne_of_isDigit (hwhole.isDigit c hc) rfl⟩
    · rcases List.mem_cons.mp hc with rfl | hc
      · decide
      · exact ⟨ne_of_isDigit (hpart c hc) rfl, ne_of_isDigit (hpart c hc) rfl⟩
  have hpoint : ∀ c ∈ whole, (c != '.') = true := fun c hc => by
    simpa using ne_of_isDigit (hwhole.isDigit c hc) rfl
  obtain ⟨htake, hdrop⟩ := Text.takeWhile_dropWhile_append hpoint
    (show ∀ c, ('.' :: part).head? = some c → (c != '.') = false by simp)
  rw [float?_of_noMark negative (head?_of_isWhole hwhole _) hmark, htake, hdrop,
    hwhole.decimal?_eq, fraction?, digits?_of_isDigit hpart hne]
  simp only [List.isEmpty_cons, Bool.false_eq_true, ↓reduceIte, Option.bind_some, List.length_map,
    ← List.map_append, number_map_digitValue]

/-- Digits in full stand around a point. -/
theorem exists_inFull_eq (h : ∀ c ∈ digits, c.isDigit = true) (hne : digits ≠ [])
    (hhead : digits.head? ≠ some '0') (point : ℤ) : ∃ whole part,
      FloatLayout.toml.inFull digits point = whole ++ '.' :: part ∧ IsWhole whole ∧
      (∀ c ∈ part, c.isDigit = true) ∧ part ≠ [] := by
  have hzeros : ∀ n : ℕ, ∀ c ∈ List.replicate n '0', c.isDigit = true :=
    fun _ _ => FloatLayout.isDigit_of_mem_replicate
  unfold FloatLayout.inFull
  dsimp only
  split_ifs with hlarge hmiddle
  · refine ⟨digits ++ List.replicate (point - digits.length).toNat '0', ['0'], rfl,
      ⟨by simp [hne], FloatLayout.isDigit_of_mem_append h (hzeros _), fun hzero => ?_⟩,
      FloatLayout.isDigit_of_mem_zero, by simp⟩
    rw [List.head?_append_of_ne_nil _ hne] at hzero
    exact absurd hzero hhead
  · obtain ⟨d, more, rfl⟩ := List.exists_cons_of_ne_nil hne
    obtain ⟨n, hn⟩ : ∃ n : ℕ, point.toNat = n + 1 := ⟨point.toNat - 1, by omega⟩
    rw [hn]
    refine ⟨_, _, rfl, ⟨by simp, fun c hc => h c (List.mem_of_mem_take hc), fun hzero => ?_⟩,
      fun c hc => h c (List.mem_of_mem_drop hc), ?_⟩
    · rw [List.take_succ_cons] at hzero
      exact absurd hzero hhead
    · rw [List.drop_succ_cons, ne_eq, List.drop_eq_nil_iff]
      simp only [List.length_cons] at hlarge
      omega
  · exact ⟨['0'], _, rfl, ⟨by simp, FloatLayout.isDigit_of_mem_zero, fun _ => rfl⟩,
      FloatLayout.isDigit_of_mem_append (hzeros _) h, by simp [hne]⟩

/-- A finite number is written with digits around a point, and the value of the digits is that of
its shortest decimal. -/
theorem exists_writeMagnitude_eq (x : Double) : ∃ whole part,
    FloatLayout.toml.writeMagnitude x = whole ++ '.' :: part ∧ IsWhole whole ∧
    (∀ c ∈ part, c.isDigit = true) ∧ part ≠ [] ∧
    Decimal.toRat ⟨ofDigits (whole ++ part), -part.length⟩ =
      if x.magnitude = 0 then 0 else x.shortest.toRat := by
  by_cases hzero : x.magnitude = 0
  · refine ⟨['0'], ['0'], by rw [FloatLayout.writeMagnitude, if_pos hzero]; rfl,
      isWhole_digitText 0, FloatLayout.isDigit_of_mem_zero, by simp, ?_⟩
    have hdigits : ofDigits (['0'] ++ ['0']) = 0 := rfl
    rw [if_pos hzero, hdigits, Decimal.toRat, Nat.cast_zero, zero_mul]
  · have hdigits : x.shortest.digits ≠ 0 := by
      intro hdigits
      have hpos := Double.toRat_shortest_pos hzero
      simp [Decimal.toRat, hdigits] at hpos
    obtain ⟨whole, part, htext, hwhole, hpart, hne⟩ := exists_inFull_eq
      (fun _ => Decimal.isDigit_of_mem_digitText) Nat.toDigits_ne_nil (head?_toDigits hdigits)
      (x.shortest.exponent + (Decimal.digitText x.shortest.digits).length)
    have hmagnitude : FloatLayout.toml.writeMagnitude x = whole ++ '.' :: part := by
      rw [FloatLayout.writeMagnitude, if_neg hzero]
      exact htext
    refine ⟨whole, part, hmagnitude, hwhole, hpart, hne, ?_⟩
    rw [if_neg hzero]
    -- both ways of writing a number have the value of the same text in full
    calc Decimal.toRat ⟨ofDigits (whole ++ part), -part.length⟩
        = Decimal.toRat
            ⟨ofDigits (whole ++ part), (Numeral.exponent? []).getD 0 - part.length⟩ := by
          rw [Numeral.exponent?, Option.getD_some, zero_sub]
      _ = valueOf (whole ++ '.' :: (part ++ [])) :=
        (valueOf_point hwhole.isDigit hpart (by simp [EndsDigits])).symm
      _ = valueOf (FloatLayout.json.inFull (Decimal.digitText x.shortest.digits)
          (x.shortest.exponent + (Decimal.digitText x.shortest.digits).length)) := by
        rw [List.append_nil, ← htext]
        rfl
      _ = x.shortest.toRat := by
        rw [FloatLayout.valueOf_inFull fun _ => Decimal.isDigit_of_mem_digitText,
          ofDigits_digitText, add_sub_cancel_right]

/-- A number is its sign and its magnitude. -/
theorem ofMagnitude_magnitude (x : Double) : Double.ofMagnitude x.isNegative x.magnitude = x := by
  obtain ⟨x⟩ := x
  have hx := x.toNat_lt
  have hweight : Double.signWeight = 2 ^ 63 := rfl
  rw [Double.ofMagnitude, Double.mk.injEq, ← UInt64.toNat_inj, UInt64.toNat_ofNat',
    Double.isNegative, Double.magnitude, hweight]
  by_cases hneg : 2 ^ 63 ≤ x.toNat
  · simp only [hneg, decide_true, ↓reduceIte]
    omega
  · simp only [hneg, decide_false, Bool.false_eq_true, ↓reduceIte]
    omega

theorem isNumber_float (h : x.isFinite = true) : IsNumber (FloatLayout.toml.write x).toList := by
  obtain ⟨whole, part, htext, hwhole, hpart, -, -⟩ := exists_writeMagnitude_eq x
  have hchars : ∀ c ∈ whole ++ '.' :: part, FloatLayout.isNumberChar c = true := by
    intro c hc
    rcases List.mem_append.mp hc with hc | hc
    · exact FloatLayout.isNumberChar_of_isDigit (hwhole.isDigit c hc)
    · rcases List.mem_cons.mp hc with rfl | hc
      · rfl
      · exact FloatLayout.isNumberChar_of_isDigit (hpart c hc)
  have hhyphen : '-' ∉ whole ++ '.' :: part := by
    intro hmem
    rcases List.mem_append.mp hmem with hmem | hmem
    · exact absurd (hwhole.isDigit _ hmem) (by decide)
    · rcases List.mem_cons.mp hmem with hmem | hmem
      · exact absurd hmem (by decide)
      · exact absurd (hpart _ hmem) (by decide)
  rw [FloatLayout.toList_write _ h, htext]
  exact isNumber_signChars x.isNegative (by simp) hchars hhyphen

/-- A finite floating-point number is read back. -/
theorem word?_float (h : x.isFinite = true) :
    word? (FloatLayout.toml.write x).toList = some (.float x) := by
  obtain ⟨whole, part, htext, hwhole, hpart, hne, hvalue⟩ := exists_writeMagnitude_eq x
  have hread : Double.ofDecimal x.isNegative (ofDigits (whole ++ part)) (-part.length) = x := by
    split_ifs at hvalue with hzero
    · have hdigits : ofDigits (whole ++ part) = 0 := by
        have hpower : (10 : ℚ) ^ (-part.length : ℤ) ≠ 0 := by positivity
        simpa [Decimal.toRat, hpower] using hvalue
      rw [hdigits, Double.ofDecimal, if_pos rfl, Double.zero, ← hzero, ofMagnitude_magnitude]
    · have hholds := Double.holds_ofDouble_iff.mp (Double.holds_shortest hzero)
      rw [← hvalue] at hholds
      rw [Double.ofDecimal_of_holdsAt hzero (by simpa [Double.isFinite] using h) hholds,
        ofMagnitude_magnitude]
  have hfinite : x ≠ Double.infinity false := by
    rintro rfl
    exact absurd h (by decide)
  have hsign : (if x.isNegative then ['-'] else []) = signChars x.isNegative := rfl
  rw [(isNumber_float h).word?_eq, FloatLayout.toList_write _ h, htext, hsign,
    float?_of_point _ hwhole hpart hne]
  simp only [hread, if_neg hfinite, Option.map_some, Option.some_or]

end Filewise.Toml
