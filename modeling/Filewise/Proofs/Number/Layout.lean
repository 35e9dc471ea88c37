import Filewise.Number.Layout
import Filewise.Number.Numeral
import Filewise.Proofs.Number.Shortest
import Filewise.Proofs.Text.Runs

/-!
# The text of a number tells the number

The text of a finite number is read back as the value of its shortest decimal, whether it is
written in full or with an exponent. The value tells the magnitude, and the sign stands in front,
so two finite numbers with the same text are the same.

## Main definitions

* `Numeral.valueOf`: the value of digits with a point and an exponent.

## Main results

* `FloatLayout.valueOf_json`: the text of a magnitude has the value of the shortest decimal.
* `FloatLayout.eq_of_write_json_eq`: finite numbers with the same text are the same.
-/

namespace Filewise

namespace Numeral

variable {digits whole part rest : List Char} {n : ℕ}

/-- The value of digits, of which some may stand after a point, with an exponent or without. -/
def valueOf (text : List Char) : ℚ :=
  let whole := text.takeWhile Char.isDigit
  match text.dropWhile Char.isDigit with
  | '.' :: rest =>
    let part := rest.takeWhile Char.isDigit
    Decimal.toRat ⟨ofDigits (whole ++ part),
      (exponent? (rest.dropWhile Char.isDigit)).getD 0 - part.length⟩
  | rest => Decimal.toRat ⟨ofDigits whole, (exponent? rest).getD 0⟩

/-- Nothing that follows is a digit. -/
def EndsDigits (rest : List Char) : Prop := ∀ c, rest.head? = some c → c.isDigit = false

theorem valueOf_point (hwhole : ∀ c ∈ whole, c.isDigit = true)
    (hpart : ∀ c ∈ part, c.isDigit = true) (hrest : EndsDigits rest) :
    valueOf (whole ++ '.' :: (part ++ rest)) =
      Decimal.toRat ⟨ofDigits (whole ++ part), (exponent? rest).getD 0 - part.length⟩ := by
  have hpoint : EndsDigits ('.' :: (part ++ rest)) := by
    intro c hc
    obtain rfl := Option.some_inj.mp hc
    decide
  obtain ⟨htake, hdrop⟩ := Text.takeWhile_dropWhile_append hwhole hpoint
  obtain ⟨htake', hdrop'⟩ := Text.takeWhile_dropWhile_append hpart hrest
  rw [valueOf, htake, hdrop]
  simp only [htake', hdrop']

theorem valueOf_mark (hwhole : ∀ c ∈ whole, c.isDigit = true) (power : List Char) :
    valueOf (whole ++ 'e' :: power) =
      Decimal.toRat ⟨ofDigits whole, (exponent? ('e' :: power)).getD 0⟩ := by
  have hmark : EndsDigits ('e' :: power) := by
    intro c hc
    obtain rfl := Option.some_inj.mp hc
    decide
  obtain ⟨htake, hdrop⟩ := Text.takeWhile_dropWhile_append hwhole hmark
  rw [valueOf, htake, hdrop]
  rfl

/-! ### Digits -/

theorem ofDigits_append (digits more : List Char) :
    ofDigits (digits ++ more) = 10 ^ more.length * ofDigits digits + ofDigits more := by
  change Nat.ofDigitChars 10 _ 0 = _
  rw [Nat.ofDigitChars_append, Nat.ofDigitChars_eq_ofDigitChars_zero]
  rfl

theorem ofDigits_replicate_zero (n : ℕ) : ofDigits (List.replicate n '0') = 0 := by
  change Nat.ofDigitChars 10 _ 0 = _
  rw [Nat.ofDigitChars_replicate_zero, Nat.mul_zero]

theorem ofDigits_digitText (n : ℕ) : ofDigits (Decimal.digitText n) = n :=
  Nat.ofDigitChars_ten_toDigits

end Numeral

theorem Decimal.isDigit_of_mem_digitText {n : ℕ} {c : Char} (h : c ∈ digitText n) :
    c.isDigit = true :=
  Nat.isDigit_of_mem_toDigits (by decide) (by decide) h

namespace FloatLayout

open Numeral

variable {digits : List Char} {point : ℤ} {x y : Double} {c : Char}

theorem isDigit_of_mem_replicate {n : ℕ} (h : c ∈ List.replicate n '0') : c.isDigit = true := by
  rw [List.eq_of_mem_replicate h]
  decide

theorem isDigit_of_mem_zero : ∀ c ∈ ['0'], c.isDigit = true := List.forall_mem_singleton.mpr rfl

theorem isDigit_of_mem_append {more : List Char} (h : ∀ c ∈ digits, c.isDigit = true)
    (hmore : ∀ c ∈ more, c.isDigit = true) : ∀ c ∈ digits ++ more, c.isDigit = true := by
  intro c hc
  rcases List.mem_append.mp hc with hc | hc
  · exact h c hc
  · exact hmore c hc

/-! ### The value of a text -/

/-- Digits that are written in full have the value that the place of the point gives them. -/
theorem valueOf_inFull (h : ∀ c ∈ digits, c.isDigit = true) (point : ℤ) :
    valueOf (json.inFull digits point) =
      Decimal.toRat ⟨ofDigits digits, point - digits.length⟩ := by
  have hnone : EndsDigits [] := by simp [EndsDigits]
  unfold inFull
  dsimp only
  split_ifs with hlarge hmiddle
  · -- zeros fill the places up to the point, and one follows it
    have htext : digits ++ List.replicate (point - digits.length).toNat '0' ++
        json.integralMark.toList =
        digits ++ List.replicate (point - digits.length).toNat '0' ++ '.' :: (['0'] ++ []) := rfl
    rw [htext, valueOf_point (isDigit_of_mem_append h fun _ => isDigit_of_mem_replicate)
      isDigit_of_mem_zero hnone, ofDigits_append, ofDigits_append, ofDigits_replicate_zero,
      List.length_replicate]
    obtain ⟨k, hk⟩ := Int.eq_ofNat_of_zero_le (sub_nonneg.mpr hlarge)
    rw [hk, Decimal.toRat, Decimal.toRat]
    have hlast : ofDigits ['0'] = 0 := rfl
    simp only [hlast, exponent?, Option.getD_some, List.length_singleton, Int.toNat_natCast]
    push_cast
    rw [zpow_natCast, zpow_neg_one]
    ring
  · -- the point stands between the digits
    have htake : ∀ c ∈ digits.take point.toNat, c.isDigit = true :=
      fun c hc => h c (List.mem_of_mem_take hc)
    have hdrop : ∀ c ∈ digits.drop point.toNat, c.isDigit = true :=
      fun c hc => h c (List.mem_of_mem_drop hc)
    have hpoint := valueOf_point htake hdrop hnone
    rw [List.append_nil] at hpoint
    rw [hpoint, List.take_append_drop, List.length_drop]
    congr 2
    simp only [exponent?, Option.getD_some]
    omega
  · -- zeros stand between the point and the digits
    have hpoint := valueOf_point isDigit_of_mem_zero
      (isDigit_of_mem_append (fun _ => isDigit_of_mem_replicate (n := (-point).toNat)) h) hnone
    rw [List.append_nil] at hpoint
    refine hpoint.trans ?_
    rw [ofDigits_append, ofDigits_append, ofDigits_replicate_zero, List.length_append,
      List.length_replicate]
    have hfirst : ofDigits ['0'] = 0 := rfl
    simp only [hfirst, exponent?, Option.getD_some, Nat.mul_zero, Nat.zero_add]
    congr 2
    push_cast
    omega

/-- The exponent that is written after its mark. -/
theorem exponent?_mark (exponent : ℤ) :
    exponent? ('e' :: (if exponent < 0 then '-' else '+') ::
      (List.replicate (2 - (Decimal.digitText exponent.natAbs).length) '0' ++
        Decimal.digitText exponent.natAbs)) = some exponent := by
  generalize hpower : List.replicate (2 - (Decimal.digitText exponent.natAbs).length) '0' ++
    Decimal.digitText exponent.natAbs = power
  have hdigits : ∀ c ∈ power, c.isDigit = true := by
    rw [← hpower]
    exact isDigit_of_mem_append (fun _ => isDigit_of_mem_replicate)
      fun _ => Decimal.isDigit_of_mem_digitText
  have hne : power ≠ [] := by
    rw [← hpower]
    exact fun hnil => Nat.toDigits_ne_nil (List.append_eq_nil_iff.mp hnil).2
  have hvalue : ofDigits power = exponent.natAbs := by
    rw [← hpower, ofDigits_append, ofDigits_replicate_zero, ofDigits_digitText, Nat.mul_zero,
      Nat.zero_add]
  have hnatural : natural? power = some exponent.natAbs := by
    have hall : power.all Char.isDigit = true := List.all_eq_true.mpr hdigits
    have hempty : power.isEmpty = false := by simpa using hne
    rw [natural?, hall, hempty, hvalue]
    rfl
  rw [exponent?, if_pos (Or.inl rfl)]
  split_ifs with hneg
  · simp only [splitSign, hnatural]
    simp [abs_of_neg hneg]
  · simp only [splitSign, hnatural]
    simp [abs_of_nonneg (not_lt.mp hneg)]

/-- Digits with a power of ten have the value that the place of the point gives them. -/
theorem valueOf_withExponent (h : ∀ c ∈ digits, c.isDigit = true) (hne : digits ≠ [])
    (point : ℤ) :
    valueOf (withExponent digits point) =
      Decimal.toRat ⟨ofDigits digits, point - digits.length⟩ := by
  have hexponent := exponent?_mark (point - 1)
  unfold withExponent
  dsimp only
  rw [List.append_assoc, List.cons_append, List.cons_append]
  rcases digits with _ | ⟨d, _ | ⟨d', rest⟩⟩
  · exact absurd rfl hne
  · refine (valueOf_mark h _).trans ?_
    rw [hexponent]
    rfl
  · -- all digits but the first one stand after the point
    have hfirst : ∀ c ∈ [d], c.isDigit = true := by
      simpa using h d List.mem_cons_self
    have hpart : ∀ c ∈ d' :: rest, c.isDigit = true := fun c hc => h c (List.mem_cons_of_mem _ hc)
    refine (valueOf_point hfirst hpart ?_).trans ?_
    · intro c hc
      obtain rfl := Option.some_inj.mp hc
      decide
    · rw [hexponent]
      change Decimal.toRat ⟨ofDigits (d :: d' :: rest), _⟩ = _
      congr 2
      simp only [Option.getD_some, List.length_cons]
      push_cast
      omega

/-- The text of a magnitude has the value of the shortest decimal. -/
theorem valueOf_json (h : x.magnitude ≠ 0) :
    valueOf (json.writeMagnitude x) = x.shortest.toRat := by
  have hdigits : ∀ c ∈ Decimal.digitText x.shortest.digits, c.isDigit = true :=
    fun _ => Decimal.isDigit_of_mem_digitText
  have hvalue : ∀ point : ℤ, point - (Decimal.digitText x.shortest.digits).length =
      x.shortest.exponent → Decimal.toRat ⟨ofDigits (Decimal.digitText x.shortest.digits),
        point - (Decimal.digitText x.shortest.digits).length⟩ = x.shortest.toRat := by
    intro point hpoint
    rw [ofDigits_digitText, hpoint]
  rw [writeMagnitude, if_neg h]
  dsimp only
  split_ifs
  · rw [valueOf_withExponent hdigits Nat.toDigits_ne_nil]
    exact hvalue _ (by ring)
  · rw [valueOf_inFull hdigits]
    exact hvalue _ (by ring)

/-! ### The characters of a text -/

/-- A character of a number. -/
def isNumberChar (c : Char) : Bool := c.isDigit || c == '-' || c == '+' || c == '.' || c == 'e'

theorem isNumberChar_of_isDigit (h : c.isDigit = true) : isNumberChar c = true := by
  simp [isNumberChar, h]

/-- The text of a magnitude begins with a digit, has a point or the mark of an exponent, and
consists of characters of numbers. -/
structure IsMagnitude (text : List Char) : Prop where
  digit : ∃ c rest, text = c :: rest ∧ c.isDigit = true
  marked : ∃ c ∈ text, c = '.' ∨ c = 'e'
  chars : ∀ c ∈ text, isNumberChar c = true

theorem isMagnitude_append {more : List Char} (hne : digits ≠ [])
    (h : ∀ c ∈ digits, c.isDigit = true) (hmark : c = '.' ∨ c = 'e')
    (hmore : ∀ c ∈ more, isNumberChar c = true) : IsMagnitude (digits ++ c :: more) := by
  obtain ⟨d, rest, rfl⟩ := List.exists_cons_of_ne_nil hne
  refine ⟨⟨d, _, rfl, h d List.mem_cons_self⟩, ⟨c, by simp, hmark⟩, fun c' hc' => ?_⟩
  rcases List.mem_append.mp hc' with hc' | hc'
  · exact isNumberChar_of_isDigit (h c' hc')
  · rcases List.mem_cons.mp hc' with rfl | hc'
    · rcases hmark with rfl | rfl <;> rfl
    · exact hmore c' hc'

/-- Digits written in full have the form of a magnitude. -/
theorem isMagnitude_inFull (hne : digits ≠ []) (h : ∀ c ∈ digits, c.isDigit = true)
    (point : ℤ) : IsMagnitude (json.inFull digits point) := by
  have hnumber : ∀ {more : List Char}, (∀ c ∈ more, c.isDigit = true) →
      ∀ c ∈ more, isNumberChar c = true := fun hmore c hc => isNumberChar_of_isDigit (hmore c hc)
  unfold inFull
  dsimp only
  split_ifs with hlarge hmiddle
  · refine isMagnitude_append (c := '.') (by simp [hne])
      (isDigit_of_mem_append h fun _ => isDigit_of_mem_replicate) (Or.inl rfl)
      (hnumber isDigit_of_mem_zero)
  · have htake : digits.take point.toNat ≠ [] := by
      rw [ne_eq, List.take_eq_nil_iff, not_or]
      exact ⟨by omega, hne⟩
    exact isMagnitude_append htake (fun c hc => h c (List.mem_of_mem_take hc)) (Or.inl rfl)
      (hnumber fun c hc => h c (List.mem_of_mem_drop hc))
  · exact isMagnitude_append (List.cons_ne_nil _ _) isDigit_of_mem_zero (Or.inl rfl)
      (hnumber (isDigit_of_mem_append (fun _ => isDigit_of_mem_replicate) h))

/-- Digits with a power of ten have the form of a magnitude. -/
theorem isMagnitude_withExponent (hne : digits ≠ []) (h : ∀ c ∈ digits, c.isDigit = true)
    (point : ℤ) : IsMagnitude (withExponent digits point) := by
  have hpower : ∀ c ∈ (if point - 1 < 0 then '-' else '+') ::
      (List.replicate (2 - (Decimal.digitText (point - 1).natAbs).length) '0' ++
        Decimal.digitText (point - 1).natAbs), isNumberChar c = true := by
    intro c hc
    rcases List.mem_cons.mp hc with rfl | hc
    · split_ifs <;> rfl
    · exact isNumberChar_of_isDigit (isDigit_of_mem_append (fun _ => isDigit_of_mem_replicate)
        (fun _ => Decimal.isDigit_of_mem_digitText) c hc)
  unfold withExponent
  dsimp only
  rw [List.append_assoc, List.cons_append, List.cons_append]
  rcases digits with _ | ⟨d, _ | ⟨d', rest⟩⟩
  · exact absurd rfl hne
  · exact isMagnitude_append (List.cons_ne_nil _ _) h (Or.inr rfl) hpower
  · have hfirst : ∀ c ∈ [d], c.isDigit = true := by simpa using h d List.mem_cons_self
    change IsMagnitude ([d] ++ '.' :: (d' :: rest ++ _))
    refine isMagnitude_append (List.cons_ne_nil d []) hfirst (Or.inl rfl) fun c hc => ?_
    rcases List.mem_append.mp hc with hc | hc
    · exact isNumberChar_of_isDigit (h c (List.mem_cons_of_mem _ hc))
    · rcases List.mem_cons.mp hc with rfl | hc
      · rfl
      · exact hpower c hc

theorem isMagnitude_json (x : Double) : IsMagnitude (json.writeMagnitude x) := by
  have hdigits : ∀ c ∈ Decimal.digitText x.shortest.digits, c.isDigit = true :=
    fun _ => Decimal.isDigit_of_mem_digitText
  unfold writeMagnitude
  dsimp only
  split_ifs
  · exact isMagnitude_append (List.cons_ne_nil '0' []) isDigit_of_mem_zero (Or.inl rfl)
      fun c hc => isNumberChar_of_isDigit (isDigit_of_mem_zero c hc)
  · exact isMagnitude_withExponent Nat.toDigits_ne_nil hdigits _
  · exact isMagnitude_inFull Nat.toDigits_ne_nil hdigits _

/-! ### Numbers with the same text -/

/-- The text of a finite number is its magnitude, behind its sign. -/
theorem toList_write (layout : FloatLayout) (h : x.isFinite = true) : (layout.write x).toList =
    (if x.isNegative then ['-'] else []) ++ layout.writeMagnitude x := by
  have hnan : x.isNaN = false := by
    simp only [Double.isFinite, Double.isNaN, decide_eq_true_eq, decide_eq_false_iff_not] at *
    omega
  rw [write, hnan, h]
  simp

/-- The magnitude of a number is known from its text. -/
theorem magnitude_eq_of_writeMagnitude (h : json.writeMagnitude x = json.writeMagnitude y) :
    x.magnitude = y.magnitude := by
  have hzero : ∀ x : Double, x.magnitude = 0 → valueOf (json.writeMagnitude x) = 0 := by
    intro x hx
    rw [writeMagnitude, if_pos hx]
    have hdigits : ofDigits ['0', '0'] = 0 := rfl
    have hpoint : valueOf (['0'] ++ '.' :: (['0'] ++ [])) = _ :=
      valueOf_point isDigit_of_mem_zero isDigit_of_mem_zero (by simp [EndsDigits])
    refine hpoint.trans ?_
    rw [List.singleton_append, hdigits, Decimal.toRat]
    simp
  have hvalue := congrArg valueOf h
  -- zero is the only number whose text has the value zero
  by_cases hx : x.magnitude = 0 <;> by_cases hy : y.magnitude = 0
  · rw [hx, hy]
  · rw [hzero x hx, valueOf_json hy] at hvalue
    exact absurd hvalue (Double.toRat_shortest_pos hy).ne
  · rw [hzero y hy, valueOf_json hx] at hvalue
    exact absurd hvalue (Double.toRat_shortest_pos hx).ne'
  · rw [valueOf_json hx, valueOf_json hy] at hvalue
    exact Double.magnitude_eq_of_shortest hx hy hvalue

/-- A number is its sign and its magnitude. -/
theorem eq_of_magnitude_eq (h : x.magnitude = y.magnitude)
    (hsign : x.isNegative = y.isNegative) : x = y := by
  obtain ⟨x⟩ := x
  obtain ⟨y⟩ := y
  have hx := x.toNat_lt
  have hy := y.toNat_lt
  have hside := decide_eq_decide.mp hsign
  simp only [Double.magnitude, Double.signWeight] at h hside
  rw [Double.mk.injEq, ← UInt64.toNat_inj]
  omega

/-- Finite numbers with the same text are the same. -/
theorem eq_of_write_json_eq (hx : x.isFinite = true) (hy : y.isFinite = true)
    (h : json.write x = json.write y) : x = y := by
  obtain ⟨c, rest, htext, hdigit⟩ := (isMagnitude_json x).digit
  obtain ⟨c', rest', htext', hdigit'⟩ := (isMagnitude_json y).digit
  have hminus : ('-').isDigit = false := by decide
  rw [← String.toList_inj, toList_write _ hx, toList_write _ hy] at h
  -- no magnitude begins with a sign
  cases hxsign : x.isNegative <;> cases hysign : y.isNegative <;>
    simp only [hxsign, hysign, if_true, if_false, List.nil_append, List.singleton_append,
      Bool.false_eq_true] at h
  · exact eq_of_magnitude_eq (magnitude_eq_of_writeMagnitude h) (hxsign.trans hysign.symm)
  · rw [htext] at h
    rw [(List.cons.inj h).1, hminus] at hdigit
    simp at hdigit
  · rw [htext'] at h
    rw [← (List.cons.inj h).1, hminus] at hdigit'
    simp at hdigit'
  · exact eq_of_magnitude_eq (magnitude_eq_of_writeMagnitude (List.cons.inj h).2)
      (hxsign.trans hysign.symm)

end FloatLayout

end Filewise
