import Filewise.Proofs.Number.Rounding
import Mathlib.Data.Nat.Log

/-!
# Rounding to the nearest number

A fraction is scaled by a power of two, so that its integral part has as many bits as a significand,
and rounded to a natural number. So it lies in the rounding interval of the number that comes out,
and since it lies in one interval only, every decimal in the interval of a number is read as that
number.

## Main results

* `Double.roundsTo_roundQuotient`: the nearest natural number to a quotient.
* `Double.ofFraction_of_holdsAt`: the number that a fraction is rounded to.
* `Double.ofDecimal_of_holdsAt`: the number that a decimal is read as.
-/

namespace Filewise.Double

variable {num den m n k : ℕ} {s q : ℚ}

/-! ### Nearest natural numbers -/

/-- A quotient lies at most a half away from what it is rounded to, and less than that if this is
odd. -/
def RoundsTo (s : ℚ) (m : ℕ) : Prop :=
  if m % 2 = 0 then 2 * m - 1 ≤ 2 * s ∧ 2 * s ≤ 2 * m + 1 else 2 * m - 1 < 2 * s ∧ 2 * s < 2 * m + 1

theorem RoundsTo.bounds (h : RoundsTo s m) : 2 * m - 1 ≤ 2 * s ∧ 2 * s ≤ 2 * m + 1 := by
  unfold RoundsTo at h
  split_ifs at h
  · exact h
  · exact ⟨h.1.le, h.2.le⟩

theorem roundsTo_of_lt (hlow : 2 * m - 1 < 2 * s) (hhigh : 2 * s < 2 * m + 1) : RoundsTo s m := by
  unfold RoundsTo
  split_ifs
  · exact ⟨hlow.le, hhigh.le⟩
  · exact ⟨hlow, hhigh⟩

theorem roundsTo_of_even (hm : m % 2 = 0) (hlow : 2 * m - 1 ≤ 2 * s) (hhigh : 2 * s ≤ 2 * m + 1) :
    RoundsTo s m := by
  rw [RoundsTo, if_pos hm]
  exact ⟨hlow, hhigh⟩

theorem roundsTo_roundQuotient (hden : 0 < den) :
    RoundsTo (num / den) (roundQuotient num den) := by
  have hden' : (0 : ℚ) < den := by exact_mod_cast hden
  have hs : (num / den : ℚ) = (num / den : ℕ) + (num % den : ℕ) / den := by
    rw [eq_comm, ← mul_right_inj' hden'.ne', mul_add, mul_div_cancel₀ _ hden'.ne',
      mul_div_cancel₀ _ hden'.ne']
    exact_mod_cast Nat.div_add_mod num den
  have hpos : (0 : ℚ) ≤ (num % den : ℕ) / den := by positivity
  have hone : ((num % den : ℕ) / den : ℚ) < 1 := by
    rw [div_lt_one hden']
    exact_mod_cast Nat.mod_lt num hden
  have hless : 2 * (num % den) < den ↔ 2 * ((num % den : ℕ) / den) < (1 : ℚ) := by
    rw [← mul_div_assoc, div_lt_one hden']
    exact_mod_cast Iff.rfl
  have htie : 2 * (num % den) = den ↔ 2 * ((num % den : ℕ) / den) = (1 : ℚ) := by
    rw [← mul_div_assoc, div_eq_one_iff_eq hden'.ne']
    exact_mod_cast Iff.rfl
  simp only [roundQuotient, hless, htie, hs]
  generalize ((num % den : ℕ) / den : ℚ) = part at *
  generalize num / den = whole
  split_ifs with hlt heq
  · exact roundsTo_of_lt (by linarith) (by linarith)
  · -- a tie goes to the even one of the two neighbours
    rcases Nat.mod_two_eq_zero_or_one whole with heven | hodd
    · exact roundsTo_of_even (by omega) (by rw [heven]; push_cast; linarith)
        (by rw [heven]; push_cast; linarith)
    · exact roundsTo_of_even (by omega) (by rw [hodd]; push_cast; linarith)
        (by rw [hodd]; push_cast; linarith)
  · have hgt : 1 < 2 * part := lt_of_le_of_ne (not_lt.mp hlt) (Ne.symm heq)
    exact roundsTo_of_lt (by push_cast; linarith) (by push_cast; linarith)

/-! ### Significands -/

/-- A quotient between two integers is not rounded beyond them. -/
theorem RoundsTo.le_of_le (h : RoundsTo s m) (hn : (n : ℚ) ≤ s) : n ≤ m := by
  have hlt : (n : ℚ) < m + 1 := by linarith [h.bounds.2]
  exact Nat.lt_succ_iff.mp (by exact_mod_cast hlt)

theorem RoundsTo.le_of_ge (h : RoundsTo s m) (hn : s ≤ (n : ℚ)) : m ≤ n := by
  have hlt : (m : ℚ) < n + 1 := by linarith [h.bounds.1]
  exact Nat.lt_succ_iff.mp (by exact_mod_cast hlt)

/-- The interval of a magnitude, seen from the exponent of its bounds. -/
theorem holdsAt_iff {low high : ℕ} (hlow : lowBound n = low * 2 ^ k)
    (hhigh : highBound n = high * 2 ^ k) : HoldsAt n (4 * s * 2 ^ k * quarter) ↔
      if n % 2 = 0 then low ≤ 4 * s ∧ 4 * s ≤ high else low < 4 * s ∧ 4 * s < high := by
  have hscale : (0 : ℚ) < 2 ^ k * quarter := mul_pos (by positivity) quarter_pos
  have hscaled : ∀ a : ℕ, ((a * 2 ^ k : ℕ) : ℚ) * quarter = a * (2 ^ k * quarter) := by
    intro a
    push_cast
    ring
  have hs : 4 * s * 2 ^ k * quarter = 4 * s * (2 ^ k * quarter) := by ring
  rw [HoldsAt, hlow, hhigh, hscaled, hscaled, hs]
  simp only [mul_le_mul_iff_left₀ hscale, mul_lt_mul_iff_left₀ hscale]

/-- The magnitude of a significand at an exponent. A significand that is too long carries over. -/
def magnitudeAt (k m : ℕ) : ℕ := if m < leadingWeight then m else k * leadingWeight + m

/-- Bounds hold a number that is rounded to a significand if they are not nearer than a half to it,
and those of an even significand also if they hold the number otherwise. -/
theorem RoundsTo.holdsAt {low high : ℕ} (h : RoundsTo s m) (hlowBound : lowBound n = low * 2 ^ k)
    (hhighBound : highBound n = high * 2 ^ k) (hparity : n % 2 = m % 2)
    (hlow : low + 2 ≤ 4 * m ∨ m % 2 = 0 ∧ (low : ℚ) ≤ 4 * s)
    (hhigh : 4 * m + 2 ≤ high ∨ m % 2 = 0 ∧ 4 * s ≤ high) :
    HoldsAt n (4 * s * 2 ^ k * quarter) := by
  have hlow' : ∀ hfar : low + 2 ≤ 4 * m, (low : ℚ) ≤ 4 * m - 2 := fun hfar =>
    le_sub_iff_add_le.mpr (by exact_mod_cast hfar)
  have hhigh' : ∀ hfar : 4 * m + 2 ≤ high, (4 * m + 2 : ℚ) ≤ high := fun hfar => by
    exact_mod_cast hfar
  rw [holdsAt_iff hlowBound hhighBound, hparity]
  unfold RoundsTo at h
  split_ifs at h ⊢ with heven
  · exact ⟨hlow.elim (fun hfar => by linarith [hlow' hfar]) And.right,
      hhigh.elim (fun hfar => by linarith [hhigh' hfar]) And.right⟩
  · have hfarLow := hlow' (hlow.resolve_right fun hlow => heven hlow.1)
    have hfarHigh := hhigh' (hhigh.resolve_right fun hhigh => heven hhigh.1)
    exact ⟨by linarith, by linarith⟩

/-- A number that is rounded to fewer bits than a significand has lies in the interval of the
magnitude that these bits are. -/
theorem RoundsTo.holdsAt_subnormal (h : RoundsTo s m) (hpos : 0 < s) (hshort : m < leadingWeight) :
    HoldsAt m (4 * s * 2 ^ 0 * quarter) := by
  obtain ⟨hupper, hlower⟩ := @bounds_of_parts 0 m hshort
  simp only [Nat.mul_zero, Nat.zero_add, ↓reduceIte, Nat.zero_sub] at hupper hlower
  rw [if_neg (by omega)] at hlower
  refine h.holdsAt hlower hupper rfl ?_ (.inl le_rfl)
  -- zero has no lower neighbour, and its interval begins with it
  rcases Nat.eq_zero_or_pos m with rfl | hm
  · exact .inr ⟨rfl, by simpa using hpos.le⟩
  · exact .inl (by omega)

/-- A number that is rounded to a significand lies in the interval of the magnitude with it. -/
theorem RoundsTo.holdsAt_normal {part : ℕ} (h : RoundsTo s (leadingWeight + part))
    (hpart : part < leadingWeight) (hlow : k = 0 ∨ (leadingWeight : ℚ) ≤ s) :
    HoldsAt (k * leadingWeight + (leadingWeight + part)) (4 * s * 2 ^ k * quarter) := by
  have heven : leadingWeight % 2 = 0 := by decide
  obtain ⟨hupper, hlower⟩ := @bounds_of_parts (k + 1) part hpart
  have hn : k * leadingWeight + (leadingWeight + part) = leadingWeight * (k + 1) + part := by
    ring
  rw [hn]
  simp only [Nat.add_eq_zero_iff, one_ne_zero, and_false, ↓reduceIte,
    Nat.add_sub_cancel] at hupper hlower
  refine h.holdsAt hlower hupper (by simp [Nat.add_mod, Nat.mul_mod, heven]) ?_ (.inl (by omega))
  split_ifs with hpower
  · -- the lower neighbour of a power of two is nearer, but the number is not below the power
    have hlow := hlow.resolve_left (by omega)
    refine .inr ⟨by omega, ?_⟩
    calc ((4 * (part + leadingWeight) - 1 : ℕ) : ℚ) ≤ (4 * leadingWeight : ℕ) := by
          rw [hpower.1, Nat.zero_add]
          exact_mod_cast Nat.sub_le _ _
      _ ≤ 4 * s := by
          push_cast
          linarith
  · exact .inl (by omega)

/-- A number that is rounded up to one bit more than a significand has lies in the interval of the
first magnitude with the next exponent. -/
theorem RoundsTo.holdsAt_carry (h : RoundsTo s (leadingWeight + leadingWeight))
    (hhigh : s < 2 * leadingWeight) :
    HoldsAt (k * leadingWeight + (leadingWeight + leadingWeight)) (4 * s * 2 ^ k * quarter) := by
  have heven : leadingWeight % 2 = 0 := by decide
  obtain ⟨hupper, hlower⟩ := @bounds_of_parts (k + 2) 0 (by decide)
  have hn : k * leadingWeight + (leadingWeight + leadingWeight) =
      leadingWeight * (k + 2) + 0 := by ring
  have hscale : ∀ a : ℕ, a * 2 ^ (k + 1) = a * 2 * 2 ^ k := fun a => by ring
  rw [hn]
  simp only [Nat.add_eq_zero_iff, OfNat.ofNat_ne_zero, and_false, ↓reduceIte, Nat.zero_add,
    show k + 2 - 1 = k + 1 from rfl, hscale] at hupper hlower
  rw [if_pos ⟨trivial, by omega⟩] at hlower
  have hweight : 0 < leadingWeight := by decide
  refine h.holdsAt hlower hupper (by simp [Nat.add_mod, Nat.mul_mod, heven]) (.inl (by omega))
    (.inr ⟨by omega, ?_⟩)
  push_cast
  linarith

/-- A number that is rounded to a significand lies in the interval of its magnitude. -/
theorem holdsAt_magnitudeAt (h : RoundsTo s m) (hpos : 0 < s) (hhigh : s < 2 * leadingWeight)
    (hlow : k = 0 ∨ (leadingWeight : ℚ) ≤ s) :
    HoldsAt (magnitudeAt k m) (4 * s * 2 ^ k * quarter) := by
  have hmax : m ≤ 2 * leadingWeight := h.le_of_ge (by exact_mod_cast hhigh.le)
  unfold magnitudeAt
  split_ifs with hshort
  · -- too few bits are left at the least exponent only
    obtain rfl : k = 0 := hlow.resolve_right fun hlow => absurd (h.le_of_le hlow) (by omega)
    exact h.holdsAt_subnormal hpos hshort
  · obtain ⟨part, rfl⟩ := Nat.exists_eq_add_of_le (not_lt.mp hshort)
    rcases Nat.lt_or_ge part leadingWeight with hpart | hpart
    · exact h.holdsAt_normal hpart hlow
    · obtain rfl : part = leadingWeight := by omega
      exact h.holdsAt_carry hhigh

/-! ### Fractions -/

/-- A fraction scaled by a power of two. -/
theorem scaled_eq (num den : ℕ) (e : ℤ) : ((num * Nat.pow 2 (-e).toNat : ℕ) : ℚ) /
    (den * Nat.pow 2 e.toNat : ℕ) = num / den * 2 ^ (-e) := by
  rw [zpow_eq_div, neg_neg, div_mul_div_comm]
  simp only [Nat.pow_eq, Nat.cast_mul, Nat.cast_pow, Nat.cast_ofNat]

/-- The power of two that the logarithms of a fraction give is right, or it is one too large. -/
theorem scaled_bounds (hnum : num ≠ 0) (hden : den ≠ 0) :
    (2 : ℚ) ^ 51 < num / den * 2 ^ (-((num.log2 : ℤ) - den.log2 - 52)) ∧
      (num / den * 2 ^ (-((num.log2 : ℤ) - den.log2 - 52)) : ℚ) < 2 ^ 53 := by
  have hnumLow : (1 : ℚ) ≤ num / 2 ^ num.log2 := by
    rw [one_le_div (by positivity)]
    exact_mod_cast Nat.log2_self_le hnum
  have hnumHigh : (num / 2 ^ num.log2 : ℚ) < 2 := by
    rw [div_lt_iff₀ (by positivity), ← pow_succ']
    exact_mod_cast Nat.lt_log2_self
  have hdenLow : (1 : ℚ) ≤ den / 2 ^ den.log2 := by
    rw [one_le_div (by positivity)]
    exact_mod_cast Nat.log2_self_le hden
  have hdenHigh : (den / 2 ^ den.log2 : ℚ) < 2 := by
    rw [div_lt_iff₀ (by positivity), ← pow_succ']
    exact_mod_cast Nat.lt_log2_self
  have hdenPos : (0 : ℚ) < den := by exact_mod_cast Nat.pos_of_ne_zero hden
  have hscaled : (num / den * 2 ^ (-((num.log2 : ℤ) - den.log2 - 52)) : ℚ) =
      2 ^ 52 * ((num / 2 ^ num.log2) / (den / 2 ^ den.log2)) := by
    have hexponent : -((num.log2 : ℤ) - den.log2 - 52) = 52 + den.log2 - num.log2 := by ring
    rw [hexponent, zpow_sub₀ (by norm_num), zpow_add₀ (by norm_num), zpow_natCast, zpow_natCast]
    field_simp
  have hpos : (0 : ℚ) < den / 2 ^ den.log2 := by linarith
  have hlow : (1 / 2 : ℚ) < (num / 2 ^ num.log2) / (den / 2 ^ den.log2) := by
    rw [lt_div_iff₀ hpos]
    linarith
  have hhigh : ((num / 2 ^ num.log2) / (den / 2 ^ den.log2) : ℚ) < 2 := by
    rw [div_lt_iff₀ hpos]
    linarith
  rw [hscaled]
  constructor <;> linarith

/-- A fraction is scaled so that it has as many bits before the point as a significand. -/
theorem exponent_spec (hnum : num ≠ 0) (hden : den ≠ 0) :
    let scaled (e : ℤ) : ℕ := num * Nat.pow 2 (-e).toNat / (den * Nat.pow 2 e.toNat)
    let guess : ℤ := (num.log2 : ℤ) - den.log2 - 52
    let e := if scaled guess < leadingWeight then guess - 1 else guess
    (leadingWeight : ℚ) ≤ num / den * 2 ^ (-e) ∧
      (num / den * 2 ^ (-e) : ℚ) < 2 * leadingWeight := by
  intro scaled guess e
  have hweight : (leadingWeight : ℚ) = 2 ^ 52 := by norm_num [leadingWeight]
  have hdenPos : 0 < den * Nat.pow 2 guess.toNat :=
    Nat.mul_pos (Nat.pos_of_ne_zero hden) (Nat.two_pow_pos _)
  have hscaled : scaled guess < leadingWeight ↔
      (num / den * 2 ^ (-guess) : ℚ) < leadingWeight := by
    rw [← scaled_eq, div_lt_iff₀ (by exact_mod_cast hdenPos), Nat.div_lt_iff_lt_mul hdenPos]
    exact_mod_cast Iff.rfl
  obtain ⟨hlow, hhigh⟩ := scaled_bounds hnum hden
  by_cases hsmall : scaled guess < leadingWeight
  · have he : -e = -guess + 1 := by
      simp only [e, if_pos hsmall]
      ring
    have hsmall' := hscaled.mp hsmall
    rw [he, zpow_add_one₀ (by norm_num), ← mul_assoc]
    constructor <;> linarith
  · have he : e = guess := if_neg hsmall
    have hlarge := not_lt.mp (mt hscaled.mpr hsmall)
    rw [he]
    exact ⟨hlarge, by linarith⟩

/-- A number in quarters of the least distance, from what is left of it at an exponent. -/
theorem eq_scaled_quarter (q : ℚ) (k : ℕ) :
    q = 4 * (q * 2 ^ (-((k : ℤ) - 1074))) * 2 ^ k * quarter := by
  have hexponent : ((k : ℤ) - 1074) = 2 + k + -1076 := by ring
  have hscale : (2 : ℚ) ^ ((k : ℤ) - 1074) = 4 * 2 ^ k * quarter := by
    rw [hexponent, zpow_add₀ (by norm_num), zpow_add₀ (by norm_num), zpow_natCast, quarter]
    norm_num
  calc q = q * ((2 ^ ((k : ℤ) - 1074))⁻¹ * 2 ^ ((k : ℤ) - 1074)) := by
        rw [inv_mul_cancel₀ (by positivity), mul_one]
    _ = q * 2 ^ (-((k : ℤ) - 1074)) * (4 * 2 ^ k * quarter) := by
        rw [zpow_neg, ← mul_assoc, ← hscale]
    _ = 4 * (q * 2 ^ (-((k : ℤ) - 1074))) * 2 ^ k * quarter := by ring

/-- A fraction is rounded to the number in whose interval it lies. -/
theorem exists_ofFraction_eq (negative : Bool) (hnum : num ≠ 0) (hden : den ≠ 0) :
    ∃ n, HoldsAt n (num / den) ∧ ofFraction negative num den =
      if infiniteMagnitude ≤ n then infinity negative else ofMagnitude negative n := by
  obtain ⟨hlow, hhigh⟩ := exponent_spec hnum hden
  unfold ofFraction
  rw [if_neg hnum]
  dsimp only at hlow hhigh ⊢
  generalize (if num * Nat.pow 2 (-((num.log2 : ℤ) - den.log2 - 52)).toNat /
    (den * Nat.pow 2 ((num.log2 : ℤ) - den.log2 - 52).toNat) < leadingWeight then
      (num.log2 : ℤ) - den.log2 - 52 - 1 else (num.log2 : ℤ) - den.log2 - 52) = e at *
  -- the exponent that is used is the least one, or the one that leaves all bits
  obtain ⟨k, hk⟩ : ∃ k : ℕ, max e (-1074) = (k : ℤ) - 1074 :=
    ⟨(max e (-1074) + 1074).toNat, by omega⟩
  rw [hk]
  have hpos : 0 < den * Nat.pow 2 ((k : ℤ) - 1074).toNat :=
    Nat.mul_pos (Nat.pos_of_ne_zero hden) (Nat.two_pow_pos _)
  have hround := @roundsTo_roundQuotient (num * Nat.pow 2 (-((k : ℤ) - 1074)).toNat) _ hpos
  rw [scaled_eq] at hround
  generalize roundQuotient _ _ = m at *
  have hhigh' : (num / den * 2 ^ (-((k : ℤ) - 1074)) : ℚ) < 2 * leadingWeight := by
    refine lt_of_le_of_lt (mul_le_mul_of_nonneg_left ?_ (by positivity)) hhigh
    exact zpow_le_zpow_right₀ (by norm_num) (by omega)
  have hlow' : k = 0 ∨ (leadingWeight : ℚ) ≤ num / den * 2 ^ (-((k : ℤ) - 1074)) := by
    rcases le_total e (-1074) with he | he
    · exact .inl (by omega)
    · have hke : (k : ℤ) - 1074 = e := by omega
      rw [hke]
      exact .inr hlow
  have hmagnitude : (if m < leadingWeight then (m : ℤ)
      else ((k : ℤ) - 1074 + 1074) * leadingWeight + m) = (magnitudeAt k m : ℕ) := by
    rw [magnitudeAt]
    split_ifs
    · rfl
    · push_cast
      ring
  refine ⟨magnitudeAt k m, ?_, ?_⟩
  · rw [eq_scaled_quarter (num / den) k]
    exact holdsAt_magnitudeAt hround (by positivity) hhigh' hlow'
  · rw [hmagnitude, Int.toNat_natCast]
    simp only [Nat.cast_le]

/-- A fraction in the interval of a magnitude is rounded to the number with this magnitude. -/
theorem ofFraction_of_holdsAt {negative : Bool} (hnum : num ≠ 0) (hden : den ≠ 0)
    (hn : n < infiniteMagnitude) (h : HoldsAt n (num / den)) :
    ofFraction negative num den = ofMagnitude negative n := by
  obtain ⟨n', hn', heq⟩ := exists_ofFraction_eq negative hnum hden
  obtain rfl := eq_of_holdsAt h hn'
  rw [heq, if_neg (not_le.mpr hn)]

/-! ### Decimals -/

/-- What finite numbers are rounded from lies below a power of two. -/
theorem HoldsAt.lt (h : HoldsAt n q) (hn : n < infiniteMagnitude) : q < 2 ^ 1024 := by
  have hbound : highBound n < 2 ^ 2100 :=
    (highBound_le_lowBound hn).1.trans_lt (by decide +kernel)
  calc q ≤ highBound n * quarter := h.bounds.2
    _ < 2 ^ 2100 * quarter := mul_lt_mul_of_pos_right (by exact_mod_cast hbound) quarter_pos
    _ = 2 ^ 1024 := by
      rw [quarter, ← zpow_natCast, ← zpow_natCast, ← zpow_add₀ (by norm_num)]
      norm_num

/-- What numbers other than zero are rounded from is not too small. -/
theorem HoldsAt.quarter_le (h : HoldsAt n q) (hn : n ≠ 0) : quarter ≤ q := by
  have hlow : (1 : ℚ) ≤ lowBound n := by exact_mod_cast lowBound_pos hn
  calc quarter = 1 * quarter := (one_mul _).symm
    _ ≤ lowBound n * quarter := mul_le_mul_of_nonneg_right hlow quarter_pos.le
    _ ≤ q := h.bounds.1

/-- A decimal below what finite numbers are rounded from has no exponent that is too great. -/
theorem exponent_le_of_lt {digits : ℕ} {exponent : ℤ} (hdigits : digits ≠ 0)
    (h : Decimal.toRat ⟨digits, exponent⟩ < 2 ^ 1024) : exponent ≤ 400 := by
  by_contra hlarge
  have hdigits' : (1 : ℚ) ≤ digits := by exact_mod_cast Nat.pos_of_ne_zero hdigits
  have hpower : (10 : ℚ) ^ ((401 : ℕ) : ℤ) ≤ 10 ^ exponent :=
    zpow_le_zpow_right₀ (by norm_num) (by omega)
  rw [zpow_natCast] at hpower
  have hlt : (2 : ℚ) ^ 1024 < 10 ^ 401 := by
    exact_mod_cast (by decide +kernel : (2 ^ 1024 : ℕ) < 10 ^ 401)
  have hge : (10 : ℚ) ^ 401 ≤ Decimal.toRat ⟨digits, exponent⟩ :=
    hpower.trans (le_mul_of_one_le_left (by positivity) hdigits')
  exact absurd (hlt.trans_le hge) (not_lt.mpr h.le)

/-- A decimal that is not too small to be rounded up has no exponent that is too small, as its
digits count at most as many places as they have bits. -/
theorem le_exponent_add_log2 {digits : ℕ} {exponent : ℤ}
    (h : quarter ≤ Decimal.toRat ⟨digits, exponent⟩) : -400 - 1075 ≤ exponent + digits.log2 := by
  by_contra hsmall
  obtain ⟨j, rfl⟩ : ∃ j : ℕ, exponent = -j := ⟨exponent.natAbs, by omega⟩
  have hpower : (10 : ℚ) ^ (-j : ℤ) ≤ 2 ^ (-j : ℤ) := by
    rw [zpow_neg, zpow_neg, zpow_natCast, zpow_natCast]
    exact inv_anti₀ (by positivity) (pow_le_pow_left₀ (by norm_num) (by norm_num) j)
  have hcount : (digits : ℚ) < 2 ^ ((digits.log2 : ℤ) + 1) := by
    exact_mod_cast (Nat.lt_log2_self : digits < 2 ^ (digits.log2 + 1))
  have hlt : Decimal.toRat ⟨digits, -j⟩ < quarter := calc
    (digits * 10 ^ (-j : ℤ) : ℚ) ≤ digits * 2 ^ (-j : ℤ) :=
      mul_le_mul_of_nonneg_left hpower (by positivity)
    _ < 2 ^ ((digits.log2 : ℤ) + 1) * 2 ^ (-j : ℤ) :=
      mul_lt_mul_of_pos_right hcount (by positivity)
    _ = 2 ^ ((digits.log2 : ℤ) + 1 + -j) := (zpow_add₀ (by norm_num) _ _).symm
    _ ≤ quarter := zpow_le_zpow_right₀ (by norm_num) (by omega)
  linarith

/-- A decimal in the interval of a magnitude is read as the number with this magnitude. -/
theorem ofDecimal_of_holdsAt {negative : Bool} {digits : ℕ} {exponent : ℤ} (hzero : n ≠ 0)
    (hn : n < infiniteMagnitude) (h : HoldsAt n (Decimal.toRat ⟨digits, exponent⟩)) :
    ofDecimal negative digits exponent = ofMagnitude negative n := by
  have hlow := h.quarter_le hzero
  have hdigits : digits ≠ 0 := by
    rintro rfl
    have := quarter_pos
    simp only [Decimal.toRat, Nat.cast_zero, zero_mul] at hlow
    linarith
  -- the decimal is not among those that are answered without their power
  have hlarge := exponent_le_of_lt hdigits (h.lt hn)
  have hsmall := le_exponent_add_log2 hlow
  have hq : Decimal.toRat ⟨digits, exponent⟩ =
      (digits * Nat.pow 10 exponent.toNat : ℕ) / (Nat.pow 10 (-exponent).toNat : ℕ) := by
    rw [Decimal.toRat, zpow_eq_div]
    simp only [Nat.pow_eq, Nat.cast_mul, Nat.cast_pow, Nat.cast_ofNat, mul_div_assoc]
  rw [hq] at h
  rw [ofDecimal, if_neg hdigits, if_neg (not_lt.mpr hlarge), if_neg (not_lt.mpr hsmall)]
  exact ofFraction_of_holdsAt (mul_ne_zero hdigits (pow_ne_zero _ (by decide)))
    (pow_ne_zero _ (by decide)) hn h

example : ofDecimal false 1 (-1) = ⟨0x3FB999999999999A⟩ := by decide +kernel

end Filewise.Double
