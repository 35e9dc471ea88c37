import Filewise.Number.Shortest
import Mathlib.Algebra.Order.Field.Power
import Mathlib.Algebra.Order.Field.Rat
import Mathlib.Data.Rat.Cast.Order
import Mathlib.Tactic.FieldSimp
import Mathlib.Tactic.Linarith
import Mathlib.Tactic.NormNum
import Mathlib.Tactic.Positivity
import Mathlib.Tactic.Ring

/-!
# Rounding intervals

The reals that read back as a floating-point number form an interval. In a unit in which the
distance between any two neighbours is a multiple of four, all bounds of these intervals are
natural numbers. Where one interval ends the next one begins, and the common bound belongs to
that of the two numbers whose pattern is even. No real reads back as two different numbers.

## Main definitions

* `Decimal.toRat`: the value of a decimal.
* `RoundingInterval.Holds`: the interval as a set of numbers.
* `Double.lowBound`, `Double.highBound`: the bounds of intervals as natural numbers.
* `Double.HoldsAt`: the interval of a magnitude.

## Main results

* `RoundingInterval.contains_iff`: the test for decimals decides whether the interval holds them.
* `Double.highBound_eq`: where an interval ends the next one begins.
* `Double.eq_of_holdsAt`: a number lies in one interval only.
-/

namespace Filewise

/-- An integral power as a fraction of natural ones. -/
theorem zpow_eq_div (b : ℚ) (e : ℤ) : b ^ e = b ^ e.toNat / b ^ (-e).toNat := by
  obtain ⟨n, rfl | rfl⟩ := e.eq_nat_or_neg
  · simp
  · simp [zpow_neg]

/-- The value of a decimal. -/
def Decimal.toRat (d : Decimal) : ℚ := d.digits * 10 ^ d.exponent

namespace RoundingInterval

variable {r : RoundingInterval} {q : ℚ}

/-- The interval as a set of numbers. -/
def Holds (r : RoundingInterval) (q : ℚ) : Prop :=
  if r.closed then (r.low / r.den : ℚ) ≤ q ∧ q ≤ (r.high / r.den : ℚ)
  else (r.low / r.den : ℚ) < q ∧ q < (r.high / r.den : ℚ)

/-- Bounds hold more than what lies strictly between them. -/
theorem Holds.bounds (h : r.Holds q) : (r.low / r.den : ℚ) ≤ q ∧ q ≤ (r.high / r.den : ℚ) := by
  unfold Holds at h
  split_ifs at h
  · exact h
  · exact ⟨h.1.le, h.2.le⟩

/-- What lies strictly between the bounds is in the interval. -/
theorem holds_of_lt (hlow : (r.low / r.den : ℚ) < q) (hhigh : q < (r.high / r.den : ℚ)) :
    r.Holds q := by
  unfold Holds
  split_ifs
  · exact ⟨hlow.le, hhigh.le⟩
  · exact ⟨hlow, hhigh⟩

/-- The interval holds a decimal if the test says so. -/
theorem contains_iff (hden : 0 < r.den) {d : Decimal} :
    r.contains d = true ↔ r.Holds d.toRat := by
  have hpoint : d.toRat = d.digits * 10 ^ d.exponent.toNat / 10 ^ (-d.exponent).toNat := by
    rw [Decimal.toRat, zpow_eq_div, mul_div_assoc]
  have hden' : (0 : ℚ) < r.den := by exact_mod_cast hden
  have hscale : (0 : ℚ) < 10 ^ (-d.exponent).toNat := by positivity
  have hlow : ∀ n : ℕ, (n / r.den : ℚ) ≤ d.toRat ↔ n * 10 ^ (-d.exponent).toNat ≤
      d.digits * 10 ^ d.exponent.toNat * r.den := by
    intro n
    rw [hpoint, div_le_div_iff₀ hden' hscale]
    exact_mod_cast Iff.rfl
  have hhigh : ∀ n : ℕ, d.toRat ≤ (n / r.den : ℚ) ↔
      d.digits * 10 ^ d.exponent.toNat * r.den ≤ n * 10 ^ (-d.exponent).toNat := by
    intro n
    rw [hpoint, div_le_div_iff₀ hscale hden']
    exact_mod_cast Iff.rfl
  unfold contains Holds
  split_ifs
  · rw [Bool.and_eq_true, decide_eq_true_eq, decide_eq_true_eq, hlow, hhigh]
    exact Iff.rfl
  · rw [Bool.and_eq_true, decide_eq_true_eq, decide_eq_true_eq, ← not_le, ← not_le, ← not_le,
      ← not_le, hlow, hhigh]
    exact Iff.rfl

end RoundingInterval

namespace Double

variable {x y : Double} {m n : ℕ} {q : ℚ}

/-! ### Bounds as natural numbers -/

/-- The significand of the number with a magnitude. -/
def significand (m : ℕ) : ℕ :=
  if m / leadingWeight = 0 then m % leadingWeight else m % leadingWeight + leadingWeight

/-- The distance to the next greater number, in units of the least distance. -/
def spacing (m : ℕ) : ℕ := 2 ^ (m / leadingWeight - 1)

/-- Twice the distance to the next smaller number, in units of the distance to the next greater
one: below a power of two the neighbours are twice as close. -/
def closeness (m : ℕ) : ℕ := if m % leadingWeight = 0 ∧ 1 < m / leadingWeight then 1 else 2

/-- Where the rounding interval of a number begins, in quarters of the least distance. -/
def lowBound (m : ℕ) : ℕ := (4 * significand m - closeness m) * spacing m

/-- Where the rounding interval of a number ends, in quarters of the least distance. -/
def highBound (m : ℕ) : ℕ := (4 * significand m + 2) * spacing m

theorem spacing_pos (m : ℕ) : 0 < spacing m := Nat.two_pow_pos _

/-- A significand is odd or even as the magnitude is. -/
theorem significand_mod_two (m : ℕ) : significand m % 2 = m % 2 := by
  unfold significand leadingWeight
  split_ifs <;> omega

theorem significand_lt (m : ℕ) : significand m < 2 * leadingWeight := by
  have hlt := Nat.mod_lt m (show 0 < leadingWeight by decide)
  unfold significand
  split_ifs <;> omega

theorem significand_pos (h : m ≠ 0) : 0 < significand m := by
  have hsplit := Nat.div_add_mod m leadingWeight
  unfold significand leadingWeight at *
  split_ifs <;> omega

/-- The significand of a power of two. -/
theorem significand_of_closeness (h : closeness m = 1) : significand m = leadingWeight := by
  by_cases hpower : m % leadingWeight = 0 ∧ 1 < m / leadingWeight
  · rw [significand, if_neg (by omega), hpower.1, Nat.zero_add]
  · rw [closeness, if_neg hpower] at h
    simp at h

theorem closeness_le (m : ℕ) : 1 ≤ closeness m ∧ closeness m ≤ 2 := by
  unfold closeness
  split_ifs <;> decide

/-- The bounds of the number with an exponent and a fraction. -/
theorem bounds_of_parts {exponent fraction : ℕ} (h : fraction < leadingWeight) :
    highBound (leadingWeight * exponent + fraction) =
      (4 * (if exponent = 0 then fraction else fraction + leadingWeight) + 2) *
        2 ^ (exponent - 1) ∧
    lowBound (leadingWeight * exponent + fraction) =
      (4 * (if exponent = 0 then fraction else fraction + leadingWeight) -
        (if fraction = 0 ∧ 1 < exponent then 1 else 2)) * 2 ^ (exponent - 1) := by
  have hdiv : (leadingWeight * exponent + fraction) / leadingWeight = exponent := by
    rw [Nat.mul_add_div (by decide), Nat.div_eq_of_lt h, Nat.add_zero]
  have hmod : (leadingWeight * exponent + fraction) % leadingWeight = fraction :=
    Nat.mul_comm leadingWeight exponent ▸ Nat.mul_add_mod_of_lt h
  unfold highBound lowBound significand spacing closeness
  rw [hdiv, hmod]
  exact ⟨rfl, rfl⟩

/-- Where an interval ends the next one begins. -/
theorem highBound_eq (m : ℕ) : highBound m = lowBound (m + 1) := by
  have hlt := Nat.mod_lt m (show 0 < leadingWeight by decide)
  rw [← Nat.div_add_mod m leadingWeight, (bounds_of_parts hlt).1]
  generalize m / leadingWeight = exponent
  generalize m % leadingWeight = fraction at hlt
  by_cases hlast : fraction + 1 = leadingWeight
  · -- the next number is the first one with the next greater exponent
    have hnext : leadingWeight * exponent + fraction + 1 = leadingWeight * (exponent + 1) + 0 := by
      rw [Nat.add_assoc, hlast, Nat.mul_add_one, Nat.add_zero]
    have hfraction : fraction = leadingWeight - 1 := by omega
    rw [hnext, (bounds_of_parts (show 0 < leadingWeight by decide)).2, hfraction]
    cases exponent with
    | zero => decide
    | succ k =>
      have hfour : 4 * (leadingWeight - 1 + leadingWeight) + 2 = (4 * leadingWeight - 1) * 2 := by
        decide
      simp only [Nat.succ_ne_zero, if_false, Nat.zero_add, Nat.add_sub_cancel, true_and]
      rw [if_pos (by omega), hfour, Nat.mul_assoc, ← pow_succ']
  · have hsame : ¬(fraction + 1 = 0 ∧ 1 < exponent) := fun h => Nat.succ_ne_zero _ h.1
    rw [Nat.add_assoc, (bounds_of_parts (show fraction + 1 < leadingWeight by omega)).2,
      if_neg hsame]
    congr 1
    split_ifs <;> omega

theorem lowBound_lt_highBound (m : ℕ) : lowBound m < highBound m :=
  Nat.mul_lt_mul_of_pos_right (by omega) (spacing_pos m)

theorem lowBound_pos (h : m ≠ 0) : 0 < lowBound m := by
  have hpos := significand_pos h
  have hcloseness := closeness_le m
  exact Nat.mul_pos (by omega) (spacing_pos m)

/-- The interval of a greater number begins later, and right where the interval ends only if the
number is the next one. -/
theorem highBound_le_lowBound (h : m < n) :
    highBound m ≤ lowBound n ∧ (highBound m = lowBound n → n = m + 1) := by
  induction n, h using Nat.le_induction with
  | base => exact ⟨(highBound_eq m).le, fun _ => rfl⟩
  | succ n _ ih =>
    have hlt := lowBound_lt_highBound n
    rw [highBound_eq n] at hlt
    exact ⟨ih.1.trans hlt.le, fun heq => absurd heq (ih.1.trans_lt hlt).ne⟩

/-! ### Bounds of rounding intervals -/

/-- A quarter of the least distance between numbers. -/
def quarter : ℚ := 2 ^ (-1076 : ℤ)

theorem quarter_pos : 0 < quarter := zpow_pos (by norm_num) _

theorem parts_eq (x : Double) : x.parts =
    (significand x.magnitude, ((x.magnitude / leadingWeight - 1 : ℕ) : ℤ) - 1074) := by
  unfold parts significand
  dsimp only
  generalize x.magnitude / leadingWeight = exponent
  split_ifs with hexponent
  · rw [hexponent]
    rfl
  · congr 1
    simp only [Int.ofNat_eq_natCast]
    omega

/-- The scale of a rounding interval in quarters of the least distance. -/
theorem scale_div_den (k : ℕ) :
    ((2 : ℚ) ^ ((k : ℤ) - 1074 - 2).toNat / 2 ^ (2 - ((k : ℤ) - 1074)).toNat) =
      2 ^ k * quarter := by
  have hneg : 2 - ((k : ℤ) - 1074) = -((k : ℤ) - 1074 - 2) := by ring
  have hsum : (k : ℤ) - 1074 - 2 = k + -1076 := by ring
  rw [hneg, ← zpow_eq_div, hsum, zpow_add₀ (by norm_num), zpow_natCast]
  rfl

/-- The bounds of a rounding interval, and which of them belong to it. -/
theorem ofDouble_bounds (x : Double) :
    ((RoundingInterval.ofDouble x).low / (RoundingInterval.ofDouble x).den : ℚ) =
      lowBound x.magnitude * quarter ∧
    ((RoundingInterval.ofDouble x).value / (RoundingInterval.ofDouble x).den : ℚ) =
      (4 * significand x.magnitude * spacing x.magnitude : ℕ) * quarter ∧
    ((RoundingInterval.ofDouble x).high / (RoundingInterval.ofDouble x).den : ℚ) =
      highBound x.magnitude * quarter ∧
    0 < (RoundingInterval.ofDouble x).den ∧
    ((RoundingInterval.ofDouble x).closed = true ↔ x.magnitude % 2 = 0) := by
  have hbelow : (if significand x.magnitude = leadingWeight ∧
      ((x.magnitude / leadingWeight - 1 : ℕ) : ℤ) - 1074 ≠ -1074 then 1 else 2) =
      closeness x.magnitude := by
    unfold closeness
    have hlt := Nat.mod_lt x.magnitude (show 0 < leadingWeight by decide)
    unfold significand
    generalize x.magnitude / leadingWeight = exponent
    generalize x.magnitude % leadingWeight = fraction at hlt
    congr 1
    rw [eq_iff_iff]
    split_ifs <;> omega
  have hscale := scale_div_den (x.magnitude / leadingWeight - 1)
  unfold RoundingInterval.ofDouble
  rw [parts_eq]
  dsimp only
  rw [hbelow]
  simp only [Nat.pow_eq, Nat.cast_mul, Nat.cast_pow, Nat.cast_ofNat, mul_div_assoc, hscale,
    lowBound, highBound, spacing, mul_assoc, decide_eq_true_eq, significand_mod_two]
  exact ⟨trivial, trivial, trivial, by positivity, trivial⟩

/-- A number lies in the rounding interval of a magnitude. The bounds belong to it if the magnitude
is even. -/
def HoldsAt (m : ℕ) (q : ℚ) : Prop :=
  if m % 2 = 0 then lowBound m * quarter ≤ q ∧ q ≤ highBound m * quarter
  else lowBound m * quarter < q ∧ q < highBound m * quarter

theorem HoldsAt.bounds (h : HoldsAt m q) :
    lowBound m * quarter ≤ q ∧ q ≤ highBound m * quarter := by
  unfold HoldsAt at h
  split_ifs at h
  · exact h
  · exact ⟨h.1.le, h.2.le⟩

/-- The rounding interval of a number is that of its magnitude. -/
theorem holds_ofDouble_iff :
    (RoundingInterval.ofDouble x).Holds q ↔ HoldsAt x.magnitude q := by
  obtain ⟨hlow, -, hhigh, -, hclosed⟩ := ofDouble_bounds x
  rw [RoundingInterval.Holds, HoldsAt, hlow, hhigh]
  simp only [hclosed]

/-- A number lies in the rounding interval of one magnitude only. -/
theorem eq_of_holdsAt (hm : HoldsAt m q) (hn : HoldsAt n q) : m = n := by
  wlog hle : m ≤ n generalizing m n
  · exact (this hn hm (not_le.mp hle).le).symm
  by_contra hne
  obtain ⟨hbounds, hnext⟩ := highBound_le_lowBound (lt_of_le_of_ne hle hne)
  -- the number is the common bound, which belongs to one of the intervals only
  have heq : highBound m = lowBound n := by
    refine hbounds.antisymm ?_
    exact_mod_cast le_of_mul_le_mul_right (hn.bounds.1.trans hm.bounds.2) quarter_pos
  have hmq : highBound m * quarter ≤ q := by
    rw [heq]
    exact hn.bounds.1
  have hnq : q ≤ lowBound n * quarter := by
    rw [← heq]
    exact hm.bounds.2
  unfold HoldsAt at hm hn
  split_ifs at hm with hmeven
  · split_ifs at hn with hneven
    · have := hnext heq
      omega
    · exact absurd hn.1 (not_lt.mpr hnq)
  · exact absurd hm.2 (not_lt.mpr hmq)

/-- A number lies in the rounding interval of one number only. -/
theorem magnitude_eq_of_holds (hx : (RoundingInterval.ofDouble x).Holds q)
    (hy : (RoundingInterval.ofDouble y).Holds q) : x.magnitude = y.magnitude :=
  eq_of_holdsAt (holds_ofDouble_iff.mp hx) (holds_ofDouble_iff.mp hy)

end Double

end Filewise
