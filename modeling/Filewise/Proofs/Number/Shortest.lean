import Filewise.Proofs.Number.Rounding

/-!
# Shortest decimals read back

On the grid of decimals with 17 digits one of the two neighbours of a floating-point number
reads back as the number, so a shortest decimal is always found. It lies in the rounding
interval of the number, and therefore no two numbers have the same shortest decimal.

## Main results

* `RoundingInterval.pointPosition_spec`: how many digits stand before the point.
* `RoundingInterval.nearestOnGrid?_isSome`: on the grid of 17 digits a neighbour reads back.
* `Double.holds_shortest`: the shortest decimal of a number lies in its rounding interval.
-/

namespace Filewise

namespace Decimal

/-- A number with so many digits lies between two powers of ten. -/
theorem digitCount_spec {n : ℕ} (h : 0 < n) :
    10 ^ (digitCount n - 1) ≤ n ∧ n < 10 ^ digitCount n := by
  have hpos : 0 < digitCount n := Nat.length_toDigits_pos
  refine ⟨?_, (Nat.length_toDigits_le_iff (by decide) hpos).mp le_rfl⟩
  by_contra hlt
  rcases Nat.eq_zero_or_pos (digitCount n - 1) with hone | hmore
  · rw [hone] at hlt
    omega
  · have hle := (Nat.length_toDigits_le_iff (by decide) hmore).mpr (not_le.mp hlt)
    unfold digitCount digitText at *
    omega

/-- Moving zeros from the digits into the exponent does not change the value. -/
theorem toRat_stripZeros (fuel : ℕ) (d : Decimal) : (d.stripZeros fuel).toRat = d.toRat := by
  induction fuel generalizing d with
  | zero => rfl
  | succ fuel ih =>
    unfold stripZeros
    split_ifs with hzero
    · rw [ih, toRat, toRat, zpow_add_one₀ (by norm_num)]
      have hdigits : d.digits / 10 * 10 = d.digits := Nat.div_mul_cancel
        (Nat.dvd_of_mod_eq_zero hzero.2)
      rw [← hdigits]
      push_cast
      rw [Nat.mul_div_cancel _ (by decide)]
      ring
    · rfl

end Decimal

namespace RoundingInterval

variable {r : RoundingInterval} {d : Decimal}

/-- The value lies between the powers of ten that the position of the point gives. -/
theorem pointPosition_spec (hden : 0 < r.den) (hvalue : 0 < r.value) :
    (10 : ℚ) ^ (r.pointPosition - 1) ≤ r.value / r.den ∧
      (r.value / r.den : ℚ) < 10 ^ r.pointPosition := by
  have hden' : (0 : ℚ) < r.den := by exact_mod_cast hden
  have hvalue' : (0 : ℚ) < r.value := by exact_mod_cast hvalue
  unfold pointPosition
  split_ifs with hle
  · -- the whole part has as many digits as stand before the point
    obtain ⟨hlow, hhigh⟩ := Decimal.digitCount_spec (Nat.div_pos hle hden)
    have hpos : 0 < Decimal.digitCount (r.value / r.den) := Nat.length_toDigits_pos
    have hcount : (Decimal.digitCount (r.value / r.den) : ℤ) - 1 =
        (Decimal.digitCount (r.value / r.den) - 1 : ℕ) := by omega
    rw [hcount, zpow_natCast, zpow_natCast, le_div_iff₀ hden', div_lt_iff₀ hden']
    rw [Nat.le_div_iff_mul_le hden] at hlow
    rw [Nat.div_lt_iff_lt_mul hden] at hhigh
    exact ⟨by exact_mod_cast hlow, by exact_mod_cast hhigh⟩
  · -- the reciprocal has as many digits as there are places up to the first one that counts
    have hpart : 0 < (r.den - 1) / r.value := Nat.div_pos (by omega) hvalue
    obtain ⟨hlow, hhigh⟩ := Decimal.digitCount_spec hpart
    have hpos : 0 < Decimal.digitCount ((r.den - 1) / r.value) := Nat.length_toDigits_pos
    have hfirst : (1 - (Decimal.digitCount ((r.den - 1) / r.value) : ℤ)) - 1 =
        -(Decimal.digitCount ((r.den - 1) / r.value) : ℤ) := by ring
    have hlast : 1 - (Decimal.digitCount ((r.den - 1) / r.value) : ℤ) =
        -((Decimal.digitCount ((r.den - 1) / r.value) - 1 : ℕ) : ℤ) := by omega
    rw [hfirst, hlast, zpow_neg, zpow_neg, zpow_natCast, zpow_natCast]
    rw [Nat.le_div_iff_mul_le hvalue] at hlow
    rw [Nat.div_lt_iff_lt_mul hvalue] at hhigh
    constructor
    · rw [inv_eq_one_div, div_le_div_iff₀ (by positivity) hden', one_mul, mul_comm]
      exact_mod_cast (show r.den ≤ 10 ^ _ * r.value by omega)
    · rw [inv_eq_one_div, div_lt_div_iff₀ hden' (by positivity), one_mul, mul_comm]
      exact_mod_cast (show 10 ^ _ * r.value < r.den by omega)

/-- What the grid with an exponent is searched for: the decimal next to the value on either side,
or between them the nearer one. -/
theorem contains_of_nearestOnGrid? {exponent : ℤ} (h : r.nearestOnGrid? exponent = some d) :
    r.contains d = true := by
  unfold nearestOnGrid? at h
  dsimp only at h
  split at h
  · simp at h
  · rename_i hlower _
    rwa [← Option.some_inj.mp h]
  · rename_i _ hupper
    rwa [← Option.some_inj.mp h]
  · rename_i hlower hupper
    rw [← Option.some_inj.mp h]
    unfold Double.roundQuotient
    dsimp only
    split_ifs
    · exact hlower
    · rcases Nat.mod_two_eq_zero_or_one (r.value * Nat.pow 10 (-exponent).toNat /
        (r.den * Nat.pow 10 exponent.toNat)) with hodd | hodd
      · rwa [hodd, Nat.add_zero]
      · rwa [hodd]
    · exact hupper

/-- The value lies between its neighbours on a grid. -/
theorem floor_spec (hden : 0 < r.den) (exponent : ℤ) :
    let digits := r.value * Nat.pow 10 (-exponent).toNat / (r.den * Nat.pow 10 exponent.toNat)
    Decimal.toRat ⟨digits, exponent⟩ ≤ r.value / r.den ∧
      (r.value / r.den : ℚ) < Decimal.toRat ⟨digits + 1, exponent⟩ := by
  intro digits
  have hunit : 0 < r.den * 10 ^ exponent.toNat := by positivity
  have hden' : (0 : ℚ) < r.den := by exact_mod_cast hden
  have hscale : (0 : ℚ) < 10 ^ (-exponent).toNat := by positivity
  have hlow : digits * (r.den * 10 ^ exponent.toNat) ≤ r.value * 10 ^ (-exponent).toNat :=
    Nat.div_mul_le_self _ _
  have hhigh : r.value * 10 ^ (-exponent).toNat < (digits + 1) * (r.den * 10 ^ exponent.toNat) :=
    (Nat.div_lt_iff_lt_mul hunit).mp (Nat.lt_succ_self _)
  rw [Decimal.toRat, Decimal.toRat, zpow_eq_div, ← mul_div_assoc, ← mul_div_assoc,
    div_le_div_iff₀ hscale hden', div_lt_div_iff₀ hden' hscale]
  constructor
  · rw [mul_assoc, mul_comm (10 ^ exponent.toNat : ℚ)]
    exact_mod_cast hlow
  · rw [mul_assoc, mul_comm (10 ^ exponent.toNat : ℚ)]
    exact_mod_cast hhigh

/-- If the distances from the value to both bounds are great enough, one of the neighbours of the
value on the grid of 17 digits lies in the interval. -/
theorem nearestOnGrid?_isSome (hden : 0 < r.den) (hvalue : 0 < r.value)
    (hlow : (r.value / r.den : ℚ) < 2 * 10 ^ 16 * (r.value / r.den - r.low / r.den))
    (hhigh : (r.value / r.den : ℚ) < 2 * 10 ^ 16 * (r.high / r.den - r.value / r.den)) :
    (r.nearestOnGrid? (r.pointPosition - 17)).isSome = true := by
  obtain ⟨hposition, -⟩ := pointPosition_spec hden hvalue
  obtain ⟨hlower, hupper⟩ := floor_spec hden (r.pointPosition - 17)
  have hunit : (10 : ℚ) ^ (r.pointPosition - 1) = 10 ^ 16 * 10 ^ (r.pointPosition - 17) := by
    have hsum : r.pointPosition - 1 = 16 + (r.pointPosition - 17) := by ring
    rw [hsum, zpow_add₀ (by norm_num)]
    norm_num
  have hpos : (0 : ℚ) < 10 ^ (r.pointPosition - 17) := zpow_pos (by norm_num) _
  rw [hunit] at hposition
  unfold nearestOnGrid?
  dsimp only
  generalize r.value * Nat.pow 10 (-(r.pointPosition - 17)).toNat /
    (r.den * Nat.pow 10 (r.pointPosition - 17).toNat) = digits at *
  have hstep : Decimal.toRat ⟨digits + 1, r.pointPosition - 17⟩ =
      Decimal.toRat ⟨digits, r.pointPosition - 17⟩ + 10 ^ (r.pointPosition - 17) := by
    rw [Decimal.toRat, Decimal.toRat]
    push_cast
    ring
  -- one of the neighbours is no further away than half the distance between them
  have hsome : r.contains ⟨digits, r.pointPosition - 17⟩ = true ∨
      r.contains ⟨digits + 1, r.pointPosition - 17⟩ = true := by
    rw [contains_iff hden, contains_iff hden]
    rcases le_total (r.value / r.den - Decimal.toRat ⟨digits, r.pointPosition - 17⟩)
      (10 ^ (r.pointPosition - 17) / 2) with hnear | hfar
    · exact Or.inl (holds_of_lt (by linarith) (by linarith))
    · exact Or.inr (holds_of_lt (by linarith) (by linarith))
  rcases hsome with h | h <;> rw [h] <;> split <;> simp_all

end RoundingInterval

namespace Double

variable {x : Double}

/-- The lower bound of a rounding interval is far enough away from the number for 17 digits. -/
theorem significand_lt_closeness (m : ℕ) : 4 * significand m < 2 * 10 ^ 16 * closeness m := by
  have hlt := significand_lt m
  have hcloseness := closeness_le m
  by_cases hone : closeness m = 1
  · -- the significand of a power of two is the least one, so that half the distance is enough
    rw [hone, significand_of_closeness hone]
    decide
  · unfold leadingWeight at hlt
    omega

/-- Both bounds of a rounding interval are far enough away from the number for 17 digits. -/
theorem value_lt_distance (h : x.magnitude ≠ 0) :
    let r := RoundingInterval.ofDouble x
    0 < r.value ∧
    (r.value / r.den : ℚ) < 2 * 10 ^ 16 * (r.value / r.den - r.low / r.den) ∧
    (r.value / r.den : ℚ) < 2 * 10 ^ 16 * (r.high / r.den - r.value / r.den) := by
  intro r
  obtain ⟨hlow, hvalue, hhigh, hden, -⟩ := ofDouble_bounds x
  have hspacing := spacing_pos x.magnitude
  have hpos := significand_pos h
  have hcloseness := closeness_le x.magnitude
  have hclose := significand_lt_closeness x.magnitude
  have hspacing' : (0 : ℚ) < spacing x.magnitude := by exact_mod_cast hspacing
  have hlowBound : (lowBound x.magnitude : ℚ) =
      (4 * significand x.magnitude - closeness x.magnitude) * spacing x.magnitude := by
    rw [lowBound]
    push_cast [Nat.cast_sub (show closeness x.magnitude ≤ 4 * significand x.magnitude by omega)]
    rfl
  refine ⟨?_, ?_, ?_⟩
  · have hpositive : (0 : ℚ) < r.value / r.den := by
      rw [hvalue]
      exact mul_pos (by exact_mod_cast Nat.mul_pos (by omega) hspacing) quarter_pos
    have hden' : (0 : ℚ) < r.den := by exact_mod_cast hden
    exact_mod_cast (div_pos_iff_of_pos_right hden').mp hpositive
  · -- the lower bound is as far away as the next smaller number tells
    rw [hvalue, hlow, hlowBound, ← sub_mul, ← mul_assoc]
    refine mul_lt_mul_of_pos_right ?_ quarter_pos
    have hscaled : (4 * significand x.magnitude : ℚ) < 2 * 10 ^ 16 * closeness x.magnitude := by
      exact_mod_cast hclose
    have := mul_lt_mul_of_pos_right hscaled hspacing'
    push_cast
    linarith
  · -- the upper bound is half a distance away
    rw [hvalue, hhigh, highBound, ← sub_mul, ← mul_assoc]
    refine mul_lt_mul_of_pos_right ?_ quarter_pos
    have hscaled : (4 * significand x.magnitude : ℚ) < 2 * 10 ^ 16 * 2 := by
      exact_mod_cast (show 4 * significand x.magnitude < 2 * 10 ^ 16 * 2 by omega)
    have := mul_lt_mul_of_pos_right hscaled hspacing'
    push_cast
    linarith

/-- The shortest decimal of a number lies in its rounding interval. -/
theorem holds_shortest (h : x.magnitude ≠ 0) :
    (RoundingInterval.ofDouble x).Holds x.shortest.toRat := by
  obtain ⟨-, -, -, hden, -⟩ := ofDouble_bounds x
  obtain ⟨hvalue, hlow, hhigh⟩ := value_lt_distance h
  have hsome := RoundingInterval.nearestOnGrid?_isSome hden hvalue hlow hhigh
  unfold shortest
  dsimp only
  split
  · rename_i d hfound
    obtain ⟨grid, -, hgrid⟩ := List.exists_of_findSome?_eq_some hfound
    rw [Decimal.toRat_stripZeros]
    exact (RoundingInterval.contains_iff hden).mp
      (RoundingInterval.contains_of_nearestOnGrid? hgrid)
  · rename_i hnone
    -- the last grid is the one of 17 digits
    have hlast : (RoundingInterval.ofDouble x).nearestOnGrid?
        ((RoundingInterval.ofDouble x).pointPosition - 17) = none :=
      List.findSome?_eq_none_iff.mp hnone _
        (List.mem_map.mpr ⟨16, List.mem_range.mpr (by decide), rfl⟩)
    rw [hlast] at hsome
    simp at hsome

example : (Double.mk 1).shortest = ⟨5, -324⟩ := by decide +kernel

/-- The value of the shortest decimal of a number tells its magnitude. -/
theorem magnitude_eq_of_shortest {y : Double} (hx : x.magnitude ≠ 0) (hy : y.magnitude ≠ 0)
    (h : x.shortest.toRat = y.shortest.toRat) : x.magnitude = y.magnitude :=
  magnitude_eq_of_holds (holds_shortest hx) (h ▸ holds_shortest hy)

/-- The shortest decimal of a number other than zero is positive. -/
theorem toRat_shortest_pos (h : x.magnitude ≠ 0) : 0 < x.shortest.toRat := by
  obtain ⟨hlow, -⟩ := ofDouble_bounds x
  have hlowest := (holds_shortest h).bounds.1
  rw [hlow] at hlowest
  have hpos : (0 : ℚ) < lowBound x.magnitude := by exact_mod_cast lowBound_pos h
  exact (mul_pos hpos quarter_pos).trans_le hlowest

end Double

end Filewise
