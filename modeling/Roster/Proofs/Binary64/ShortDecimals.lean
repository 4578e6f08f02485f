import Mathlib.Data.Nat.Multiplicity
import Roster.Proofs.Binary64.RoundedFractions

/-!
# Short decimal numbers are written with their own digits

The digits that a floating-point number is written with have no zero at their end
(`shortestDigits_mod_ten`). If a decimal number has at most fifteen digits, not counting the zeros
at its end, the floating-point number that it is read as is written with just these digits
(`shortestDigits_of_short`).

Two decimal numbers in one interval are at most a step of its grid apart
(`Interval.Covers.abs_sub_le`). With fifteen digits the steps of a decimal grid are longer than
that, so that the grid of the decimal number and all coarser ones have no other point in the
interval.
-/

set_option autoImplicit false
set_option relaxedAutoImplicit false

namespace Roster.Binary64

variable {magnitude : ℕ}

/-! ### What an interval covers -/

/-- The number of an interval is its significand on its grid. -/
theorem value_mul_unit (magnitude : ℕ) :
    ((Interval.ofMagnitude magnitude).value * (Interval.ofMagnitude magnitude).unit : ℚ) =
      significand magnitude * 2 ^ gridPower magnitude := by
  have hvalue : (Interval.ofMagnitude magnitude).value = 4 * significand magnitude := rfl
  rw [hvalue, unit_ofMagnitude, zpow_sub₀ two_ne_zero]
  push_cast
  ring

/-- An interval covers its number. -/
theorem Interval.covers_value (hmagnitude : 0 < magnitude) :
    (Interval.ofMagnitude magnitude).Covers
      ((Interval.ofMagnitude magnitude).value * (Interval.ofMagnitude magnitude).unit) := by
  have hstep : (2 : ℚ) ^ gridPower magnitude ≠ 0 := by positivity
  rw [value_mul_unit]
  refine Interval.covers_of_step hmagnitude ?_ ?_ ?_ <;> rw [mul_div_cancel_right₀ _ hstep]
  · norm_num
  · intro htie
    norm_num at htie
  · intro hbits _
    have hvalue : (significand magnitude : ℚ) = 2 ^ 52 := by exact_mod_cast hbits
    rw [hvalue]
    norm_num

/-- An interval covers what lies between two numbers that it covers. -/
theorem Interval.Covers.between {interval : Interval} {first second number : ℚ}
    (hfirst : interval.Covers first) (hsecond : interval.Covers second) (hlow : first ≤ number)
    (hhigh : number ≤ second) : interval.Covers number := by
  rw [Interval.Covers] at *
  split at hfirst
  · next hclosed =>
    rw [if_pos hclosed] at hsecond ⊢
    exact ⟨hfirst.1.trans hlow, hhigh.trans hsecond.2⟩
  · next hopen =>
    rw [if_neg hopen] at hsecond ⊢
    exact ⟨hfirst.1.trans_le hlow, hhigh.trans_lt hsecond.2⟩

/-- A number that an interval covers is at most half a step away from its number. -/
theorem Interval.Covers.abs_sub_value_le {number : ℚ} (hmagnitude : 0 < magnitude)
    (hcovers : (Interval.ofMagnitude magnitude).Covers number) :
    |number - significand magnitude * 2 ^ gridPower magnitude| ≤ 2 ^ gridPower magnitude / 2 := by
  have hstep : (0 : ℚ) < 2 ^ gridPower magnitude := by positivity
  obtain ⟨hnear, -, -⟩ := hcovers.near hmagnitude
  have hscale : number - significand magnitude * 2 ^ gridPower magnitude =
      (number / 2 ^ gridPower magnitude - significand magnitude) * 2 ^ gridPower magnitude := by
    field_simp
  rw [hscale, abs_mul, abs_of_pos hstep]
  linarith [mul_le_mul_of_nonneg_right hnear hstep.le]

/-- Two numbers that an interval covers are at most a step apart. -/
theorem Interval.Covers.abs_sub_le {first second : ℚ} (hmagnitude : 0 < magnitude)
    (hfirst : (Interval.ofMagnitude magnitude).Covers first)
    (hsecond : (Interval.ofMagnitude magnitude).Covers second) :
    |first - second| ≤ 2 ^ gridPower magnitude := by
  have hleft := abs_le.mp (hfirst.abs_sub_value_le hmagnitude)
  have hright := abs_le.mp (hsecond.abs_sub_value_le hmagnitude)
  exact abs_le.mpr ⟨by linarith [hleft.1, hright.2], by linarith [hleft.2, hright.1]⟩

/-- A grid has a point that is found if it has one in the interval. -/
theorem Interval.exists_nearestOnGrid_of_covers (hmagnitude : 0 < magnitude) {digits : ℕ}
    {exponent : ℤ} (hcovers : (Interval.ofMagnitude magnitude).Covers (digits * 10 ^ exponent)) :
    ∃ found, (Interval.ofMagnitude magnitude).nearestOnGrid exponent = some found := by
  obtain ⟨-, hnumerator, hdenominator⟩ := parts_ofMagnitude_pos hmagnitude
  obtain ⟨below, hfloor, hceil, hfound⟩ :=
    Interval.exists_pointsAround hnumerator hdenominator exponent
  have hgrid : (0 : ℚ) < 10 ^ exponent := by positivity
  have hvalue := Interval.covers_value hmagnitude
  refine hfound ?_
  rcases Nat.lt_or_ge below digits with habove | hunder
  · right
    refine hvalue.between hcovers hceil.le (mul_le_mul_of_nonneg_right ?_ hgrid.le)
    exact_mod_cast habove
  · left
    refine hcovers.between hvalue (mul_le_mul_of_nonneg_right ?_ hgrid.le) hfloor
    exact_mod_cast hunder

/-! ### Zeros at the end -/

/-- No zero is left at the end if there were not too many of them. -/
theorem dropZeros_mod_ten {fuel digits : ℕ} {exponent : ℤ} (hzeros : ¬ 10 ^ (fuel + 1) ∣ digits) :
    (dropZeros fuel digits exponent).1 % 10 ≠ 0 := by
  induction fuel generalizing digits exponent with
  | zero =>
    rw [dropZeros]
    exact fun hzero ↦ hzeros (Nat.dvd_of_mod_eq_zero hzero)
  | succ fuel ih =>
    rw [dropZeros]
    split
    · next hzero =>
      obtain ⟨front, rfl⟩ := Nat.dvd_of_mod_eq_zero hzero
      rw [Nat.mul_div_cancel_left front (by norm_num)]
      refine ih fun hfront ↦ hzeros ?_
      rw [pow_succ']
      exact Nat.mul_dvd_mul_left 10 hfront
    · next hsome => exact hsome

/-- The digits that a positive finite number is written with do not end with a zero. -/
theorem shortestDigits_mod_ten (hmagnitude : 0 < magnitude) :
    (shortestDigits magnitude).1 % 10 ≠ 0 := by
  obtain ⟨hvalue, hnumerator, hdenominator⟩ := parts_ofMagnitude_pos hmagnitude
  obtain ⟨digits, exponent, hshortest, hpoint, hfinest, -⟩ := exists_shortestDigits_eq hmagnitude
  have hnear := abs_le.mp ((Interval.covers_of_nearestOnGrid hdenominator hpoint).abs_sub_value_le
    hmagnitude)
  have hlength := (Interval.pow_decimalExponent hvalue hnumerator hdenominator).2
  rw [value_mul_unit] at hlength
  have hstep : (0 : ℚ) < 2 ^ gridPower magnitude := by positivity
  have hgrid : (0 : ℚ) < 10 ^ exponent := by positivity
  have hbits : (1 : ℚ) * 2 ^ gridPower magnitude ≤
      significand magnitude * 2 ^ gridPower magnitude :=
    mul_le_mul_of_nonneg_right (by exact_mod_cast significand_pos hmagnitude) hstep.le
  have hsome : 0 < digits := by
    have hpositive : (0 : ℚ) < digits * 10 ^ exponent := by linarith [hnear.1]
    exact_mod_cast pos_of_mul_pos_left hpositive hgrid.le
  have hfew : digits < 10 ^ 18 := by
    have hless : (digits : ℚ) * 10 ^ exponent < 10 ^ 18 * 10 ^ exponent := by
      calc (digits : ℚ) * 10 ^ exponent
          < 2 * 10 ^ (Interval.ofMagnitude magnitude).decimalExponent := by linarith [hnear.2]
        _ ≤ 2 * 10 ^ (17 + exponent) :=
          mul_le_mul_of_nonneg_left
            (zpow_le_zpow_right₀ (by norm_num) (by omega)) (by norm_num)
        _ = 2 * 10 ^ 17 * 10 ^ exponent := by
          rw [zpow_add₀ (by norm_num), mul_assoc]
          norm_num
        _ < 10 ^ 18 * 10 ^ exponent := mul_lt_mul_of_pos_right (by norm_num) hgrid
    exact_mod_cast lt_of_mul_lt_mul_right hless hgrid.le
  rw [hshortest]
  exact dropZeros_mod_ten (Nat.not_dvd_of_pos_of_lt hsome hfew)

/-- The points of a grid are points of every finer one. -/
theorem mul_pow_of_le (digits : ℕ) {power other : ℤ} (hle : power ≤ other) :
    (digits * 10 ^ other : ℚ) = (digits * 10 ^ (other - power).toNat : ℕ) * 10 ^ power := by
  obtain ⟨count, hcount⟩ := Int.eq_ofNat_of_zero_le (sub_nonneg.mpr hle)
  obtain rfl : other = count + power := by omega
  rw [hcount, Int.toNat_natCast, zpow_add₀ (by norm_num), ← mul_assoc, zpow_natCast]
  push_cast
  rfl

/-- The digits on the coarser of two grids are those on the finer one with zeros at their end. -/
theorem eq_mul_pow_of_le {first second : ℕ} {power other : ℤ} (hle : power ≤ other)
    (hvalue : (first * 10 ^ power : ℚ) = second * 10 ^ other) :
    first = second * 10 ^ (other - power).toNat := by
  have hgrid : (10 : ℚ) ^ power ≠ 0 := by positivity
  rw [mul_pow_of_le second hle] at hvalue
  exact_mod_cast mul_right_cancel₀ hgrid hvalue

/-- A multiple of ten ends with a zero. -/
theorem mul_pow_mod_ten (digits : ℕ) {count : ℕ} (hcount : count ≠ 0) :
    digits * 10 ^ count % 10 = 0 :=
  Nat.mod_eq_zero_of_dvd ((dvd_pow_self 10 hcount).mul_left digits)

/-- Digits without a zero at their end are told by their value. -/
theorem eq_of_mod_ten {first second : ℕ} {power other : ℤ} (hfirst : first % 10 ≠ 0)
    (hsecond : second % 10 ≠ 0) (hvalue : (first * 10 ^ power : ℚ) = second * 10 ^ other) :
    first = second ∧ power = other := by
  have hsame : power = other := by
    rcases lt_trichotomy power other with hless | hsame | hmore
    · rw [eq_mul_pow_of_le hless.le hvalue] at hfirst
      exact absurd (mul_pow_mod_ten second (by omega)) hfirst
    · exact hsame
    · rw [eq_mul_pow_of_le hmore.le hvalue.symm] at hsecond
      exact absurd (mul_pow_mod_ten first (by omega)) hsecond
  subst hsame
  refine ⟨?_, rfl⟩
  simpa using eq_mul_pow_of_le le_rfl hvalue

/-! ### Fifteen digits -/

/-- On another grid than the finest one a number has all its bits. -/
theorem pow_mul_le_significand_mul (hcoarse : -1074 < gridPower magnitude) :
    (2 ^ 52 : ℚ) * 2 ^ gridPower magnitude ≤ significand magnitude * 2 ^ gridPower magnitude :=
  mul_le_mul_of_nonneg_right (by exact_mod_cast le_significand hcoarse) (by positivity)

/-- The steps of the binary grid are shorter than those of the coarsest decimal grid that is
tried. -/
theorem pow_gridPower_lt_coarsest (hmagnitude : 0 < magnitude)
    (hcoarse : -1074 < gridPower magnitude) :
    (2 : ℚ) ^ gridPower magnitude <
      10 ^ ((Interval.ofMagnitude magnitude).decimalExponent - 1) := by
  obtain ⟨hvalue, hnumerator, hdenominator⟩ := parts_ofMagnitude_pos hmagnitude
  have hlength := (Interval.pow_decimalExponent hvalue hnumerator hdenominator).2
  rw [value_mul_unit] at hlength
  have hstep : (0 : ℚ) < 2 ^ gridPower magnitude := by positivity
  have hbits := pow_mul_le_significand_mul hcoarse
  have hten : (10 : ℚ) ^ (Interval.ofMagnitude magnitude).decimalExponent =
      10 * 10 ^ ((Interval.ofMagnitude magnitude).decimalExponent - 1) := by
    rw [← zpow_one_add₀ (by norm_num), add_sub_cancel]
  linarith

/-- With fifteen digits the steps of the decimal grid are longer than those of the binary one. -/
theorem pow_gridPower_lt {digits : ℕ} {exponent : ℤ} (hmagnitude : 0 < magnitude)
    (hdigits : digits < 10 ^ 15) (hcoarse : -1074 < gridPower magnitude)
    (hcovers : (Interval.ofMagnitude magnitude).Covers (digits * 10 ^ exponent)) :
    (2 : ℚ) ^ gridPower magnitude < 10 ^ exponent := by
  have hnear := abs_le.mp (hcovers.abs_sub_value_le hmagnitude)
  have hgrid : (0 : ℚ) < 10 ^ exponent := by positivity
  have hbits := pow_mul_le_significand_mul hcoarse
  have hfew : (digits : ℚ) * 10 ^ exponent ≤ 10 ^ 15 * 10 ^ exponent :=
    mul_le_mul_of_nonneg_right (by exact_mod_cast hdigits.le) hgrid.le
  have hless : (2 ^ 52 - 1 : ℚ) * 2 ^ gridPower magnitude < (2 ^ 52 - 1) * 10 ^ exponent := by
    calc (2 ^ 52 - 1 : ℚ) * 2 ^ gridPower magnitude
        ≤ 10 ^ 15 * 10 ^ exponent := by linarith [hnear.2]
      _ < (2 ^ 52 - 1) * 10 ^ exponent := mul_lt_mul_of_pos_right (by norm_num) hgrid
  exact lt_of_mul_lt_mul_left hless (by norm_num)

/-- Points of a grid less than a step apart are the same. -/
theorem eq_of_abs_sub_lt {first second : ℕ} {step : ℚ} (hstep : 0 < step)
    (hnear : |first * step - second * step| < step) : first = second := by
  have hless : |(first : ℚ) - second| < 1 := by
    rw [← sub_mul, abs_mul, abs_of_pos hstep] at hnear
    exact (mul_lt_iff_lt_one_left hstep).mp hnear
  have hwhole : |(first : ℤ) - second| < 1 := by exact_mod_cast hless
  have := Int.abs_lt_one_iff.mp hwhole
  omega

/-- Two numbers that an interval covers are the same if both are points of a decimal grid with
longer steps than its own. -/
theorem Interval.Covers.eq_of_pow_lt {first second : ℕ} {power other lowest : ℤ}
    (hmagnitude : 0 < magnitude)
    (hfirst : (Interval.ofMagnitude magnitude).Covers (first * 10 ^ power))
    (hsecond : (Interval.ofMagnitude magnitude).Covers (second * 10 ^ other))
    (hpower : lowest ≤ power) (hother : lowest ≤ other)
    (hwide : (2 : ℚ) ^ gridPower magnitude < 10 ^ lowest) :
    (first * 10 ^ power : ℚ) = second * 10 ^ other := by
  have hnear := (hfirst.abs_sub_le hmagnitude hsecond).trans_lt hwide
  rw [mul_pow_of_le first hpower, mul_pow_of_le second hother] at hnear ⊢
  rw [eq_of_abs_sub_lt (by positivity) hnear]

/-- The last of fifteen digits is within the first sixteen places of the decimal numbers in the
interval. -/
theorem decimalExponent_le_of_short {digits : ℕ} {exponent : ℤ} (hmagnitude : 0 < magnitude)
    (hdigits : digits < 10 ^ 15) (hcoarse : -1074 < gridPower magnitude)
    (hcovers : (Interval.ofMagnitude magnitude).Covers (digits * 10 ^ exponent)) :
    (Interval.ofMagnitude magnitude).decimalExponent ≤ 16 + exponent := by
  obtain ⟨hvalue, hnumerator, hdenominator⟩ := parts_ofMagnitude_pos hmagnitude
  have hlength := (Interval.pow_decimalExponent hvalue hnumerator hdenominator).1
  rw [value_mul_unit] at hlength
  have hnear := abs_le.mp (hcovers.abs_sub_value_le hmagnitude)
  have hshort := pow_gridPower_lt hmagnitude hdigits hcoarse hcovers
  have hgrid : (0 : ℚ) < 10 ^ exponent := by positivity
  have hfew : (digits : ℚ) * 10 ^ exponent ≤ 10 ^ 15 * 10 ^ exponent :=
    mul_le_mul_of_nonneg_right (by exact_mod_cast hdigits.le) hgrid.le
  have hless : (10 : ℚ) ^ ((Interval.ofMagnitude magnitude).decimalExponent - 1) <
      10 ^ (16 + exponent) := by
    calc (10 : ℚ) ^ ((Interval.ofMagnitude magnitude).decimalExponent - 1)
        ≤ (10 ^ 15 + 1) * 10 ^ exponent := by linarith [hnear.1]
      _ < 10 ^ 16 * 10 ^ exponent := mul_lt_mul_of_pos_right (by norm_num) hgrid
      _ = 10 ^ (16 + exponent) := by
        rw [zpow_add₀ (by norm_num)]
        norm_num
  have := (zpow_lt_zpow_iff_right₀ (by norm_num : (1 : ℚ) < 10)).mp hless
  omega

/-- A decimal number with at most fifteen digits that end with no zero is written with them, if it
is not too small for all the bits of a floating-point number. -/
theorem shortestDigits_of_short {digits : ℕ} {exponent : ℤ} (hmagnitude : 0 < magnitude)
    (hdigits : digits < 10 ^ 15) (hten : digits % 10 ≠ 0) (hcoarse : -1074 < gridPower magnitude)
    (hcovers : (Interval.ofMagnitude magnitude).Covers (digits * 10 ^ exponent)) :
    shortestDigits magnitude = (digits, exponent) := by
  obtain ⟨-, -, hdenominator⟩ := parts_ofMagnitude_pos hmagnitude
  obtain ⟨found, power, hshortest, hpoint, hfinest, hfirst⟩ := exists_shortestDigits_eq hmagnitude
  have hreach := decimalExponent_le_of_short hmagnitude hdigits hcoarse hcovers
  have hwidest := pow_gridPower_lt_coarsest hmagnitude hcoarse
  generalize (Interval.ofMagnitude magnitude).decimalExponent = top at *
  -- The grid of the decimal number may be coarser than all that are tried, by one place.
  obtain ⟨lowest, hlowest⟩ : ∃ lowest, lowest = min exponent (top - 1) := ⟨_, rfl⟩
  have hwide : (2 : ℚ) ^ gridPower magnitude < 10 ^ lowest := by
    rcases min_choice exponent (top - 1) with hmin | hmin <;> rw [hlowest, hmin]
    · exact pow_gridPower_lt hmagnitude hdigits hcoarse hcovers
    · exact hwidest
  have hfine : lowest ≤ exponent := by omega
  have hpower : lowest ≤ power := by
    have hcovers' := hcovers
    rw [mul_pow_of_le digits hfine] at hcovers'
    obtain ⟨other, hother⟩ := Interval.exists_nearestOnGrid_of_covers hmagnitude hcovers'
    by_contra hless
    rw [hfirst lowest (not_le.mp hless) (by omega)] at hother
    cases hother
  have hfound := Interval.covers_of_nearestOnGrid hdenominator hpoint
  have hsame := hfound.eq_of_pow_lt hmagnitude hcovers hpower hfine hwide
  rw [← dropZeros_value 17, ← hshortest] at hsame
  obtain ⟨hdigits', hexponent⟩ := eq_of_mod_ten (shortestDigits_mod_ten hmagnitude) hten hsame
  exact Prod.ext hdigits' hexponent

end Roster.Binary64
