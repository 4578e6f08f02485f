import Roster.Proofs.Binary64.ShortestDigits

/-!
# Fractions are rounded to numbers whose intervals cover them

A fraction that the interval of a number covers is rounded to the number
(`nearestMagnitude_eq_of_covers`). Here is the other direction: the number that a fraction is
rounded to covers it, unless it is zero or an infinity (`covers_nearestMagnitude`). The same holds
of decimal numbers (`covers_magnitudeOfDecimal`).

The fraction is at most half a step away from the number on the grid that it is rounded on
(`divideToNearest_near`). Only at the end of a grid is that not the grid of the number: what is
rounded up to the next power of two has twice the step there.
-/

set_option autoImplicit false
set_option relaxedAutoImplicit false

namespace Roster.Binary64

/-! ### Intervals -/

/-- A number is in an interval that it is near enough to: at most half a step of the grid away, less
than that if the significand is odd, and at most a quarter below the first of the numbers with
fifty-three bits. -/
theorem Interval.covers_of_step {magnitude : ℕ} {number : ℚ} (hmagnitude : 0 < magnitude)
    (hnear : |number / 2 ^ gridPower magnitude - significand magnitude| ≤ 1 / 2)
    (htie : |number / 2 ^ gridPower magnitude - significand magnitude| = 1 / 2 →
      significand magnitude % 2 = 0)
    (hfirst : significand magnitude = 2 ^ 52 → -1074 < gridPower magnitude →
      (2 ^ 52 - 1 / 4 : ℚ) ≤ number / 2 ^ gridPower magnitude) :
    (Interval.ofMagnitude magnitude).Covers number := by
  obtain ⟨below, hlow, -, hbelow, -⟩ := ends_ofMagnitude hmagnitude
  have hends := abs_le.mp hnear
  rw [covers_ofMagnitude_iff hlow]
  by_cases heven : significand magnitude % 2 = 0
  · rw [if_pos heven]
    refine ⟨?_, by linarith [hends.2]⟩
    rcases hbelow with rfl | ⟨rfl, hbits, hcoarse⟩
    · linarith [hends.1]
    · have hbound := hfirst hbits hcoarse
      have hvalue : (significand magnitude : ℚ) = 2 ^ 52 := by exact_mod_cast hbits
      rw [hvalue]
      exact hbound
  · have hinside := abs_lt.mp (lt_of_le_of_ne hnear fun heq ↦ heven (htie heq))
    rw [if_neg heven]
    refine ⟨?_, by linarith [hinside.2]⟩
    rcases hbelow with rfl | ⟨-, hbits, -⟩
    · linarith [hinside.1]
    · rw [hbits] at heven
      exact absurd (by norm_num) heven

/-- The grid and the significand of the bits that stand for them. -/
theorem significand_gridPower_of_eq {magnitude power fraction : ℕ}
    (hparts : magnitude = power * exponentWeight + fraction) (hlt : fraction < 2 * exponentWeight)
    (hfull : power = 0 ∨ exponentWeight ≤ fraction) :
    significand magnitude = fraction ∧ gridPower magnitude = power - 1074 := by
  subst hparts
  rw [significand, gridPower]
  rw [exponentWeight] at *
  constructor <;> split <;> omega

/-! ### Rounded fractions -/

/-- The interval of the number that is rounded to covers the number. -/
theorem RoundsOn.covers {number : ℚ} {power : ℤ} {fraction magnitude : ℕ}
    (hrounds : RoundsOn number power fraction) (hmagnitude : 0 < magnitude)
    (hparts : magnitude = (power + 1074).toNat * exponentWeight + fraction) :
    (Interval.ofMagnitude magnitude).Covers number := by
  have hfinest := hrounds.finest
  have hends := abs_le.mp hrounds.near
  have hweight : exponentWeight = 2 ^ 52 := by norm_num [exponentWeight]
  rcases Nat.lt_or_eq_of_le hrounds.fraction_le with hlt | rfl
  · obtain ⟨hsignificand, hgrid⟩ := significand_gridPower_of_eq hparts hlt hrounds.le_fraction
    have hpower : gridPower magnitude = power := by omega
    refine Interval.covers_of_step hmagnitude ?_ ?_ ?_ <;> rw [hpower]
    · rw [hsignificand]
      exact hrounds.near
    · rw [hsignificand]
      exact hrounds.tie
    · intro _ hcoarse
      linarith [hrounds.full.resolve_left hcoarse.ne']
  · -- The fraction is rounded up to the next power of two, where the steps are twice as long.
    have hnext : magnitude = ((power + 1074).toNat + 1) * exponentWeight + exponentWeight := by
      rw [hparts]
      ring
    obtain ⟨hsignificand, hgrid⟩ := significand_gridPower_of_eq hnext (by omega) (.inr le_rfl)
    have hpower : gridPower magnitude = power + 1 := by omega
    have hhalf : number / 2 ^ gridPower magnitude = number / 2 ^ power / 2 := by
      rw [hpower, zpow_add₀ two_ne_zero, zpow_one, div_div]
    have hvalue : (significand magnitude : ℚ) = 2 ^ 52 := by
      rw [hsignificand, hweight]
      norm_num
    have hdouble : ((2 * exponentWeight : ℕ) : ℚ) = 2 ^ 53 := by
      rw [hweight]
      norm_num
    rw [hdouble] at hends
    have hlow : (2 ^ 52 - 1 / 4 : ℚ) ≤ number / 2 ^ gridPower magnitude := by
      rw [hhalf]
      linarith [hends.1]
    have hhigh : number / 2 ^ gridPower magnitude < 2 ^ 52 := by
      rw [hhalf]
      linarith [hrounds.lt]
    have hinside : |number / 2 ^ gridPower magnitude - significand magnitude| < 1 / 2 := by
      rw [hvalue]
      exact abs_lt.mpr ⟨by linarith, by linarith⟩
    exact Interval.covers_of_step hmagnitude hinside.le (fun heq ↦ absurd heq hinside.ne)
      fun _ _ ↦ hlow

/-- The number that a fraction is rounded to covers it, unless the number is zero or an infinity. -/
theorem covers_nearestMagnitude {numerator denominator magnitude : ℕ} (hnumerator : 0 < numerator)
    (hdenominator : 0 < denominator)
    (hrounded : nearestMagnitude numerator denominator = magnitude) (hmagnitude : 0 < magnitude)
    (hfinite : magnitude < infinityMagnitude) :
    (Interval.ofMagnitude magnitude).Covers (numerator / denominator) := by
  obtain ⟨power, fraction, hrounds, hform⟩ := exists_roundsOn hnumerator hdenominator
  exact hrounds.covers hmagnitude (by omega)

/-- A fraction between a small power of two and one that has fifty-three bits is rounded to a finite
number on another grid than the finest one. -/
theorem nearestMagnitude_of_middle {numerator denominator : ℕ} (hnumerator : 0 < numerator)
    (hdenominator : 0 < denominator) (hlow : (2 : ℚ) ^ (-200 : ℤ) ≤ numerator / denominator)
    (hhigh : (numerator / denominator : ℚ) < 2 ^ 52) :
    2 * exponentWeight ≤ nearestMagnitude numerator denominator ∧
      nearestMagnitude numerator denominator < infinityMagnitude := by
  obtain ⟨power, fraction, hrounds, hform⟩ := exists_roundsOn hnumerator hdenominator
  have hpower : (0 : ℚ) < 2 ^ power := by positivity
  have hcoarse : -1074 < power := by
    by_contra hfinest
    obtain rfl : power = -1074 := le_antisymm (not_lt.mp hfinest) hrounds.finest
    have hless : (2 : ℚ) ^ (-200 : ℤ) < 2 ^ (-200 : ℤ) := by
      calc (2 : ℚ) ^ (-200 : ℤ) ≤ numerator / denominator := hlow
        _ < 2 ^ 53 * 2 ^ (-1074 : ℤ) := (div_lt_iff₀ hpower).mp hrounds.lt
        _ = 2 ^ (-1021 : ℤ) := by
          rw [← zpow_natCast, ← zpow_add₀ two_ne_zero]
          norm_num
        _ ≤ 2 ^ (-200 : ℤ) := zpow_le_zpow_right₀ one_le_two (by norm_num)
    exact hless.false
  have hfine : power < 0 := by
    by_contra hwhole
    have hfull := hrounds.full.resolve_left hcoarse.ne'
    have hone : (1 : ℚ) ≤ 2 ^ power := one_le_zpow₀ one_le_two (not_lt.mp hwhole)
    have hle : (numerator / denominator : ℚ) / 2 ^ power ≤ numerator / denominator :=
      div_le_self (by positivity) hone
    linarith
  have hfull := hrounds.le_fraction
  have hfraction := hrounds.fraction_le
  rw [hform, infinityMagnitude]
  rw [exponentWeight] at *
  omega

/-- The number that a decimal number is read as covers it, unless it is zero or an infinity. -/
theorem covers_magnitudeOfDecimal {digits magnitude : ℕ} {exponent : ℤ}
    (hread : magnitudeOfDecimal digits exponent = magnitude) (hmagnitude : 0 < magnitude)
    (hfinite : magnitude < infinityMagnitude) :
    (Interval.ofMagnitude magnitude).Covers (digits * 10 ^ exponent) := by
  have hsome : digits ≠ 0 := by
    rintro rfl
    exact hmagnitude.ne hread
  simp only [magnitudeOfDecimal, if_neg hsome] at hread
  split at hread
  · exact absurd hread hfinite.ne'
  split at hread
  · exact absurd hread hmagnitude.ne
  have hpositive : 0 < digits := Nat.pos_of_ne_zero hsome
  split at hread
  · have hcovers := covers_nearestMagnitude (Nat.mul_pos hpositive (Nat.pow_pos (by norm_num)))
      Nat.one_pos hread hmagnitude hfinite
    simpa using hcovers
  · have hcovers := covers_nearestMagnitude hpositive (Nat.pow_pos (by norm_num)) hread hmagnitude
      hfinite
    simpa [zpow_negSucc, div_eq_mul_inv] using hcovers

/-- On another grid than the finest one. -/
theorem lt_gridPower {magnitude : ℕ} (hcoarse : 2 * exponentWeight ≤ magnitude) :
    -1074 < gridPower magnitude := by
  rw [gridPower]
  rw [exponentWeight] at *
  split <;> omega

/-- A number with fifteen digits and as many places is read as a finite number on another grid than
the finest one. -/
theorem magnitudeOfDecimal_of_short {digits places : ℕ} (hsome : 0 < digits)
    (hdigits : digits < 10 ^ 15) (hplaces : places ≤ 15) :
    2 * exponentWeight ≤ magnitudeOfDecimal digits (-places) ∧
      magnitudeOfDecimal digits (-places) < infinityMagnitude := by
  have hlength : (Nat.toDigits 10 digits).length ≤ 15 :=
    (Nat.length_toDigits_le_iff (by norm_num) (by norm_num)).mpr hdigits
  have hform : magnitudeOfDecimal digits (-places) = nearestMagnitude digits (10 ^ places) := by
    simp only [magnitudeOfDecimal]
    rw [if_neg hsome.ne', if_neg (by omega), if_neg (by omega)]
    cases places with
    | zero => simp
    | succ places => rfl
  have htenth : (10 : ℚ) ^ places ≤ 10 ^ 15 := pow_le_pow_right₀ (by norm_num) hplaces
  have hpositive : (0 : ℚ) < 10 ^ places := by positivity
  have hleast : (1 : ℚ) ≤ digits := by exact_mod_cast hsome
  have hmost : (digits : ℚ) < 10 ^ 15 := by exact_mod_cast hdigits
  rw [hform]
  refine nearestMagnitude_of_middle hsome (by positivity) ?_ ?_ <;> push_cast
  · calc (2 : ℚ) ^ (-200 : ℤ) ≤ 2 ^ (-50 : ℤ) := zpow_le_zpow_right₀ one_le_two (by omega)
      _ ≤ 1 / 10 ^ 15 := by norm_num
      _ ≤ digits / 10 ^ places := div_le_div₀ (by linarith) hleast hpositive htenth
  · calc (digits : ℚ) / 10 ^ places ≤ digits :=
          div_le_self (by linarith) (one_le_pow₀ (by norm_num))
      _ < 2 ^ 52 := hmost.trans (by norm_num)

end Roster.Binary64
