import Mathlib.Algebra.Order.Field.Power
import Mathlib.Data.Nat.Cast.Order.Field
import Mathlib.Data.Rat.Cast.Order
import Mathlib.Tactic.FieldSimp
import Mathlib.Tactic.Linarith
import Mathlib.Tactic.NormNum
import Mathlib.Tactic.Positivity
import Mathlib.Tactic.Ring
import Roster.Binary64.Decimal
import Roster.Binary64.Shortest

/-!
# The floating-point number nearest to a fraction

The numbers that are read as one floating-point number form an interval, which
`Interval.ofMagnitude` gives in units of a quarter of the distance to the next number.
`Interval.Covers` says the same of rational numbers, and `nearestMagnitude_eq_of_covers` ties the
two ends together: a fraction that the interval of a number covers is rounded to that number.

A fraction is rounded on a grid that depends on its size (`exists_roundsOn`). Near a power of two the
fraction may lie on the finer grid below while its number lies on the coarser one above; that is the
one case in which the two grids differ (`RoundsOn.of_lt_gridPower`).
-/

set_option autoImplicit false
set_option relaxedAutoImplicit false

namespace Roster.Binary64

/-! ### Quotients rounded to whole numbers -/

/-- A quotient is rounded to a whole number at most a half away, which is even where it is just a
half. -/
theorem divideToNearest_near {numerator denominator : ℕ} (hdenominator : 0 < denominator) :
    |(numerator / denominator : ℚ) - divideToNearest numerator denominator| ≤ 1 / 2 ∧
      (|(numerator / denominator : ℚ) - divideToNearest numerator denominator| = 1 / 2 →
        divideToNearest numerator denominator % 2 = 0) := by
  obtain ⟨quotient, hquotient⟩ : ∃ quotient, quotient = numerator / denominator := ⟨_, rfl⟩
  obtain ⟨left, hleft⟩ : ∃ left, left = numerator % denominator := ⟨_, rfl⟩
  have hpositive : (0 : ℚ) < denominator := by exact_mod_cast hdenominator
  have hvalue : (numerator / denominator : ℚ) = quotient + left / denominator := by
    have hsplit : numerator = denominator * quotient + left := by
      rw [hquotient, hleft, Nat.div_add_mod]
    rw [hsplit]
    push_cast
    field_simp
  have hsome : (0 : ℚ) ≤ left / denominator := by positivity
  have hless : (left / denominator : ℚ) < 1 := by
    rw [div_lt_one hpositive, hleft]
    exact_mod_cast Nat.mod_lt numerator hdenominator
  have htwice : (2 * left : ℕ) / (denominator : ℚ) = 2 * (left / denominator) := by
    push_cast
    ring
  rw [hvalue, divideToNearest, ← hquotient, ← hleft]
  rcases lt_trichotomy (2 * left) denominator with hdown | htie | hup
  · have hnear : (left / denominator : ℚ) < 1 / 2 := by
      have hlt : ((2 * left : ℕ) / denominator : ℚ) < 1 :=
        (div_lt_one hpositive).mpr (by exact_mod_cast hdown)
      linarith
    rw [if_pos hdown, add_sub_cancel_left, abs_of_nonneg hsome]
    exact ⟨hnear.le, fun heq ↦ absurd heq hnear.ne⟩
  · have hhalf : (left / denominator : ℚ) = 1 / 2 := by
      have heq : ((2 * left : ℕ) / denominator : ℚ) = 1 := by
        rw [htie, div_self hpositive.ne']
      linarith
    have heven : (quotient + quotient % 2) % 2 = 0 := by omega
    rw [if_neg htie.not_lt, if_neg htie.not_gt, hhalf]
    refine ⟨?_, fun _ ↦ heven⟩
    rcases Nat.mod_two_eq_zero_or_one quotient with hparity | hparity <;> rw [hparity] <;>
      norm_num [abs_of_neg]
  · have hnear : (1 / 2 : ℚ) < left / denominator := by
      have hlt : (1 : ℚ) < (2 * left : ℕ) / denominator :=
        (one_lt_div hpositive).mpr (by exact_mod_cast hup)
      linarith
    have hdistance : |(quotient : ℚ) + left / denominator - (quotient + 1 : ℕ)| < 1 / 2 := by
      push_cast
      exact abs_lt.mpr ⟨by linarith, by linarith⟩
    rw [if_neg hup.not_gt, if_pos hup]
    exact ⟨hdistance.le, fun heq ↦ absurd heq hdistance.ne⟩

/-- Of two whole numbers that a number is at most a half away from, and just a half only where they
are even, neither is greater than the other. -/
theorem le_of_near {number : ℚ} {first second : ℕ}
    (hfirst : |number - first| ≤ 1 / 2 ∧ (|number - first| = 1 / 2 → first % 2 = 0))
    (hsecond : |number - second| ≤ 1 / 2 ∧ (|number - second| = 1 / 2 → second % 2 = 0)) :
    first ≤ second := by
  by_contra hless
  have hnext : (second : ℚ) + 1 ≤ first := by exact_mod_cast not_le.mp hless
  have hlow := (abs_le.mp hfirst.1).1
  have hhigh := (abs_le.mp hsecond.1).2
  have heven := hfirst.2 (by rw [abs_of_nonpos] <;> linarith)
  have heven' := hsecond.2 (by rw [abs_of_nonneg] <;> linarith)
  have hlt : (first : ℚ) < second + 2 := by linarith
  have hlt' : first < second + 2 := by exact_mod_cast hlt
  omega

/-- There is only one whole number that a number is rounded to. -/
theorem eq_of_near {number : ℚ} {first second : ℕ}
    (hfirst : |number - first| ≤ 1 / 2 ∧ (|number - first| = 1 / 2 → first % 2 = 0))
    (hsecond : |number - second| ≤ 1 / 2 ∧ (|number - second| = 1 / 2 → second % 2 = 0)) :
    first = second :=
  le_antisymm (le_of_near hfirst hsecond) (le_of_near hsecond hfirst)

/-- The fraction of a scaled numerator and denominator. -/
theorem scaleDown_div (numerator denominator : ℕ) (power : ℤ) :
    ((scaleDown numerator denominator power).1 / (scaleDown numerator denominator power).2 : ℚ) =
      numerator / denominator / 2 ^ power := by
  cases power with
  | ofNat power => simp [scaleDown, div_div]
  | negSucc power =>
    simp only [scaleDown, Nat.pow_eq, Nat.cast_mul, Nat.cast_pow, Nat.cast_ofNat, zpow_negSucc,
      div_inv_eq_mul]
    ring

/-- The scaled denominator is not zero. -/
theorem scaleDown_snd_pos {numerator denominator : ℕ} (hdenominator : 0 < denominator)
    (power : ℤ) : 0 < (scaleDown numerator denominator power).2 := by
  cases power with
  | ofNat power => exact Nat.mul_pos hdenominator (Nat.pow_pos Nat.two_pos)
  | negSucc power => exact hdenominator

/-- The whole part of a scaled fraction reaches a whole number if the fraction does. -/
theorem le_scaleDown_iff {numerator denominator : ℕ} (hdenominator : 0 < denominator) (power : ℤ)
    (bound : ℕ) :
    bound ≤ (scaleDown numerator denominator power).1 / (scaleDown numerator denominator power).2 ↔
      (bound : ℚ) ≤ numerator / denominator / 2 ^ power := by
  have hpositive : 0 < (scaleDown numerator denominator power).2 :=
    scaleDown_snd_pos hdenominator power
  rw [Nat.le_div_iff_mul_le hpositive, ← scaleDown_div,
    le_div_iff₀ (by exact_mod_cast hpositive)]
  exact_mod_cast Iff.rfl

/-! ### The grid that a fraction is rounded on -/

/-- A fraction lies between the powers of a base next to the difference of the lengths of its parts.
-/
theorem pow_lt_div {base numerator denominator : ℚ} {above below : ℤ} (hbase : 0 < base)
    (hnumerator : base ^ (above - 1) ≤ numerator ∧ numerator < base ^ above)
    (hdenominator : base ^ (below - 1) ≤ denominator ∧ denominator < base ^ below) :
    base ^ (above - below - 1) < numerator / denominator ∧
      numerator / denominator < base ^ (above - below + 1) := by
  have hstep : 0 < base ^ (below - 1) := by positivity
  have hpositive : 0 < denominator := hstep.trans_le hdenominator.1
  constructor
  · rw [lt_div_iff₀ hpositive]
    calc base ^ (above - below - 1) * denominator < base ^ (above - below - 1) * base ^ below :=
          mul_lt_mul_of_pos_left hdenominator.2 (by positivity)
      _ = base ^ (above - 1) := by
          rw [← zpow_add₀ hbase.ne']
          congr 1
          ring
      _ ≤ numerator := hnumerator.1
  · rw [div_lt_iff₀ hpositive]
    calc numerator < base ^ above := hnumerator.2
      _ = base ^ (above - below + 1) * base ^ (below - 1) := by
          rw [← zpow_add₀ hbase.ne']
          congr 1
          ring
      _ ≤ base ^ (above - below + 1) * denominator :=
          mul_le_mul_of_nonneg_left hdenominator.1 (by positivity)

/-- A positive whole number lies between the powers of two next to its number of bits. -/
theorem pow_log2_le {number : ℕ} (hnumber : 0 < number) :
    (2 : ℚ) ^ ((number.log2 + 1 : ℤ) - 1) ≤ number ∧
      (number : ℚ) < 2 ^ (number.log2 + 1 : ℤ) := by
  rw [add_sub_cancel_right]
  constructor
  · exact_mod_cast Nat.log2_self_le hnumber.ne'
  · exact_mod_cast @Nat.lt_log2_self number

/-- A positive fraction lies between the powers of two next to the difference of the numbers of bits
of its parts. -/
theorem pow_log2_lt_div {numerator denominator : ℕ} (hnumerator : 0 < numerator)
    (hdenominator : 0 < denominator) :
    (2 : ℚ) ^ ((numerator.log2 : ℤ) - denominator.log2 - 1) < numerator / denominator ∧
      (numerator / denominator : ℚ) < 2 ^ ((numerator.log2 : ℤ) - denominator.log2 + 1) := by
  have hbetween := pow_lt_div two_pos (pow_log2_le hnumerator) (pow_log2_le hdenominator)
  rwa [add_sub_add_right_eq_sub] at hbetween

/-- A number is rounded to a whole one on the grid of a power of two, where it has fifty-three bits,
or fewer on the finest grid. -/
structure RoundsOn (number : ℚ) (power : ℤ) (fraction : ℕ) : Prop where
  finest : -1074 ≤ power
  lt : number / 2 ^ power < 2 ^ 53
  full : power = -1074 ∨ (2 : ℚ) ^ 52 ≤ number / 2 ^ power
  near : |number / 2 ^ power - fraction| ≤ 1 / 2
  tie : |number / 2 ^ power - fraction| = 1 / 2 → fraction % 2 = 0

namespace RoundsOn

variable {number : ℚ} {power : ℤ} {fraction : ℕ}

/-- All bits are in use, but for the finest grid. -/
theorem le_fraction (hrounds : RoundsOn number power fraction) :
    (power + 1074).toNat = 0 ∨ exponentWeight ≤ fraction := by
  rcases hrounds.full with rfl | hfull
  · exact .inl rfl
  · right
    have hlt : (2 ^ 52 : ℚ) < fraction + 1 := by linarith [(abs_le.mp hrounds.near).2]
    have hlt' : 2 ^ 52 < fraction + 1 := by exact_mod_cast hlt
    rw [exponentWeight]
    omega

/-- There is at most one more than all bits can hold. -/
theorem fraction_le (hrounds : RoundsOn number power fraction) : fraction ≤ 2 * exponentWeight := by
  have hlt : (fraction : ℚ) < 2 ^ 53 + 1 := by
    linarith [(abs_le.mp hrounds.near).1, hrounds.lt]
  have hlt' : fraction < 2 ^ 53 + 1 := by exact_mod_cast hlt
  rw [exponentWeight]
  omega

end RoundsOn

/-- A fraction is rounded on a grid by rounding a quotient of whole numbers. -/
theorem roundsOn_divideToNearest {numerator denominator : ℕ} {power : ℤ}
    (hdenominator : 0 < denominator) (hfinest : -1074 ≤ power)
    (hlt : (numerator / denominator / 2 ^ power : ℚ) < 2 ^ 53)
    (hfull : power = -1074 ∨ (2 : ℚ) ^ 52 ≤ numerator / denominator / 2 ^ power) :
    RoundsOn (numerator / denominator) power
      (divideToNearest (scaleDown numerator denominator power).1
        (scaleDown numerator denominator power).2) := by
  have hscaled : 0 < (scaleDown numerator denominator power).2 :=
    scaleDown_snd_pos hdenominator power
  obtain ⟨hnear, htie⟩ := divideToNearest_near hscaled
  rw [scaleDown_div] at hnear htie
  exact ⟨hfinest, hlt, hfull, hnear, htie⟩

/-- Rounding a positive fraction means rounding it on a grid. -/
theorem exists_roundsOn {numerator denominator : ℕ} (hnumerator : 0 < numerator)
    (hdenominator : 0 < denominator) :
    ∃ power fraction, RoundsOn (numerator / denominator) power fraction ∧
      nearestMagnitude numerator denominator =
        min infinityMagnitude ((power + 1074).toNat * exponentWeight + fraction) := by
  obtain ⟨hlow, hhigh⟩ := pow_log2_lt_div hnumerator hdenominator
  obtain ⟨length, hlength⟩ : ∃ length : ℤ, length = (numerator.log2 : ℤ) - denominator.log2 :=
    ⟨_, rfl⟩
  obtain ⟨start, hstart⟩ : ∃ start : ℤ, start = max (-1074) (length - 53) := ⟨_, rfl⟩
  rw [← hlength] at hlow hhigh
  have hstep : (0 : ℚ) < 2 ^ start := by positivity
  have hnext : (numerator / denominator / 2 ^ (start + 1) : ℚ) =
      numerator / denominator / 2 ^ start / 2 := by
    rw [zpow_add₀ two_ne_zero, zpow_one, div_div _ _ (2 : ℚ)]
  -- On the first grid the fraction has at most fifty-four bits.
  have hwide : (numerator / denominator / 2 ^ start : ℚ) < 2 ^ 54 := by
    rw [div_lt_iff₀ hstep]
    calc (numerator / denominator : ℚ) < 2 ^ (length + 1) := hhigh
      _ ≤ 2 ^ (54 + start) := zpow_le_zpow_right₀ one_le_two (by omega)
      _ = 2 ^ 54 * 2 ^ start := by rw [zpow_add₀ two_ne_zero]; norm_num
  have hmore : 2 * exponentWeight ≤ (scaleDown numerator denominator start).1 /
      (scaleDown numerator denominator start).2 ↔
        (2 : ℚ) ^ 53 ≤ numerator / denominator / 2 ^ start := by
    rw [le_scaleDown_iff hdenominator]
    norm_num [exponentWeight]
  simp only [nearestMagnitude, ← hlength, ← hstart, hmore]
  split
  case isTrue hbits =>
    refine ⟨start + 1, _, roundsOn_divideToNearest hdenominator (by omega) ?_ (.inr ?_), rfl⟩
    · rw [hnext]
      linarith
    · rw [hnext]
      linarith
  case isFalse hbits =>
    refine ⟨start, _, roundsOn_divideToNearest hdenominator (by omega) (not_le.mp hbits) ?_, rfl⟩
    rcases le_or_gt (length - 53) (-1074) with hfinest | hcoarse
    · exact .inl (by omega)
    · right
      rw [le_div_iff₀ hstep]
      calc (2 : ℚ) ^ 52 * 2 ^ start = 2 ^ (52 + start) := by
            rw [zpow_add₀ two_ne_zero]; norm_num
        _ ≤ 2 ^ (length - 1) := zpow_le_zpow_right₀ one_le_two (by omega)
        _ ≤ numerator / denominator := hlow.le

/-! ### The numbers that are read as a floating-point number -/

/-- The unit that an interval is counted in. -/
def Interval.unit (interval : Interval) : ℚ :=
  interval.numerator / interval.denominator

/-- A number lies in an interval, and at one of its ends only if the ends belong to it. -/
def Interval.Covers (interval : Interval) (number : ℚ) : Prop :=
  if interval.closed then
    interval.low * interval.unit ≤ number ∧ number ≤ interval.high * interval.unit
  else interval.low * interval.unit < number ∧ number < interval.high * interval.unit

/-- The whole number that a floating-point number is a multiple by. -/
def significand (magnitude : ℕ) : ℕ :=
  if magnitude / exponentWeight = 0 then magnitude % exponentWeight
  else magnitude % exponentWeight + exponentWeight

/-- The power of two that a floating-point number is a multiple of. -/
def gridPower (magnitude : ℕ) : ℤ :=
  (if magnitude / exponentWeight = 0 then 1 else magnitude / exponentWeight : ℕ) - 1075

/-- The significand has fifty-three bits at most. -/
theorem significand_lt (magnitude : ℕ) : significand magnitude < 2 ^ 53 := by
  rw [significand, exponentWeight]
  split <;> omega

/-- The significand and the grid make up the number. -/
theorem gridPower_significand (magnitude : ℕ) :
    (gridPower magnitude + 1074).toNat * exponentWeight + significand magnitude = magnitude := by
  rw [gridPower, significand, exponentWeight]
  split <;> omega

/-- The finest grid has the power of the smallest numbers. -/
theorem le_gridPower (magnitude : ℕ) : -1074 ≤ gridPower magnitude := by
  rw [gridPower]
  generalize magnitude / exponentWeight = exponent
  split <;> omega

/-- On a coarser grid than the finest one all fifty-three bits are in use. -/
theorem le_significand {magnitude : ℕ} (hcoarse : -1074 < gridPower magnitude) :
    2 ^ 52 ≤ significand magnitude := by
  rw [gridPower] at hcoarse
  rw [significand]
  split at hcoarse
  · omega
  · rw [if_neg ‹_›, exponentWeight]
    norm_num

/-- A number that is not zero has a significand that is not zero. -/
theorem significand_pos {magnitude : ℕ} (hmagnitude : 0 < magnitude) :
    0 < significand magnitude := by
  rw [significand, exponentWeight]
  split <;> omega

/-- The unit of the interval of a number is a quarter of its grid. -/
theorem unit_ofMagnitude (magnitude : ℕ) :
    (Interval.ofMagnitude magnitude).unit = 2 ^ (gridPower magnitude - 2) := by
  have hpower (power : ℤ) :
      ((Nat.pow 2 power.toNat : ℕ) / (Nat.pow 2 (-power).toNat : ℕ) : ℚ) = 2 ^ power := by
    rcases le_total 0 power with hsign | hsign
    · obtain ⟨count, rfl⟩ := Int.eq_ofNat_of_zero_le hsign
      simp
    · obtain ⟨count, hcount⟩ := Int.eq_ofNat_of_zero_le (Int.neg_nonneg.mpr hsign)
      obtain rfl : power = -count := by omega
      simp
  rw [Interval.unit, Interval.ofMagnitude, hpower]
  congr 1
  rw [gridPower]
  omega

/-- The ends of an interval, of which the lower one is nearer to the first of the numbers with
fifty-three bits. -/
theorem ends_ofMagnitude {magnitude : ℕ} (hmagnitude : 0 < magnitude) :
    ∃ below : ℚ, ((Interval.ofMagnitude magnitude).low : ℚ) = 4 * significand magnitude - below ∧
      ((Interval.ofMagnitude magnitude).high : ℚ) = 4 * significand magnitude + 2 ∧
      (below = 2 ∨ below = 1 ∧ significand magnitude = 2 ^ 52 ∧ -1074 < gridPower magnitude) ∧
      (significand magnitude = 2 ^ 52 → -1074 < gridPower magnitude → below = 1) := by
  have hsome := significand_pos hmagnitude
  have hhigh : (Interval.ofMagnitude magnitude).high = 4 * significand magnitude + 2 := rfl
  have hlow : (Interval.ofMagnitude magnitude).low = 4 * significand magnitude -
      (if magnitude % exponentWeight = 0 ∧ 1 < magnitude / exponentWeight then 1 else 2) := rfl
  rw [hhigh, hlow]
  by_cases hfirst : magnitude % exponentWeight = 0 ∧ 1 < magnitude / exponentWeight
  · have hnormal : ¬magnitude / exponentWeight = 0 := by omega
    refine ⟨1, ?_, by push_cast; rfl, Or.inr ⟨rfl, ?_, ?_⟩, fun _ _ ↦ rfl⟩
    · rw [if_pos hfirst, Nat.cast_sub (by omega)]
      push_cast
      rfl
    · rw [significand, if_neg hnormal, hfirst.1, exponentWeight]
      norm_num
    · rw [gridPower, if_neg hnormal]
      omega
  · refine ⟨2, ?_, by push_cast; rfl, Or.inl rfl, fun hbits hcoarse ↦ absurd ⟨?_, ?_⟩ hfirst⟩
    · rw [if_neg hfirst, Nat.cast_sub (by omega)]
      push_cast
      rfl
    · rw [significand] at hbits
      rw [gridPower] at hcoarse
      split at hbits <;> simp_all [exponentWeight]
    · rw [gridPower] at hcoarse
      split at hcoarse <;> omega

/-- Whether an interval covers a number is seen on the grid of the number of the interval. -/
theorem covers_ofMagnitude_iff {magnitude : ℕ} {number below : ℚ}
    (hlow : ((Interval.ofMagnitude magnitude).low : ℚ) = 4 * significand magnitude - below) :
    (Interval.ofMagnitude magnitude).Covers number ↔
      if significand magnitude % 2 = 0 then
        significand magnitude - below / 4 ≤ number / 2 ^ gridPower magnitude ∧
          number / 2 ^ gridPower magnitude ≤ significand magnitude + 1 / 2
      else
        significand magnitude - below / 4 < number / 2 ^ gridPower magnitude ∧
          number / 2 ^ gridPower magnitude < significand magnitude + 1 / 2 := by
  have hstep : (0 : ℚ) < 2 ^ gridPower magnitude := by positivity
  have hunit : (Interval.ofMagnitude magnitude).unit = 2 ^ gridPower magnitude / 4 := by
    rw [unit_ofMagnitude, zpow_sub₀ two_ne_zero]
    norm_num
  have hhigh : ((Interval.ofMagnitude magnitude).high : ℚ) = 4 * significand magnitude + 2 := by
    have hvalue : (Interval.ofMagnitude magnitude).high = 4 * significand magnitude + 2 := rfl
    rw [hvalue]
    push_cast
    rfl
  have hclosed : (Interval.ofMagnitude magnitude).closed =
      decide (significand magnitude % 2 = 0) := rfl
  have hbelow : (4 * significand magnitude - below) * (2 ^ gridPower magnitude / 4) =
      (significand magnitude - below / 4) * 2 ^ gridPower magnitude := by ring
  have habove : (4 * significand magnitude + 2 : ℚ) * (2 ^ gridPower magnitude / 4) =
      (significand magnitude + 1 / 2) * 2 ^ gridPower magnitude := by ring
  rw [Interval.Covers, hlow, hhigh, hunit, hbelow, habove, ← le_div_iff₀ hstep,
    ← div_le_iff₀ hstep, ← lt_div_iff₀ hstep, ← div_lt_iff₀ hstep, hclosed]
  simp only [decide_eq_true_eq]

/-- A number that an interval covers is at most half a step of the grid away from the number of the
interval: just half a step only for an even significand, and less below the first of the numbers
with fifty-three bits. -/
theorem Interval.Covers.near {magnitude : ℕ} {number : ℚ} (hmagnitude : 0 < magnitude)
    (hcovers : (Interval.ofMagnitude magnitude).Covers number) :
    |number / 2 ^ gridPower magnitude - significand magnitude| ≤ 1 / 2 ∧
      (|number / 2 ^ gridPower magnitude - significand magnitude| = 1 / 2 →
        significand magnitude % 2 = 0) ∧
      (significand magnitude = 2 ^ 52 → -1074 < gridPower magnitude →
        (2 ^ 52 - 1 / 4 : ℚ) ≤ number / 2 ^ gridPower magnitude) := by
  obtain ⟨below, hlow, -, hbelow, hquarter⟩ := ends_ofMagnitude hmagnitude
  have hmost : below ≤ 2 := by
    rcases hbelow with rfl | ⟨rfl, _⟩ <;> norm_num
  rw [covers_ofMagnitude_iff hlow] at hcovers
  refine ⟨abs_le.mpr ?_, ?_, ?_⟩
  · split at hcovers <;> constructor <;> linarith [hcovers.1, hcovers.2]
  · intro htie
    by_contra hodd
    rw [if_neg hodd] at hcovers
    have hinside : |number / 2 ^ gridPower magnitude - significand magnitude| < 1 / 2 :=
      abs_lt.mpr ⟨by linarith [hcovers.1], by linarith [hcovers.2]⟩
    exact hinside.ne htie
  · intro hfirst hcoarse
    have hsignificand : (significand magnitude : ℚ) = 2 ^ 52 := by exact_mod_cast hfirst
    rw [hquarter hfirst hcoarse, hsignificand] at hcovers
    split at hcovers <;> linarith [hcovers.1]

/-! ### Rounding back to the number of an interval -/

/-- On a finer grid a number is a greater multiple. -/
theorem div_zpow_eq (number : ℚ) (power other : ℤ) :
    number / 2 ^ other = number / 2 ^ power * 2 ^ (power - other) := by
  have hpower : (0 : ℚ) < 2 ^ power := by positivity
  rw [zpow_sub₀ two_ne_zero]
  field_simp [hpower.ne']

namespace RoundsOn

variable {number : ℚ} {power : ℤ} {fraction magnitude : ℕ}

/-- A number is rounded on no coarser grid than that of a number whose interval covers it. -/
theorem le_gridPower_of_covers (hrounds : RoundsOn number power fraction)
    (hmagnitude : 0 < magnitude) (hcovers : (Interval.ofMagnitude magnitude).Covers number) :
    power ≤ gridPower magnitude := by
  by_contra hcoarser
  have hfinest := le_gridPower magnitude
  have hend := (abs_le.mp (hcovers.near hmagnitude).1).2
  have hsignificand : (significand magnitude : ℚ) + 1 ≤ 2 ^ 53 := by
    exact_mod_cast significand_lt magnitude
  have hfull : (2 : ℚ) ^ 52 ≤ number / 2 ^ power := hrounds.full.resolve_left (by omega)
  have htwice : (2 : ℚ) ≤ 2 ^ (power - gridPower magnitude) := by
    calc (2 : ℚ) = 2 ^ (1 : ℤ) := by norm_num
      _ ≤ 2 ^ (power - gridPower magnitude) := zpow_le_zpow_right₀ one_le_two (by omega)
  have hlarge : (2 : ℚ) ^ 52 * 2 ≤ number / 2 ^ gridPower magnitude := by
    rw [div_zpow_eq number power]
    exact mul_le_mul hfull htwice zero_le_two (by positivity)
  linarith

/-- On a finer grid than that of the number whose interval covers it, a number is just below the
first number with fifty-three bits, and is rounded up to it. -/
theorem of_lt_gridPower (hrounds : RoundsOn number power fraction) (hmagnitude : 0 < magnitude)
    (hcovers : (Interval.ofMagnitude magnitude).Covers number)
    (hfiner : power < gridPower magnitude) :
    power = gridPower magnitude - 1 ∧ significand magnitude = 2 ^ 52 ∧ fraction = 2 ^ 53 := by
  have hfinest := hrounds.finest
  obtain ⟨hnear, -, hfirst⟩ := hcovers.near hmagnitude
  have hall : 2 ^ 52 ≤ significand magnitude := le_significand (by omega)
  have hpart (shift : ℤ) (hshift : power - gridPower magnitude ≤ shift) :
      number / 2 ^ gridPower magnitude < 2 ^ 53 * 2 ^ shift := by
    rw [div_zpow_eq number power]
    calc number / 2 ^ power * 2 ^ (power - gridPower magnitude)
        < 2 ^ 53 * 2 ^ (power - gridPower magnitude) :=
          mul_lt_mul_of_pos_right hrounds.lt (by positivity)
      _ ≤ 2 ^ 53 * 2 ^ shift :=
        mul_le_mul_of_nonneg_left (zpow_le_zpow_right₀ one_le_two hshift) (by norm_num)
  have hhalf : number / 2 ^ gridPower magnitude < 2 ^ 53 / 2 := by
    have hless := hpart (-1) (by omega)
    rwa [zpow_neg_one, ← div_eq_mul_inv] at hless
  have hleast : significand magnitude = 2 ^ 52 := by
    have hlt : (significand magnitude : ℚ) < 2 ^ 52 + 1 := by linarith [(abs_le.mp hnear).1]
    have hlt' : significand magnitude < 2 ^ 52 + 1 := by exact_mod_cast hlt
    omega
  have hclose := hfirst hleast (by omega)
  have hnext : power = gridPower magnitude - 1 := by
    by_contra hfar
    have hquarter := hpart (-2) (by omega)
    norm_num at hquarter hclose
    linarith
  have hdouble : number / 2 ^ power = number / 2 ^ gridPower magnitude * 2 := by
    rw [div_zpow_eq number (gridPower magnitude), hnext, sub_sub_cancel, zpow_one]
  have hwhole : |number / 2 ^ power - (2 ^ 53 : ℕ)| ≤ 1 / 2 := by
    rw [hdouble]
    push_cast
    exact abs_le.mpr ⟨by linarith, by linarith⟩
  exact ⟨hnext, hleast, eq_of_near ⟨hrounds.near, hrounds.tie⟩ ⟨hwhole, fun _ ↦ by norm_num⟩⟩

/-- What a number is rounded to is the number whose interval covers it. -/
theorem eq_of_covers (hrounds : RoundsOn number power fraction) (hmagnitude : 0 < magnitude)
    (hcovers : (Interval.ofMagnitude magnitude).Covers number) :
    (power + 1074).toNat * exponentWeight + fraction = magnitude := by
  have hparts := gridPower_significand magnitude
  have hfinest := hrounds.finest
  rcases (hrounds.le_gridPower_of_covers hmagnitude hcovers).lt_or_eq with hfiner | rfl
  · obtain ⟨hpower, hsignificand, hfraction⟩ :=
      hrounds.of_lt_gridPower hmagnitude hcovers hfiner
    rw [hfraction, ← hparts, hsignificand, hpower, exponentWeight]
    omega
  · obtain ⟨hnear, htie, -⟩ := hcovers.near hmagnitude
    rw [eq_of_near ⟨hrounds.near, hrounds.tie⟩ ⟨hnear, htie⟩, hparts]

end RoundsOn

/-- A fraction that the interval of a number covers is rounded to the number. -/
theorem nearestMagnitude_eq_of_covers {magnitude numerator denominator : ℕ}
    (hmagnitude : 0 < magnitude) (hfinite : magnitude < infinityMagnitude)
    (hnumerator : 0 < numerator) (hdenominator : 0 < denominator)
    (hcovers : (Interval.ofMagnitude magnitude).Covers (numerator / denominator)) :
    nearestMagnitude numerator denominator = magnitude := by
  obtain ⟨power, fraction, hrounds, hform⟩ := exists_roundsOn hnumerator hdenominator
  rw [hform, hrounds.eq_of_covers hmagnitude hcovers, min_eq_right hfinite.le]

end Roster.Binary64
