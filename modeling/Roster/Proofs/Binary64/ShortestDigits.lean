import Roster.Proofs.Binary64.NearestNumber

/-!
# The digits that a floating-point number is written with

A positive finite number is written with digits that its interval covers
(`shortestDigits_covers`), so that they are read as the number again
(`magnitudeOfDecimal_eq_of_covers`).

The grids of decimal numbers are tried up to seventeen digits. The last of them always has a point
in the interval (`exists_nearestOnGrid`): a step of it is less than four units, so that one of the
two points around the number is less than two units away, and even less than one where the interval
reaches down one unit only.
-/

set_option autoImplicit false
set_option relaxedAutoImplicit false

namespace Roster.Binary64

/-! ### Powers of ten -/

/-- A power of ten is the fraction that stands for it. -/
theorem tenTo_div (exponent : ℤ) :
    ((tenTo exponent).1 / (tenTo exponent).2 : ℚ) = 10 ^ exponent := by
  rcases le_total 0 exponent with hsign | hsign
  · obtain ⟨count, rfl⟩ := Int.eq_ofNat_of_zero_le hsign
    simp [tenTo]
  · obtain ⟨count, hcount⟩ := Int.eq_ofNat_of_zero_le (Int.neg_nonneg.mpr hsign)
    obtain rfl : exponent = -count := by omega
    simp [tenTo]

theorem tenTo_fst_pos (exponent : ℤ) : 0 < (tenTo exponent).1 :=
  Nat.pow_pos (by norm_num)

theorem tenTo_snd_pos (exponent : ℤ) : 0 < (tenTo exponent).2 :=
  Nat.pow_pos (by norm_num)

/-- A whole number lies between the powers of ten next to its number of digits. -/
theorem pow_length_toDigits {number : ℕ} (hnumber : 0 < number) :
    (10 : ℚ) ^ (((Nat.toDigits 10 number).length : ℤ) - 1) ≤ number ∧
      (number : ℚ) < 10 ^ ((Nat.toDigits 10 number).length : ℤ) := by
  obtain ⟨length, hlength⟩ : ∃ length, (Nat.toDigits 10 number).length = length + 1 :=
    Nat.exists_eq_add_one.mpr Nat.length_toDigits_pos
  have hhigh : number < 10 ^ (length + 1) :=
    (Nat.length_toDigits_le_iff (by norm_num) (Nat.succ_pos length)).mp hlength.le
  have hlow : 10 ^ length ≤ number := by
    rcases Nat.eq_zero_or_pos length with rfl | hmore
    · exact hnumber
    · by_contra hless
      have := (Nat.length_toDigits_le_iff (by norm_num) hmore).mpr (not_le.mp hless)
      omega
  rw [hlength]
  refine ⟨?_, by exact_mod_cast hhigh⟩
  simpa using (by exact_mod_cast hlow : (10 : ℚ) ^ length ≤ number)

/-! ### The points of a decimal grid -/

variable {interval : Interval}

/-- The test for the numbers of an interval decides whether the interval covers a decimal number. -/
theorem Interval.contains_iff (hdenominator : 0 < interval.denominator) {digits : ℕ}
    {exponent : ℤ} :
    interval.contains digits exponent = true ↔ interval.Covers (digits * 10 ^ exponent) := by
  have htenth : (0 : ℚ) < (tenTo exponent).2 := by exact_mod_cast tenTo_snd_pos exponent
  have hbottom : (0 : ℚ) < interval.denominator := by exact_mod_cast hdenominator
  have hleft (bound : ℕ) : (bound * interval.unit ≤ digits * 10 ^ exponent ↔
      bound * interval.numerator * (tenTo exponent).2 ≤
        digits * (tenTo exponent).1 * interval.denominator) := by
    rw [Interval.unit, ← tenTo_div, ← mul_div_assoc, ← mul_div_assoc,
      div_le_div_iff₀ hbottom htenth]
    exact_mod_cast Iff.rfl
  have hright (bound : ℕ) : (digits * 10 ^ exponent ≤ bound * interval.unit ↔
      digits * (tenTo exponent).1 * interval.denominator ≤
        bound * interval.numerator * (tenTo exponent).2) := by
    rw [Interval.unit, ← tenTo_div, ← mul_div_assoc, ← mul_div_assoc,
      div_le_div_iff₀ htenth hbottom]
    exact_mod_cast Iff.rfl
  rcases hten : tenTo exponent with ⟨ten, tenth⟩
  simp only [hten] at hleft hright
  have hless (bound : ℕ) := lt_iff_lt_of_le_iff_le (hright bound)
  have hmore (bound : ℕ) := lt_iff_lt_of_le_iff_le (hleft bound)
  simp only [Interval.Covers, Interval.contains, hten, hleft, hright, hless, hmore]
  split <;> simp

/-- A point that is found on a grid is in the interval. -/
theorem Interval.covers_of_nearestOnGrid (hdenominator : 0 < interval.denominator) {digits : ℕ}
    {exponent : ℤ} (hfound : interval.nearestOnGrid exponent = some digits) :
    interval.Covers (digits * 10 ^ exponent) := by
  rw [← Interval.contains_iff hdenominator]
  simp only [Interval.nearestOnGrid] at hfound
  grind

/-- A number less than some units away from the number of an interval is covered. -/
theorem Interval.covers_of_near {reach number : ℚ}
    (hlow : (interval.low : ℚ) = interval.value - reach)
    (hhigh : (interval.high : ℚ) = interval.value + 2) (hreach : reach ≤ 2)
    (hunit : 0 < interval.unit)
    (hnear : |number - interval.value * interval.unit| < reach * interval.unit) :
    interval.Covers number := by
  have hends := abs_lt.mp hnear
  have hmost : reach * interval.unit ≤ 2 * interval.unit :=
    mul_le_mul_of_nonneg_right hreach hunit.le
  rw [Interval.Covers, hlow, hhigh, sub_mul, add_mul]
  split <;> constructor <;> linarith [hends.1, hends.2]

/-- The number of an interval lies between two points of a grid next to each other. If one of them
is in the interval, a point is found. -/
theorem Interval.exists_pointsAround (hnumerator : 0 < interval.numerator)
    (hdenominator : 0 < interval.denominator) (exponent : ℤ) :
    ∃ below : ℕ, below * 10 ^ exponent ≤ interval.value * interval.unit ∧
      interval.value * interval.unit < (below + 1 : ℕ) * 10 ^ exponent ∧
      (interval.Covers (below * 10 ^ exponent) ∨
          interval.Covers ((below + 1 : ℕ) * 10 ^ exponent) →
        ∃ digits, interval.nearestOnGrid exponent = some digits) := by
  rcases hten : tenTo exponent with ⟨ten, tenth⟩
  obtain ⟨below, hbelow⟩ : ∃ below,
      below = interval.value * interval.numerator * tenth / (ten * interval.denominator) := ⟨_, rfl⟩
  have htop : (0 : ℚ) < interval.numerator := by exact_mod_cast hnumerator
  have hbottom : (0 : ℚ) < interval.denominator := by exact_mod_cast hdenominator
  have hgrid : (0 : ℚ) < 10 ^ exponent := by positivity
  have hten' : (0 : ℚ) < ten := by exact_mod_cast hten ▸ tenTo_fst_pos exponent
  have htenth : (0 : ℚ) < tenth := by exact_mod_cast hten ▸ tenTo_snd_pos exponent
  have hdivide : (ten / tenth : ℚ) = 10 ^ exponent := by
    simpa only [hten] using tenTo_div exponent
  have hquotient : (interval.value * interval.numerator * tenth : ℕ) /
      (ten * interval.denominator : ℕ) = interval.value * interval.unit / 10 ^ exponent := by
    rw [← hdivide, Interval.unit]
    push_cast
    field_simp
  have hstep' : 0 < ten * interval.denominator := Nat.mul_pos (by exact_mod_cast hten') hdenominator
  refine ⟨below, ?_, ?_, fun hfits ↦ ?_⟩
  · rw [← le_div_iff₀ hgrid, ← hquotient, hbelow]
    exact Nat.cast_div_le
  · have hless := (Nat.lt_mul_div_succ (interval.value * interval.numerator * tenth)
      hstep').trans_eq (mul_comm _ _)
    rw [← div_lt_iff₀ hgrid, ← hquotient, hbelow, div_lt_iff₀ (by exact_mod_cast hstep')]
    exact_mod_cast hless
  · rw [← Interval.contains_iff hdenominator, ← Interval.contains_iff hdenominator] at hfits
    simp only [Interval.nearestOnGrid, hten, ← hbelow]
    cases hunder : interval.contains below exponent <;>
      cases hover : interval.contains (below + 1) exponent
    · simp [hunder, hover] at hfits
    · exact ⟨below + 1, by simp⟩
    · exact ⟨below, by simp⟩
    · rw [Bool.and_self, if_pos rfl]
      split <;> exact ⟨_, rfl⟩

/-- A grid has a point in the interval if a step of it is short enough. -/
theorem Interval.exists_nearestOnGrid (hnumerator : 0 < interval.numerator)
    (hdenominator : 0 < interval.denominator) {exponent : ℤ} {reach : ℚ}
    (hlow : (interval.low : ℚ) = interval.value - reach)
    (hhigh : (interval.high : ℚ) = interval.value + 2) (hreach : reach ≤ 2)
    (hstep : (10 : ℚ) ^ exponent < 2 * (reach * interval.unit)) :
    ∃ digits, interval.nearestOnGrid exponent = some digits := by
  have hunit : 0 < interval.unit :=
    div_pos (by exact_mod_cast hnumerator) (by exact_mod_cast hdenominator)
  obtain ⟨below, hfloor, hceil, hfound⟩ :=
    Interval.exists_pointsAround hnumerator hdenominator exponent
  refine hfound ?_
  push_cast at hceil ⊢
  rcases le_or_gt (interval.value * interval.unit - below * 10 ^ exponent) (10 ^ exponent / 2)
    with hunder | hover
  · left
    exact Interval.covers_of_near hlow hhigh hreach hunit
      (abs_lt.mpr ⟨by linarith, by linarith⟩)
  · right
    exact Interval.covers_of_near hlow hhigh hreach hunit
      (abs_lt.mpr ⟨by linarith, by linarith⟩)

/-! ### The grids that are tried -/

/-- The number of an interval lies between two powers of ten next to each other. -/
theorem Interval.pow_decimalExponent (hvalue : 0 < interval.value)
    (hnumerator : 0 < interval.numerator) (hdenominator : 0 < interval.denominator) :
    (10 : ℚ) ^ (interval.decimalExponent - 1) ≤ interval.value * interval.unit ∧
      interval.value * interval.unit < 10 ^ interval.decimalExponent := by
  obtain ⟨estimate, hestimate⟩ : ∃ estimate : ℤ, estimate =
      (Nat.toDigits 10 (interval.value * interval.numerator)).length -
        (Nat.toDigits 10 interval.denominator).length := ⟨_, rfl⟩
  have hpositive : (0 : ℚ) < interval.denominator := by exact_mod_cast hdenominator
  have hnumber : interval.value * interval.unit =
      (interval.value * interval.numerator : ℕ) / interval.denominator := by
    rw [Interval.unit]
    push_cast
    ring
  obtain ⟨hlow, hhigh⟩ := pow_lt_div (by norm_num)
    (pow_length_toDigits (Nat.mul_pos hvalue hnumerator)) (pow_length_toDigits hdenominator)
  rw [← hestimate, ← hnumber] at hlow hhigh
  rcases hten : tenTo estimate with ⟨ten, tenth⟩
  have htenth : (0 : ℚ) < tenth := by exact_mod_cast hten ▸ tenTo_snd_pos estimate
  have hdivide : (ten / tenth : ℚ) = 10 ^ estimate := by
    simpa only [hten] using tenTo_div estimate
  have hreached : ten * interval.denominator ≤ interval.value * interval.numerator * tenth ↔
      (10 : ℚ) ^ estimate ≤ interval.value * interval.unit := by
    rw [hnumber, ← hdivide, div_le_div_iff₀ htenth hpositive]
    exact_mod_cast Iff.rfl
  have hexponent : interval.decimalExponent =
      if (10 : ℚ) ^ estimate ≤ interval.value * interval.unit then estimate + 1 else estimate := by
    simp only [Interval.decimalExponent, ← hestimate, hten, hreached]
  rw [hexponent]
  split
  · exact ⟨by simpa using ‹_›, hhigh⟩
  · exact ⟨hlow.le, not_le.mp ‹_›⟩

/-- Dropping zeros at the end does not change the number. -/
theorem dropZeros_value (fuel digits : ℕ) (exponent : ℤ) :
    ((dropZeros fuel digits exponent).1 * 10 ^ (dropZeros fuel digits exponent).2 : ℚ) =
      digits * 10 ^ exponent := by
  induction fuel generalizing digits exponent with
  | zero => rfl
  | succ fuel ih =>
    rw [dropZeros]
    split
    · next hzero =>
      obtain ⟨front, rfl⟩ := Nat.dvd_of_mod_eq_zero hzero
      rw [ih, Nat.mul_div_cancel_left front (by norm_num), zpow_add₀ (by norm_num)]
      push_cast
      ring
    · rfl

/-- A number and its interval are counted in positive units. -/
theorem parts_ofMagnitude_pos {magnitude : ℕ} (hmagnitude : 0 < magnitude) :
    0 < (Interval.ofMagnitude magnitude).value ∧ 0 < (Interval.ofMagnitude magnitude).numerator ∧
      0 < (Interval.ofMagnitude magnitude).denominator := by
  have hvalue : (Interval.ofMagnitude magnitude).value = 4 * significand magnitude := rfl
  have hsome := significand_pos hmagnitude
  exact ⟨by omega, Nat.pow_pos Nat.two_pos, Nat.pow_pos Nat.two_pos⟩

/-- With seventeen digits there always is a decimal number in the interval of a number. -/
theorem exists_nearestOnGrid_seventeen {magnitude : ℕ} (hmagnitude : 0 < magnitude) :
    ∃ digits, (Interval.ofMagnitude magnitude).nearestOnGrid
      ((Interval.ofMagnitude magnitude).decimalExponent - 17) = some digits := by
  obtain ⟨hvalue, hnumerator, hdenominator⟩ := parts_ofMagnitude_pos hmagnitude
  obtain ⟨reach, hlow, hhigh, hreach, _⟩ := ends_ofMagnitude hmagnitude
  have hcount : ((Interval.ofMagnitude magnitude).value : ℚ) = 4 * significand magnitude := by
    have : (Interval.ofMagnitude magnitude).value = 4 * significand magnitude := rfl
    rw [this]
    push_cast
    rfl
  rw [← hcount] at hlow hhigh
  have hmost : reach ≤ 2 := by
    rcases hreach with rfl | ⟨rfl, _⟩ <;> norm_num
  refine Interval.exists_nearestOnGrid hnumerator hdenominator hlow hhigh hmost ?_
  have hunit : 0 < (Interval.ofMagnitude magnitude).unit :=
    div_pos (by exact_mod_cast hnumerator) (by exact_mod_cast hdenominator)
  have hlength := (Interval.pow_decimalExponent hvalue hnumerator hdenominator).1
  -- Sixteen digits more than the first one make a step less than twice as long as the reach.
  have hbits : (significand magnitude : ℚ) < 10 ^ 16 / 2 * reach := by
    rcases hreach with rfl | ⟨rfl, hfirst, _⟩
    · have : (significand magnitude : ℚ) < 2 ^ 53 := by exact_mod_cast significand_lt magnitude
      norm_num at this ⊢
      linarith
    · rw [hfirst]
      norm_num
  calc (10 : ℚ) ^ ((Interval.ofMagnitude magnitude).decimalExponent - 17)
      = 10 ^ ((Interval.ofMagnitude magnitude).decimalExponent - 1) / 10 ^ 16 := by
        rw [← zpow_natCast, ← zpow_sub₀ (by norm_num)]
        congr 1
        push_cast
        ring
    _ ≤ (Interval.ofMagnitude magnitude).value * (Interval.ofMagnitude magnitude).unit / 10 ^ 16 :=
        div_le_div_of_nonneg_right hlength (by norm_num)
    _ = 4 * significand magnitude / 10 ^ 16 * (Interval.ofMagnitude magnitude).unit := by
        rw [hcount]
        ring
    _ < 2 * reach * (Interval.ofMagnitude magnitude).unit := by
        refine mul_lt_mul_of_pos_right ?_ hunit
        rw [div_lt_iff₀ (by norm_num)]
        linarith
    _ = 2 * (reach * (Interval.ofMagnitude magnitude).unit) := by ring

/-- The digits that a positive finite number is written with are those of the first grid with a
point in its interval, without the zeros at their end. -/
theorem exists_shortestDigits_eq {magnitude : ℕ} (hmagnitude : 0 < magnitude) :
    ∃ digits exponent, shortestDigits magnitude = dropZeros 17 digits exponent ∧
      (Interval.ofMagnitude magnitude).nearestOnGrid exponent = some digits ∧
      (Interval.ofMagnitude magnitude).decimalExponent - 17 ≤ exponent ∧
      ∀ coarser, exponent < coarser →
        coarser < (Interval.ofMagnitude magnitude).decimalExponent →
        (Interval.ofMagnitude magnitude).nearestOnGrid coarser = none := by
  rw [shortestDigits]
  generalize htop : (Interval.ofMagnitude magnitude).decimalExponent = top
  split
  · next digits exponent hfound =>
    obtain ⟨before, count, after, hrange, hcount, hnone⟩ := List.findSome?_eq_some_iff.mp hfound
    obtain ⟨found, hpoint, hpair⟩ := Option.map_eq_some_iff.mp hcount
    obtain ⟨rfl, rfl⟩ := Prod.mk.inj hpair
    have hindex : (List.range 17)[before.length]? = some count := by
      rw [hrange]
      simp
    obtain ⟨hlt, rfl⟩ : before.length < 17 ∧ before.length = count := by
      rw [List.getElem?_eq_some_iff] at hindex
      simpa using hindex
    have hbefore : before = List.range before.length := by
      have htake := congrArg (List.take before.length) hrange
      rw [List.take_left, List.take_range, Nat.min_eq_left hlt.le] at htake
      exact htake.symm
    refine ⟨found, _, rfl, hpoint, by omega, fun coarser hcoarser hless ↦ ?_⟩
    have hmem : (top - 1 - coarser).toNat ∈ before := by
      rw [hbefore, List.mem_range]
      omega
    have hgrid : top - ((top - 1 - coarser).toNat + 1 : ℕ) = coarser := by omega
    have hmissing := hnone _ hmem
    rwa [Option.map_eq_none_iff, hgrid] at hmissing
  · next hmissing =>
    obtain ⟨digits, hdigits⟩ := exists_nearestOnGrid_seventeen hmagnitude
    have hlast := List.findSome?_eq_none_iff.mp hmissing 16 (by simp)
    simp only [Option.map_eq_none_iff] at hlast
    norm_num at hlast
    rw [htop, hlast] at hdigits
    cases hdigits

/-- The digits that a positive finite number is written with are in its interval. -/
theorem shortestDigits_covers {magnitude : ℕ} (hmagnitude : 0 < magnitude) :
    (Interval.ofMagnitude magnitude).Covers
      ((shortestDigits magnitude).1 * 10 ^ (shortestDigits magnitude).2) := by
  obtain ⟨_, _, hdenominator⟩ := parts_ofMagnitude_pos hmagnitude
  obtain ⟨digits, exponent, hshortest, hpoint, -, -⟩ := exists_shortestDigits_eq hmagnitude
  rw [hshortest, dropZeros_value]
  exact Interval.covers_of_nearestOnGrid hdenominator hpoint

/-! ### Reading the digits -/

/-- Half the smallest floating-point number is more than a power of ten. -/
theorem pow_ten_lt_smallest : (10 : ℚ) ^ (-400 : ℤ) < 1 / 2 * 2 ^ (-1074 : ℤ) := by
  have hpowers : (2 : ℚ) ^ 1075 < 10 ^ 400 := by
    exact_mod_cast (by decide +kernel : 2 ^ 1075 < 10 ^ 400)
  calc (10 : ℚ) ^ (-400 : ℤ) = (10 ^ 400)⁻¹ := by rw [zpow_neg]; rfl
    _ < (2 ^ 1075)⁻¹ := (inv_lt_inv₀ (by positivity) (by positivity)).mpr hpowers
    _ = (2 ^ 1 * 2 ^ 1074)⁻¹ := by rw [← pow_add]
    _ = 1 / 2 * 2 ^ (-1074 : ℤ) := by rw [mul_inv, zpow_neg, one_div, pow_one]; rfl

/-- No floating-point number reaches a power of ten. -/
theorem largest_lt_pow_ten : (2 : ℚ) ^ 53 * 2 ^ (971 : ℤ) < 10 ^ (399 : ℤ) := by
  have hpowers : (2 : ℚ) ^ 1024 < 10 ^ 399 := by
    exact_mod_cast (by decide +kernel : 2 ^ 1024 < 10 ^ 399)
  calc (2 : ℚ) ^ 53 * 2 ^ (971 : ℤ) = 2 ^ (53 + 971) := (pow_add _ _ _).symm
    _ < 10 ^ 399 := hpowers

/-- The numbers of the interval of a positive finite number are neither too big nor too small to be
read. -/
theorem Interval.Covers.bounds {magnitude : ℕ} {number : ℚ} (hmagnitude : 0 < magnitude)
    (hfinite : magnitude < infinityMagnitude)
    (hcovers : (Interval.ofMagnitude magnitude).Covers number) :
    (10 : ℚ) ^ (-400 : ℤ) < number ∧ number < 10 ^ (399 : ℤ) := by
  obtain ⟨hnear, _, _⟩ := hcovers.near hmagnitude
  have hends := abs_le.mp hnear
  have hgrid : (0 : ℚ) < 2 ^ gridPower magnitude := by positivity
  have hsome : (1 : ℚ) ≤ significand magnitude := by
    exact_mod_cast significand_pos hmagnitude
  have hbits : (significand magnitude : ℚ) + 1 ≤ 2 ^ 53 := by
    exact_mod_cast significand_lt magnitude
  have hcoarsest : gridPower magnitude ≤ 971 := by
    rw [gridPower]
    rw [infinityMagnitude] at hfinite
    split <;> rw [exponentWeight] at * <;> omega
  have hlow : (1 / 2 : ℚ) * 2 ^ gridPower magnitude ≤ number := by
    rw [← le_div_iff₀ hgrid]
    linarith [hends.1]
  have hhigh : number < 2 ^ 53 * 2 ^ gridPower magnitude := by
    rw [← div_lt_iff₀ hgrid]
    linarith [hends.2]
  constructor
  · calc (10 : ℚ) ^ (-400 : ℤ) < 1 / 2 * 2 ^ (-1074 : ℤ) := pow_ten_lt_smallest
      _ ≤ 1 / 2 * 2 ^ gridPower magnitude :=
        mul_le_mul_of_nonneg_left (zpow_le_zpow_right₀ one_le_two (le_gridPower magnitude))
          (by norm_num)
      _ ≤ number := hlow
  · calc number < 2 ^ 53 * 2 ^ gridPower magnitude := hhigh
      _ ≤ 2 ^ 53 * 2 ^ (971 : ℤ) :=
        mul_le_mul_of_nonneg_left (zpow_le_zpow_right₀ one_le_two hcoarsest) (by norm_num)
      _ < 10 ^ (399 : ℤ) := largest_lt_pow_ten

/-- A decimal number in the interval of a number is read as the number. -/
theorem magnitudeOfDecimal_eq_of_covers {magnitude digits : ℕ} {exponent : ℤ}
    (hmagnitude : 0 < magnitude) (hfinite : magnitude < infinityMagnitude)
    (hcovers : (Interval.ofMagnitude magnitude).Covers (digits * 10 ^ exponent)) :
    magnitudeOfDecimal digits exponent = magnitude := by
  obtain ⟨hlow, hhigh⟩ := hcovers.bounds hmagnitude hfinite
  have hsome : 0 < digits := by
    refine Nat.pos_of_ne_zero fun hzero ↦ ?_
    rw [hzero, Nat.cast_zero, zero_mul] at hlow
    exact hlow.not_ge (by positivity)
  obtain ⟨hlength, hlength'⟩ := pow_length_toDigits hsome
  obtain ⟨length, hcount⟩ : ∃ length : ℤ, length = (Nat.toDigits 10 digits).length := ⟨_, rfl⟩
  rw [← hcount] at hlength hlength'
  have hbig : ¬400 < length + exponent := by
    have : (10 : ℚ) ^ (length - 1 + exponent) < 10 ^ (399 : ℤ) := by
      calc (10 : ℚ) ^ (length - 1 + exponent) = 10 ^ (length - 1) * 10 ^ exponent :=
            zpow_add₀ (by norm_num) _ _
        _ ≤ digits * 10 ^ exponent := mul_le_mul_of_nonneg_right hlength (by positivity)
        _ < 10 ^ (399 : ℤ) := hhigh
    have := (zpow_lt_zpow_iff_right₀ (by norm_num : (1 : ℚ) < 10)).mp this
    omega
  have hsmall : ¬length + exponent < -400 := by
    have : (10 : ℚ) ^ (-400 : ℤ) < 10 ^ (length + exponent) := by
      calc (10 : ℚ) ^ (-400 : ℤ) < digits * 10 ^ exponent := hlow
        _ ≤ 10 ^ length * 10 ^ exponent := mul_le_mul_of_nonneg_right hlength'.le (by positivity)
        _ = 10 ^ (length + exponent) := (zpow_add₀ (by norm_num) _ _).symm
    have := (zpow_lt_zpow_iff_right₀ (by norm_num : (1 : ℚ) < 10)).mp this
    omega
  simp only [magnitudeOfDecimal, if_neg hsome.ne', ← hcount, if_neg hbig, if_neg hsmall]
  split
  · refine nearestMagnitude_eq_of_covers hmagnitude hfinite
      (Nat.mul_pos hsome (Nat.pow_pos (by norm_num))) Nat.one_pos ?_
    simpa using hcovers
  · refine nearestMagnitude_eq_of_covers hmagnitude hfinite hsome (Nat.pow_pos (by norm_num)) ?_
    simpa [zpow_negSucc, div_eq_mul_inv] using hcovers

end Roster.Binary64
