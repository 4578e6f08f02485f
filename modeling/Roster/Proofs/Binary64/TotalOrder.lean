import Roster.Binary64.Basic

/-!
# The total order of floating-point numbers

Numbers are ordered by their bits: the negative ones come before the others, among the others the
bits below the sign count upwards, and among the negative ones downwards (`Binary64.TotalLe`). The
infinities are thus at the ends of all numbers that are finite, what is not a number is beyond them,
and the zero with a sign is before the one without.

This is what the places of the numbers on a line say (`Binary64.totalLe_iff`), so that any two
numbers come in some order, and in both orders only if their bits are the same.
-/

set_option autoImplicit false
set_option relaxedAutoImplicit false

namespace Roster.Binary64

/-- A number comes before another one in the order of all bit patterns, or has the same bits. -/
inductive TotalLe (first second : Binary64) : Prop
  /-- A negative number comes before one without a sign. -/
  | signs (hfirst : first.isNegative = true) (hsecond : second.isNegative = false)
  /-- Without signs the smaller magnitude comes first. -/
  | rising (hfirst : first.isNegative = false) (hsecond : second.isNegative = false)
      (hle : first.magnitude ≤ second.magnitude)
  /-- With signs the larger magnitude comes first. -/
  | falling (hfirst : first.isNegative = true) (hsecond : second.isNegative = true)
      (hle : second.magnitude ≤ first.magnitude)

variable {first second third : Binary64}

/-- Numbers come in the order of their places. -/
theorem totalLe_iff : first.TotalLe second ↔ first.orderKey ≤ second.orderKey := by
  rw [orderKey, orderKey]
  constructor
  · rintro (⟨hfirst, hsecond⟩ | ⟨hfirst, hsecond, hle⟩ | ⟨hfirst, hsecond, hle⟩) <;>
      simp only [hfirst, hsecond, if_true, Bool.false_eq_true, if_false] <;> omega
  · intro hle
    cases hfirst : first.isNegative <;> cases hsecond : second.isNegative <;>
      simp only [hfirst, hsecond, if_true, Bool.false_eq_true, if_false] at hle
    · exact .rising hfirst hsecond (by omega)
    · omega
    · exact .signs hfirst hsecond
    · exact .falling hfirst hsecond (by omega)

instance (first second : Binary64) : Decidable (first.TotalLe second) :=
  decidable_of_iff _ totalLe_iff.symm

theorem TotalLe.trans (hfirst : first.TotalLe second) (hsecond : second.TotalLe third) :
    first.TotalLe third :=
  totalLe_iff.mpr (Int.le_trans (totalLe_iff.mp hfirst) (totalLe_iff.mp hsecond))

theorem totalLe_total (first second : Binary64) : first.TotalLe second ∨ second.TotalLe first :=
  (Int.le_total first.orderKey second.orderKey).imp totalLe_iff.mpr totalLe_iff.mpr

theorem totalLe_self (number : Binary64) : number.TotalLe number :=
  totalLe_iff.mpr (Int.le_refl _)

/-- Numbers that come in both orders have the same bits. -/
theorem TotalLe.antisymm (hle : first.TotalLe second) (hge : second.TotalLe first) :
    first = second :=
  orderKey_injective (Int.le_antisymm (totalLe_iff.mp hle) (totalLe_iff.mp hge))

end Roster.Binary64
