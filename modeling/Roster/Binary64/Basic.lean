/-!
# Floating-point numbers

A `Binary64` is a double-precision floating-point number given by its 64 bits: the sign, eleven bits
of exponent and fifty-two of fraction. Two numbers are equal here when their bits are, so that the
two zeros differ and a number that is not a number equals itself.

`orderKey` places the numbers on a line: the negative ones before the positive ones, a zero with a
sign before the one without, and what is not a number beyond the infinities at both ends. Different
bits have different places (`orderKey_injective`).
-/

set_option autoImplicit false
set_option relaxedAutoImplicit false

namespace Roster

/-- A double-precision floating-point number, by its bits. -/
structure Binary64 where
  /-- The sign bit, the exponent and the fraction, from the highest bit down. -/
  bits : UInt64
deriving DecidableEq, Inhabited

namespace Binary64

/-- The weight of the sign bit among the 64 bits. -/
def signWeight : Nat := 0x8000000000000000

/-- The weight of the last bit of the exponent, which is one more than the fraction can hold. -/
def exponentWeight : Nat := 0x10000000000000

/-- The bits below the sign, as a number. -/
def magnitude (number : Binary64) : Nat :=
  number.bits.toNat % signWeight

/-- The sign bit is set. -/
def isNegative (number : Binary64) : Bool :=
  signWeight ≤ number.bits.toNat

/-- The bits of the infinity without a sign. -/
def infinityMagnitude : Nat :=
  2047 * exponentWeight

/-- The number with the given sign and the given bits below it. -/
def ofMagnitude (negative : Bool) (magnitude : Nat) : Binary64 :=
  ⟨UInt64.ofNat (magnitude + if negative then signWeight else 0)⟩

/-- The zero without a sign. -/
def zero : Binary64 := ⟨0⟩

/-- An infinity. -/
def infinity (negative : Bool) : Binary64 :=
  ofMagnitude negative infinityMagnitude

/-- The number that is not a number, as a text names it. -/
def notANumber : Binary64 :=
  ofMagnitude false (infinityMagnitude + exponentWeight / 2)

/-- Neither an infinity nor what is not a number. -/
def isFinite (number : Binary64) : Bool :=
  number.magnitude < infinityMagnitude

/-- Not a number. -/
def isNotANumber (number : Binary64) : Bool :=
  infinityMagnitude < number.magnitude

/-- Equality of values: the two zeros are equal, and so are any two that are not a number. -/
def sameValue (first second : Binary64) : Bool :=
  (first.isNotANumber && second.isNotANumber) ||
    (!first.isNotANumber && !second.isNotANumber &&
      (first == second || (first.magnitude == 0 && second.magnitude == 0)))

/-- The place of a number in the total order of all bit patterns. -/
def orderKey (number : Binary64) : Int :=
  if number.isNegative then -(number.magnitude : Int) - 1 else number.magnitude

theorem orderKey_injective {first second : Binary64} (same : first.orderKey = second.orderKey) :
    first = second := by
  have bits_first := first.bits.toNat_lt
  have bits_second := second.bits.toNat_lt
  have bits_eq : first.bits.toNat = second.bits.toNat := by
    simp only [orderKey, isNegative, magnitude, decide_eq_true_eq] at same
    unfold signWeight at same
    split at same <;> split at same <;> omega
  cases first
  cases second
  simpa [UInt64.toNat_inj] using bits_eq

end Binary64

end Roster
