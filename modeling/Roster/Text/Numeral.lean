/-!
# Numbers written with digits

`numberInBase?` is the number that digits of a base up to sixteen make, `isWithinBits` says how many
bits a number needs, and `characterOfNumber?` is the character that a number stands for.
-/

set_option autoImplicit false
set_option relaxedAutoImplicit false

namespace Roster.Text

/-- The value of a digit in bases up to sixteen; sixteen for any other character. -/
def digitValue (digit : Char) : Nat :=
  if digit.isDigit then digit.toNat - '0'.toNat
  else if 'a' ≤ digit && digit ≤ 'f' then digit.toNat - 'a'.toNat + 10
  else if 'A' ≤ digit && digit ≤ 'F' then digit.toNat - 'A'.toNat + 10
  else 16

/-- A digit of a base. -/
def isDigitOf (base : Nat) (digit : Char) : Bool :=
  digitValue digit < base

/-- The number that digits of a base make; nothing without digits or with other characters. -/
def numberInBase? (base : Nat) (digits : List Char) : Option Nat :=
  if digits.isEmpty || !digits.all (isDigitOf base) then none
  else some (digits.foldl (fun value digit ↦ value * base + digitValue digit) 0)

/-- Whether a number fits into some bits, and below zero into some others beside the sign. -/
def isWithinBits (negative positive : Nat) (number : Int) : Bool :=
  -(Nat.pow 2 negative : Int) ≤ number && number < Nat.pow 2 positive

/-- The character of a number, unless it is a surrogate or too big. -/
def characterOfNumber? (number : Nat) : Option Char :=
  if (0xd800 ≤ number && number ≤ 0xdfff) || 0x10ffff < number then none
  else some (Char.ofNat number)

end Roster.Text
