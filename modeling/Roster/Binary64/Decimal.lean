import Roster.Binary64.Basic

/-!
# Reading decimal numbers

`Binary64.ofDecimal?` reads a number written with decimal digits: an optional sign, digits with an
optional point among them, and an optional exponent. The result is the floating-point number nearest
to the written one; of two that are equally near it is the one whose last bit is zero. A number too
big for any of them gives an infinity.

The work is done in whole numbers. `nearestMagnitude` rounds a fraction of two of them, and its
result is the exponent and the fraction of the answer in one: counting up through it walks through
the floating-point numbers in order.
-/

set_option autoImplicit false
set_option relaxedAutoImplicit false

namespace Roster.Binary64

/-- A quotient rounded to the nearest whole number, a half going to the even one. -/
def divideToNearest (numerator denominator : Nat) : Nat :=
  let quotient := numerator / denominator
  let twice := 2 * (numerator % denominator)
  if twice < denominator then quotient
  else if denominator < twice then quotient + 1
  else quotient + quotient % 2

/-- The numerator and denominator of a fraction divided by a power of two. -/
def scaleDown (numerator denominator : Nat) (power : Int) : Nat × Nat :=
  match power with
  | .ofNat power => (numerator, denominator * Nat.pow 2 power)
  | .negSucc power => (numerator * Nat.pow 2 (power + 1), denominator)

/-- The bits below the sign of the floating-point number nearest to a positive fraction, capped at
those of the infinity. -/
def nearestMagnitude (numerator denominator : Nat) : Nat :=
  let start := max (-1074) ((numerator.log2 : Int) - denominator.log2 - 53)
  let (wide, wideDenominator) := scaleDown numerator denominator start
  let power := if 2 * exponentWeight ≤ wide / wideDenominator then start + 1 else start
  let (scaled, scaledDenominator) := scaleDown numerator denominator power
  let fraction := divideToNearest scaled scaledDenominator
  min infinityMagnitude ((power + 1074).toNat * exponentWeight + fraction)

/-- The magnitude of the floating-point number nearest to `digits · 10 ^ exponent`. Exponents far
outside the range are settled by the number of digits alone. -/
def magnitudeOfDecimal (digits : Nat) (exponent : Int) : Nat :=
  if digits = 0 then 0
  else
    let length : Int := (Nat.toDigits 10 digits).length
    if 400 < length + exponent then infinityMagnitude
    else if length + exponent < -400 then 0
    else
      match exponent with
      | .ofNat exponent => nearestMagnitude (digits * Nat.pow 10 exponent) 1
      | .negSucc exponent => nearestMagnitude digits (Nat.pow 10 (exponent + 1))

/-- The value of a list of decimal digits. -/
def valueOfDigits (digits : List Char) : Nat :=
  digits.foldl (fun value digit ↦ value * 10 + (digit.toNat - '0'.toNat)) 0

/-- A sign at the start of a text: whether it is a minus, and what follows it. -/
def readSign : List Char → Bool × List Char
  | '-' :: rest => (true, rest)
  | '+' :: rest => (false, rest)
  | text => (false, text)

/-- The exponent at the end of a number: nothing there means zero. -/
def readExponent : List Char → Option Int
  | [] => some 0
  | mark :: rest =>
    if mark = 'e' ∨ mark = 'E' then
      let (negative, digits) := readSign rest
      if digits.isEmpty || !digits.all Char.isDigit then none
      else
        let value : Int := valueOfDigits digits
        some (if negative then -value else value)
    else none

/-- The floating-point number nearest to a decimal one; nothing for a text of another form. -/
def ofDecimal? (text : List Char) : Option Binary64 :=
  let (negative, unsigned) := readSign text
  let whole := unsigned.takeWhile Char.isDigit
  let afterWhole := unsigned.dropWhile Char.isDigit
  let (part, afterPart) :=
    match afterWhole with
    | '.' :: rest => (rest.takeWhile Char.isDigit, rest.dropWhile Char.isDigit)
    | rest => ([], rest)
  if whole.isEmpty && part.isEmpty then none
  else
    (readExponent afterPart).map fun exponent ↦
      ofMagnitude negative
        (magnitudeOfDecimal (valueOfDigits (whole ++ part)) (exponent - part.length))

end Roster.Binary64
