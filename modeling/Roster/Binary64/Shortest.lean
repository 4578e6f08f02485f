import Roster.Binary64.Basic

/-!
# Writing floating-point numbers

A floating-point number is written with the fewest decimal digits that read back as it. The numbers
that read back form an interval around it, whose ends belong to it when the last bit is zero
(`Interval`). The grids of decimal numbers are tried from the coarsest to the finest: on the first
grid that has a point in the interval the point nearest to the number is taken, and of two equally
near ones the even one (`shortestDigits`).

The text has a point with a digit on both sides (`NumberLayout.plain`), or an exponent when the
number is so big or so small that too many zeros would stand in it.
-/

set_option autoImplicit false
set_option relaxedAutoImplicit false

namespace Roster.Binary64

/-- A positive floating-point number with the numbers that are read as it. All are counted in units
of one quarter of the distance to the next number up, which is a fraction of two whole numbers. -/
structure Interval where
  /-- The number itself, in units. -/
  value : Nat
  /-- The lower end, in units. -/
  low : Nat
  /-- The upper end, in units. -/
  high : Nat
  /-- Whether the ends are read as the number. -/
  closed : Bool
  /-- The numerator of the unit. -/
  numerator : Nat
  /-- The denominator of the unit. -/
  denominator : Nat

/-- The interval of a positive finite number, given by the bits below its sign. -/
def Interval.ofMagnitude (magnitude : Nat) : Interval :=
  let exponent := magnitude / exponentWeight
  let fraction := magnitude % exponentWeight
  let significand := if exponent = 0 then fraction else fraction + exponentWeight
  let power : Int := (if exponent = 0 then 1 else exponent : Nat) - 1077
  let gapBelowIsHalf := fraction = 0 ∧ 1 < exponent
  { value := 4 * significand
    low := 4 * significand - (if gapBelowIsHalf then 1 else 2)
    high := 4 * significand + 2
    closed := significand % 2 = 0
    numerator := Nat.pow 2 power.toNat
    denominator := Nat.pow 2 (-power).toNat }

/-- Powers of ten as fractions. -/
def tenTo (exponent : Int) : Nat × Nat :=
  (Nat.pow 10 exponent.toNat, Nat.pow 10 (-exponent).toNat)

/-- Whether `digits · 10 ^ exponent` is read as the number of an interval. -/
def Interval.contains (interval : Interval) (digits : Nat) (exponent : Int) : Bool :=
  let (ten, tenth) := tenTo exponent
  let point := digits * ten * interval.denominator
  let low := interval.low * interval.numerator * tenth
  let high := interval.high * interval.numerator * tenth
  if interval.closed then low ≤ point && point ≤ high else low < point && point < high

/-- The point of the grid `10 ^ exponent` that is in the interval and nearest to its number, if
there is one. -/
def Interval.nearestOnGrid (interval : Interval) (exponent : Int) : Option Nat :=
  let (ten, tenth) := tenTo exponent
  let value := interval.value * interval.numerator * tenth
  let step := ten * interval.denominator
  let below := value / step
  let twice := 2 * (value % step)
  let fitsBelow := interval.contains below exponent
  let fitsAbove := interval.contains (below + 1) exponent
  if fitsBelow && fitsAbove then
    if twice < step || (twice == step && below % 2 == 0) then some below else some (below + 1)
  else if fitsBelow then some below
  else if fitsAbove then some (below + 1)
  else none

/-- The exponent of the first power of ten that is greater than the number of an interval. -/
def Interval.decimalExponent (interval : Interval) : Int :=
  let above := interval.value * interval.numerator
  let estimate : Int :=
    (Nat.toDigits 10 above).length - (Nat.toDigits 10 interval.denominator).length
  let (ten, tenth) := tenTo estimate
  if ten * interval.denominator ≤ above * tenth then estimate + 1 else estimate

/-- Digits without the zeros at their end, with the exponent that makes up for them. -/
def dropZeros : Nat → Nat → Int → Nat × Int
  | 0, digits, exponent => (digits, exponent)
  | fuel + 1, digits, exponent =>
    if digits % 10 = 0 then dropZeros fuel (digits / 10) (exponent + 1) else (digits, exponent)

/-- The fewest digits that read back as a positive finite number, with the exponent of the last one.
Seventeen digits are always enough. -/
def shortestDigits (magnitude : Nat) : Nat × Int :=
  let interval := Interval.ofMagnitude magnitude
  let top := interval.decimalExponent
  let found := (List.range 17).findSome? fun count ↦
    let exponent := top - (count + 1 : Nat)
    (interval.nearestOnGrid exponent).map fun digits ↦ (digits, exponent)
  match found with
  | some (digits, exponent) => dropZeros 17 digits exponent
  | none => (0, 0)

/-- How the digits of a number are laid out as text. -/
structure NumberLayout where
  /-- The most places before the point that are written out. -/
  mostWholePlaces : Int
  /-- The most zeros between the point and the first digit. -/
  mostLeadingZeros : Int
  /-- The text of an infinity. -/
  infinity : String
  /-- The text of what is not a number. -/
  notANumber : String

/-- Sixteen places before the point, four zeros after it, and the names of the special numbers with
a leading point. -/
def NumberLayout.plain : NumberLayout :=
  ⟨16, 4, ".inf", ".nan"⟩

/-- The text of a sequence of digits whose last one has the given exponent. -/
def NumberLayout.digitsText (layout : NumberLayout) (digits : List Char) (exponent : Int) :
    List Char :=
  let places : Int := digits.length + exponent
  if 0 ≤ exponent ∧ places ≤ layout.mostWholePlaces then
    digits ++ List.replicate exponent.toNat '0' ++ ['.', '0']
  else if 0 < places ∧ places ≤ layout.mostWholePlaces then
    digits.take places.toNat ++ ['.'] ++ digits.drop places.toNat
  else if places ≤ 0 ∧ -places ≤ layout.mostLeadingZeros then
    ['0', '.'] ++ List.replicate (-places).toNat '0' ++ digits
  else
    let shown := (toString (places - 1)).toList
    match digits with
    | [digit] => digit :: 'e' :: shown
    | first :: rest => first :: '.' :: rest ++ 'e' :: shown
    | [] => shown

/-- The text of a number. -/
def NumberLayout.render (layout : NumberLayout) (number : Binary64) : String :=
  let sign := if number.isNegative then "-" else ""
  if number.isNotANumber then layout.notANumber
  else if !number.isFinite then sign ++ layout.infinity
  else if number.magnitude = 0 then sign ++ "0.0"
  else
    let (digits, exponent) := shortestDigits number.magnitude
    sign ++ String.ofList (layout.digitsText (Nat.toDigits 10 digits) exponent)

/-- The text of a number with the fewest digits that read back as it. -/
def render (number : Binary64) : String :=
  NumberLayout.plain.render number

end Roster.Binary64
