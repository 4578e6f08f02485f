import Roster.Binary64.Decimal
import Roster.Text.Numeral
import Roster.Text.Split

/-!
# Values of TOML

A `Value` is what a TOML text can hold under a key. Texts, lists and tables are read where they
stand; `ofBare?` reads what is written without quotes and brackets: a truth value, a whole number of
64 bits, a floating-point number, or a moment, which is a date, a time or both.

Digits may be grouped with underscores (`isGrouped`), and a decimal number has no zero before its
first digit.
-/

set_option autoImplicit false
set_option relaxedAutoImplicit false

namespace Roster.Toml

/-- A value. -/
inductive Value
  /-- A text. -/
  | text (value : String)
  /-- A truth value. -/
  | boolean (value : Bool)
  /-- A whole number. -/
  | integer (value : Int)
  /-- A floating-point number. -/
  | real (value : Binary64)
  /-- A date, a time or both, as it is written. -/
  | moment (written : String)
  /-- A list. -/
  | list (items : List Value)
  /-- Values by name. -/
  | table (entries : List (String × Value))
deriving Inhabited

/-- Digits of a base, with single underscores between them at most. -/
def isGrouped (base : Nat) (digits : List Char) : Bool :=
  (Text.splitOn '_' digits).all fun group ↦ !group.isEmpty && group.all (Text.isDigitOf base)

/-- A text without underscores. -/
def withoutGroups (digits : List Char) : List Char :=
  digits.filter (· ≠ '_')

/-- What follows a sign, if there is one. -/
def withoutSign : List Char → List Char
  | '-' :: rest => rest
  | '+' :: rest => rest
  | text => text

/-- The digits of a decimal number: there is no zero in front of others. -/
def isDecimal (digits : List Char) : Bool :=
  isGrouped 10 digits && (digits.head? ≠ some '0' || digits.length = 1)

/-- The number that grouped digits of a base make. -/
def groupedNumber? (base : Nat) (digits : List Char) : Option Int :=
  if isGrouped base digits then
    (Text.numberInBase? base (withoutGroups digits)).map fun number ↦ (number : Int)
  else none

/-- The whole number that a text makes: decimal with a sign, or in the base that a zero and a letter
in front announce. -/
def wholeNumber? (text : List Char) : Option Int :=
  match text with
  | '0' :: 'x' :: digits => groupedNumber? 16 digits
  | '0' :: 'o' :: digits => groupedNumber? 8 digits
  | '0' :: 'b' :: digits => groupedNumber? 2 digits
  | _ =>
    let digits := withoutSign text
    if isDecimal digits then
      (groupedNumber? 10 digits).map fun number ↦ if text.head? = some '-' then -number else number
    else none

/-- The whole number of 64 bits that a text makes. -/
def integer? (text : List Char) : Option Int :=
  (wholeNumber? text).filter (Text.isWithinBits 63 63)

/-- The exponent of a number, behind its mark. -/
def isExponent (text : List Char) : Bool :=
  isGrouped 10 (withoutSign text)

/-- A decimal number with a part behind the point, an exponent, or both. -/
def isDecimalReal (text : List Char) : Bool :=
  let unsigned := withoutSign text
  let mantissa := unsigned.takeWhile fun character ↦ character ≠ 'e' && character ≠ 'E'
  let exponent := unsigned.drop mantissa.length
  let whole := mantissa.takeWhile (· ≠ '.')
  let part := mantissa.drop whole.length
  isDecimal whole && !(part.isEmpty && exponent.isEmpty) &&
    (part.isEmpty || isGrouped 10 (part.drop 1)) &&
    (exponent.isEmpty || isExponent (exponent.drop 1))

/-- The floating-point number that a text makes. A number above all of them is none; one below all
of them is minus infinity. -/
def real? (text : List Char) : Option Binary64 :=
  let name := withoutSign text
  if name = "inf".toList then some (.infinity (text.head? = some '-'))
  else if name = "nan".toList then some .notANumber
  else if isDecimalReal text then
    (Binary64.ofDecimal? (withoutGroups text)).filter fun number ↦
      number.isFinite || number.isNegative
  else none

/-- The number of two digits, if it is in a range. -/
def isTwoDigits (least greatest : Nat) (digits : List Char) : Bool :=
  digits.length = 2 &&
    match Text.numberInBase? 10 digits with
    | some number => least ≤ number && number ≤ greatest
    | none => false

/-- The days of a month of a year. -/
def daysOfMonth (year month : Nat) : Nat :=
  if month = 2 then
    if year % 4 = 0 && (year % 100 ≠ 0 || year % 400 = 0) then 29 else 28
  else if month = 4 || month = 6 || month = 9 || month = 11 then 30
  else 31

/-- A day of the calendar, written as year, month and day. -/
def isDate : List Char → Bool
  | [y1, y2, y3, y4, '-', m1, m2, '-', d1, d2] =>
    isTwoDigits 1 12 [m1, m2] &&
      match Text.numberInBase? 10 [y1, y2, y3, y4], Text.numberInBase? 10 [m1, m2] with
      | some year, some month => isTwoDigits 1 (daysOfMonth year month) [d1, d2]
      | _, _ => false
  | _ => false

/-- The part of a second behind a time, if there is one. -/
def isFraction : List Char → Bool
  | [] => true
  | '.' :: digits => !digits.isEmpty && digits.all Char.isDigit
  | _ => false

/-- A time of a day, with seconds. -/
def isTime : List Char → Bool
  | h1 :: h2 :: ':' :: m1 :: m2 :: ':' :: s1 :: s2 :: rest =>
    isTwoDigits 0 23 [h1, h2] && isTwoDigits 0 59 [m1, m2] && isTwoDigits 0 60 [s1, s2] &&
      isFraction rest
  | _ => false

/-- How far a time is from universal time, in hours and minutes. -/
def isOffset : List Char → Bool
  | [sign, h1, h2, ':', m1, m2] =>
    (sign = '+' || sign = '-') && isTwoDigits 0 23 [h1, h2] && isTwoDigits 0 59 [m1, m2]
  | _ => false

/-- A time that may be followed by its distance from universal time. -/
def isTimeAndOffset (text : List Char) : Bool :=
  isTime text ||
    ((text.getLast? = some 'Z' || text.getLast? = some 'z') && isTime text.dropLast) ||
    (isOffset (text.drop (text.length - 6)) && isTime (text.take (text.length - 6)))

/-- A date, a time, or a date and a time with a `T` or a blank between them. -/
def isMoment (text : List Char) : Bool :=
  isDate text || isTime text ||
    (isDate (text.take 10) &&
      match text.drop 10 with
      | mark :: rest => (mark = 'T' || mark = 't' || mark = ' ') && isTimeAndOffset rest
      | [] => false)

/-- The value of a text that stands without quotes. -/
def Value.ofBare? (text : List Char) : Option Value :=
  if text = "true".toList then some (.boolean true)
  else if text = "false".toList then some (.boolean false)
  else if isMoment text then some (.moment (String.ofList text))
  else
    match integer? text with
    | some number => some (.integer number)
    | none => (real? text).map .real

end Roster.Toml
