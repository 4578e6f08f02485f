import Roster.Binary64.Decimal
import Roster.Text.Numeral

/-!
# What plain texts mean

A text without quotes may stand for nothing, a truth value, a whole number or a floating-point
number (`PlainMeaning`). Whole numbers are decimal, or hexadecimal, octal or binary behind a zero
and a letter. Digits behind a leading zero are a text. So is a number too big for a floating-point
number.
-/

set_option autoImplicit false
set_option relaxedAutoImplicit false

namespace Roster.Yaml

open Text (numberInBase? isWithinBits)

/-- What a plain text stands for. -/
inductive PlainMeaning
  /-- Nothing. -/
  | null
  /-- A truth value. -/
  | boolean (value : Bool)
  /-- A whole number of at most 64 bits. -/
  | integer (value : Int)
  /-- A whole number of at most 128 bits, which no value holds. -/
  | wideInteger
  /-- A floating-point number. -/
  | float (value : Binary64)
  /-- The text itself. -/
  | text
deriving DecidableEq

/-- The spellings of nothing. -/
def isNull (text : String) : Bool :=
  text = "null" || text = "Null" || text = "NULL" || text = "~"

/-- The truth value that a text spells. -/
def boolean? (text : String) : Option Bool :=
  if text = "true" || text = "True" || text = "TRUE" then some true
  else if text = "false" || text = "False" || text = "FALSE" then some false
  else none

/-- Several digits of which the first is a zero, behind a sign if there is one. -/
def hasLeadingZero (text : List Char) : Bool :=
  let digits :=
    match text with
    | '-' :: rest => rest
    | '+' :: rest => rest
    | _ => text
  1 < digits.length && digits.head? = some '0' && digits.all Char.isDigit

/-- The number that an unsigned text makes: behind a zero and a letter in the base of the letter,
and in decimal otherwise. -/
def unsignedNumber? : List Char → Option Nat
  | '0' :: 'x' :: digits => numberInBase? 16 digits
  | '0' :: 'o' :: digits => numberInBase? 8 digits
  | '0' :: 'b' :: digits => numberInBase? 2 digits
  | digits => numberInBase? 10 digits

/-- The whole number that a text makes, however big. -/
def wholeNumber? (text : List Char) : Option Int :=
  if hasLeadingZero text then none
  else
    match text with
    | '-' :: digits => (unsignedNumber? digits).map fun number ↦ -(number : Int)
    | '+' :: digits => (unsignedNumber? digits).map fun number ↦ (number : Int)
    | digits => (unsignedNumber? digits).map fun number ↦ (number : Int)

/-- The meaning of a whole number, by how many bits it needs; none beyond 128. -/
def integerMeaning? (number : Int) : Option PlainMeaning :=
  if isWithinBits 63 64 number then some (.integer number)
  else if isWithinBits 127 128 number then some .wideInteger
  else none

/-- The floating-point number that a text makes: a decimal number that is not too big, an infinity,
or the name of what is not a number. -/
def float? (text : String) : Option Binary64 :=
  let characters := text.toList
  let unsigned :=
    match characters with
    | '+' :: rest => rest
    | _ => characters
  if characters.head? = some '+' && (unsigned.head? = some '+' || unsigned.head? = some '-') then
    none
  else
    let name := String.ofList unsigned
    if name = ".inf" || name = ".Inf" || name = ".INF" then some (.infinity false)
    else if text = "-.inf" || text = "-.Inf" || text = "-.INF" then some (.infinity true)
    else if text = ".nan" || text = ".NaN" || text = ".NAN" then some .notANumber
    else (Binary64.ofDecimal? unsigned).filter Binary64.isFinite

/-- What a plain text stands for. -/
def plainMeaning (text : String) : PlainMeaning :=
  if text = "" || isNull text then .null
  else
    match boolean? text with
    | some value => .boolean value
    | none =>
      match (wholeNumber? text.toList).bind integerMeaning? with
      | some meaning => meaning
      | none =>
        if hasLeadingZero text.toList then .text
        else
          match float? text with
          | some value => .float value
          | none => .text

end Roster.Yaml
