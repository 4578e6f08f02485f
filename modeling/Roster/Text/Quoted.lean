import Roster.Text.Printable

/-!
# Quoted texts

`quoted` shows a text between double quotes on one line. The quote, the backslash, the line feed,
the carriage return, the tab and the null character have a short escape, and every other character
that is not printable is shown by its number in hexadecimal.
-/

set_option autoImplicit false
set_option relaxedAutoImplicit false

namespace Roster.Text

/-- One character as it stands between the quotes. -/
def escaped (character : Char) : List Char :=
  if character = '"' then ['\\', '"']
  else if character = '\\' then ['\\', '\\']
  else if character = '\n' then ['\\', 'n']
  else if character = '\r' then ['\\', 'r']
  else if character = '\t' then ['\\', 't']
  else if character = '\x00' then ['\\', '0']
  else if isPrintable character then [character]
  else ['\\', 'u', '{'] ++ Nat.toDigits 16 character.toNat ++ ['}']

/-- A text between double quotes, on one line. -/
def quoted (text : String) : String :=
  String.ofList (['"'] ++ text.toList.flatMap escaped ++ ['"'])

end Roster.Text
