import Roster.Toml.Token

/-!
# Writing TOML

A text is written on one line between double quotes, with escapes for what cannot stand there as
itself (`quotedText`), and a list of texts on one line if it has one item and otherwise with each
item on a line of its own (`listText`). `sectionText` writes a table under its header.
-/

set_option autoImplicit false
set_option relaxedAutoImplicit false

namespace Roster.Toml

/-- A field of a table to write. -/
inductive Field
  /-- A text. -/
  | text (value : String)
  /-- A list of texts. -/
  | texts (values : List String)

/-- The digit for a number below sixteen. -/
def hexDigit (number : Nat) : Char :=
  if number < 10 then Char.ofNat (48 + number) else Char.ofNat (55 + number)

/-- A character as it stands between double quotes. -/
def quotedCharacter (character : Char) : List Char :=
  if character = '"' then ['\\', '"']
  else if character = '\\' then ['\\', '\\']
  else if isTextCharacter character then [character]
  else if character = '\x08' then ['\\', 'b']
  else if character = '\n' then ['\\', 'n']
  else if character = '\x0c' then ['\\', 'f']
  else if character = '\r' then ['\\', 'r']
  else
    ['\\', 'u', '0', '0', hexDigit (character.toNat / 16), hexDigit (character.toNat % 16)]

/-- A text as it stands between double quotes. -/
def quotedBody (text : List Char) : List Char :=
  text.flatMap quotedCharacter

/-- A text in double quotes. -/
def quotedText (text : String) : List Char :=
  '"' :: quotedBody text.toList ++ ['"']

/-- How far the items of a list are indented. -/
def listIndentation : Nat := 4

/-- A text on a line of its own in a list. -/
def itemLine (item : String) : List Char :=
  List.replicate listIndentation ' ' ++ quotedText item ++ [',', '\n']

/-- A list of texts. -/
def listText : List String → List Char
  | [] => ['[', ']']
  | [item] => '[' :: quotedText item ++ [']']
  | items => '[' :: '\n' :: items.flatMap itemLine ++ [']']

/-- The text of a field. -/
def Field.valueText : Field → List Char
  | .text value => quotedText value
  | .texts values => listText values

/-- A table with its header and its fields. -/
def sectionText (name : String) (fields : List (String × Field)) : List Char :=
  '[' :: name.toList ++ [']', '\n'] ++
    fields.flatMap fun field ↦
      field.1.toList ++ [' ', '=', ' '] ++ field.2.valueText ++ ['\n']

/-- Tables one after the other, with an empty line between two of them. -/
def sectionsText : List (String × List (String × Field)) → List Char
  | [] => []
  | [(name, fields)] => sectionText name fields
  | (name, fields) :: rest => sectionText name fields ++ '\n' :: sectionsText rest

end Roster.Toml
