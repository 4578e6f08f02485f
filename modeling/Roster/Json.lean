/-!
# Writing JSON

`Json` holds what this program writes as JSON: texts, lists and objects. `Json.render` writes a
value in one of two layouts (`Json.Layout`): all on one line without any blank, or each item on a
line of its own, two columns further in than what it belongs to.

Inside quotes only the quote, the backslash and the control characters below the blank are escaped.
-/

set_option autoImplicit false
set_option relaxedAutoImplicit false

namespace Roster

/-- A value to write. -/
inductive Json
  /-- A text. -/
  | text (value : String)
  /-- A list of values. -/
  | list (items : List Json)
  /-- Named values, in the order in which they are written. -/
  | object (fields : List (String × Json))

namespace Json

/-- How a value is spread over lines. -/
inductive Layout
  /-- All on one line. -/
  | compact
  /-- Each item on its own line. -/
  | indented
deriving DecidableEq

/-- The digit for a number below sixteen. -/
def hexDigit (number : Nat) : Char :=
  if number < 10 then Char.ofNat (48 + number) else Char.ofNat (87 + number)

/-- A character as it stands between quotes. -/
def quotedCharacter (character : Char) : List Char :=
  if character = '"' then ['\\', '"']
  else if character = '\\' then ['\\', '\\']
  else if character = '\n' then ['\\', 'n']
  else if character = '\r' then ['\\', 'r']
  else if character = '\t' then ['\\', 't']
  else if character = '\x08' then ['\\', 'b']
  else if character = '\x0c' then ['\\', 'f']
  else if character.toNat < 32 then
    ['\\', 'u', '0', '0', hexDigit (character.toNat / 16), hexDigit (character.toNat % 16)]
  else [character]

/-- A text in quotes. -/
def quotedText (text : String) : List Char :=
  '"' :: text.toList.flatMap quotedCharacter ++ ['"']

/-- What stands before an item at a depth, and before the bracket that closes it. -/
def Layout.lineStart (layout : Layout) (depth : Nat) : List Char :=
  match layout with
  | .compact => []
  | .indented => '\n' :: List.replicate (2 * depth) ' '

/-- What stands between a name and its value. -/
def Layout.colon : Layout → List Char
  | .compact => [':']
  | .indented => [':', ' ']

mutual

/-- The text of a value at a depth. -/
def textAt (layout : Layout) (depth : Nat) : Json → List Char
  | .text value => quotedText value
  | .list [] => ['[', ']']
  | .list (first :: rest) =>
    '[' :: layout.lineStart (depth + 1) ++ textAt layout (depth + 1) first ++
      itemsText layout (depth + 1) rest ++ layout.lineStart depth ++ [']']
  | .object [] => ['\x7b', '\x7d']
  | .object ((name, value) :: rest) =>
    '\x7b' :: layout.lineStart (depth + 1) ++ quotedText name ++ layout.colon ++
      textAt layout (depth + 1) value ++ fieldsText layout (depth + 1) rest ++
      layout.lineStart depth ++ ['\x7d']

/-- The text of the items of a list after the first one. -/
def itemsText (layout : Layout) (depth : Nat) : List Json → List Char
  | [] => []
  | item :: rest =>
    ',' :: layout.lineStart depth ++ textAt layout depth item ++ itemsText layout depth rest

/-- The text of the fields of an object after the first one. -/
def fieldsText (layout : Layout) (depth : Nat) : List (String × Json) → List Char
  | [] => []
  | (name, value) :: rest =>
    ',' :: layout.lineStart depth ++ quotedText name ++ layout.colon ++
      textAt layout depth value ++ fieldsText layout depth rest

end

/-- The text of a value. -/
def render (layout : Layout) (value : Json) : String :=
  String.ofList (textAt layout 0 value)

/-- A list of texts. -/
def ofTexts (texts : List String) : Json :=
  .list (texts.map .text)

end Json

end Roster
