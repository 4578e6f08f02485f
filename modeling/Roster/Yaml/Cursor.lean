import Roster.Yaml.Token

/-!
# Reading places

A `Cursor` is a place in a text: what is left to read, and how far it is from the beginning, from
the first line and from the start of its line. The end of a line counts as one step whatever
characters it is made of.
-/

set_option autoImplicit false
set_option relaxedAutoImplicit false

namespace Roster.Yaml

/-- A place in a text. -/
structure Cursor where
  /-- The characters from the place on. -/
  rest : List Char
  /-- How many characters precede the place. -/
  index : Nat
  /-- How many lines precede the line of the place. -/
  line : Nat
  /-- How many characters precede the place on its line. -/
  column : Nat
deriving DecidableEq

namespace Cursor

/-- The beginning of a text. -/
def start (text : List Char) : Cursor :=
  ⟨text, 0, 0, 0⟩

/-- The place a number of characters further on the same line. -/
def advance (cursor : Cursor) (count : Nat) : Cursor :=
  ⟨cursor.rest.drop count, cursor.index + count, cursor.line, cursor.column + count⟩

/-- The place behind one character of the line. -/
def skip (cursor : Cursor) : Cursor :=
  cursor.advance 1

/-- The place behind the characters of a class, which line breaks are not in. -/
def skipWhile (cursor : Cursor) (holds : Char → Bool) : Cursor :=
  cursor.advance (cursor.rest.takeWhile holds).length

/-- The characters of a class from the place on. -/
def run (cursor : Cursor) (holds : Char → Bool) : List Char :=
  cursor.rest.takeWhile holds

/-- The place behind a line break. -/
def skipBreak (cursor : Cursor) : Cursor :=
  match cursor.rest with
  | '\r' :: '\n' :: rest => ⟨rest, cursor.index + 2, cursor.line + 1, 0⟩
  | _ :: rest => ⟨rest, cursor.index + 1, cursor.line + 1, 0⟩
  | [] => cursor

/-- What a line break is read as: the separators of lines and paragraphs stay, the others are line
feeds. -/
def breakText (cursor : Cursor) : List Char :=
  match cursor.rest with
  | character :: _ =>
    if character = '\u2028' || character = '\u2029' then [character] else ['\n']
  | [] => []

/-- The character at the place. -/
def peek? (cursor : Cursor) : Option Char :=
  cursor.rest.head?

/-- The place is at a given character. -/
def isAt (cursor : Cursor) (character : Char) : Bool :=
  cursor.rest.head? = some character

/-- The place behind the comment that begins here, if one does. -/
def skipComment (cursor : Cursor) : Cursor :=
  if cursor.isAt '#' then cursor.skipWhile fun character ↦ !isBreak character else cursor

/-- The place is at a line break. -/
def isAtBreak (cursor : Cursor) : Bool :=
  cursor.rest.head?.any isBreak

/-- The place is at a blank or a tab. -/
def isAtSpace (cursor : Cursor) : Bool :=
  cursor.rest.head?.any isSpace

/-- The place is at a line break or the end. -/
def isAtLineEnd (cursor : Cursor) : Bool :=
  cursor.rest.isEmpty || cursor.isAtBreak

/-- The place is at the start of a line with three given characters and a gap behind them. -/
def isAtMarker (cursor : Cursor) (character : Char) : Bool :=
  cursor.column = 0 &&
    match cursor.rest with
    | first :: second :: third :: rest =>
      first = character && second = character && third = character && atGap rest
    | _ => false

/-- The place is at a line that begins or ends a document. -/
def isAtDocumentMarker (cursor : Cursor) : Bool :=
  cursor.isAtMarker '-' || cursor.isAtMarker '.'

end Cursor

end Roster.Yaml
