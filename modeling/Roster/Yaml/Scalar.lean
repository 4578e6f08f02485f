import Roster.Text.Numeral
import Roster.Yaml.Cursor

/-!
# Reading scalars

The five ways of writing a text in YAML, each read from a place up to the place behind it: plain
(`readPlain`), between quotes (`readQuoted`) and as a block (`readBlock`). The functions give
nothing when the text is malformed.

Between the words of a plain or quoted text there are gaps (`Gap`). A gap within a line stands for
itself. A gap with line breaks is folded: one break is read as a blank, and of several breaks the
first one disappears.
-/

set_option autoImplicit false
set_option relaxedAutoImplicit false

namespace Roster.Yaml

/-- The white space between two words of a scalar. -/
structure Gap where
  /-- The gap has a line break. -/
  broken : Bool
  /-- The blanks of a gap within a line. -/
  spaces : List Char
  /-- The first line break. -/
  firstBreak : List Char
  /-- The line breaks behind the first. -/
  moreBreaks : List Char
deriving DecidableEq

namespace Gap

/-- No white space yet. -/
def empty : Gap := ⟨false, [], [], []⟩

/-- What a gap is read as. -/
def text (gap : Gap) : List Char :=
  if gap.broken then
    if gap.firstBreak = ['\n'] then
      if gap.moreBreaks.isEmpty then [' '] else gap.moreBreaks
    else gap.firstBreak ++ gap.moreBreaks
  else gap.spaces

/-- The gap with one more blank, which counts only before the first line break. -/
def addSpace (gap : Gap) (character : Char) : Gap :=
  if gap.broken then gap else { gap with spaces := gap.spaces ++ [character] }

/-- The gap with one more line break. -/
def addBreak (gap : Gap) (characters : List Char) : Gap :=
  if gap.broken then { gap with moreBreaks := gap.moreBreaks ++ characters }
  else { gap with broken := true, spaces := [], firstBreak := characters }

end Gap

/-- The gap at a place, after a part of it, and the place behind it. In the lines of a plain scalar,
`indent` columns are reserved for blanks, and a tab there is malformed. -/
def readGap (indent : Option Int) : Nat → Gap → Cursor → Option (Gap × Cursor)
  | 0, gap, cursor => some (gap, cursor)
  | fuel + 1, gap, cursor =>
    match cursor.peek? with
    | some character =>
      if isSpace character then
        let reserved := gap.broken && indent.any fun indent ↦ (cursor.column : Int) < indent
        if reserved && character = '\t' then none
        else readGap indent fuel (gap.addSpace character) cursor.skip
      else if isBreak character then
        readGap indent fuel (gap.addBreak cursor.breakText) cursor.skipBreak
      else some (gap, cursor)
    | none => some (gap, cursor)

/-- Characters that end a plain scalar inside brackets. -/
def isFlowIndicator (character : Char) : Bool :=
  character = ',' || character = '[' || character = ']' || character = '{' || character = '}'

/-- The word of a plain scalar at the start of a text. A colon ends it before a gap. Inside brackets
the punctuation of collections ends it as well, and a colon right before that is malformed. -/
def plainWord (inFlow : Bool) : List Char → Option (List Char)
  | [] => some []
  | character :: rest =>
    if isGap character then some []
    else if character = ':' then
      if inFlow && rest.head?.any fun next ↦ isFlowIndicator next || next = '?' then none
      else if atGap rest then some []
      else (plainWord inFlow rest).map (character :: ·)
    else if inFlow && isFlowIndicator character then some []
    else (plainWord inFlow rest).map (character :: ·)

/-- A plain scalar that was read up to a gap. -/
structure PlainReading where
  /-- The text before the gap. -/
  text : List Char
  /-- The gap. -/
  gap : Gap
  /-- The place behind the gap. -/
  cursor : Cursor

/-- The plain scalar from a place behind a gap on. -/
def readPlainFrom (inFlow : Bool) (indent : Int) : Nat → PlainReading → Option PlainReading
  | 0, reading => some reading
  | fuel + 1, reading =>
    let cursor := reading.cursor
    if cursor.isAtDocumentMarker || cursor.isAt '#' then some reading
    else
      match plainWord inFlow cursor.rest with
      | none => none
      | some word =>
        let behind := cursor.advance word.length
        let reading :=
          if word.isEmpty then reading
          else ⟨reading.text ++ reading.gap.text ++ word, .empty, behind⟩
        if !(behind.isAtSpace || behind.isAtBreak) then some reading
        else
          match readGap (some indent) (behind.rest.length + 1) reading.gap behind with
          | none => none
          | some (gap, next) =>
            let reading : PlainReading := ⟨reading.text, gap, next⟩
            if !inFlow && next.column < indent then some reading
            else readPlainFrom inFlow indent fuel reading

/-- The plain scalar at a place. -/
def readPlain (inFlow : Bool) (indent : Int) (cursor : Cursor) : Option PlainReading :=
  readPlainFrom inFlow indent (cursor.rest.length + 1) ⟨[], .empty, cursor⟩

/-- The character that a one-letter escape stands for. -/
def shortEscape? : Char → Option Char
  | '0' => some '\x00'
  | 'a' => some '\x07'
  | 'b' => some '\x08'
  | 't' => some '\t'
  | '\t' => some '\t'
  | 'n' => some '\n'
  | 'v' => some '\x0b'
  | 'f' => some '\x0c'
  | 'r' => some '\r'
  | 'e' => some '\x1b'
  | ' ' => some ' '
  | '"' => some '"'
  | '/' => some '/'
  | '\\' => some '\\'
  | 'N' => some '\u0085'
  | '_' => some '\u00a0'
  | 'L' => some '\u2028'
  | 'P' => some '\u2029'
  | _ => none

/-- How many hexadecimal digits follow the letter of a numeric escape. -/
def escapeLength? : Char → Option Nat
  | 'x' => some 2
  | 'u' => some 4
  | 'U' => some 8
  | _ => none

/-- The character that an escape stands for, and the place behind it. -/
def readEscape (cursor : Cursor) : Option (Char × Cursor) :=
  match cursor.rest with
  | _ :: letter :: rest =>
    match escapeLength? letter with
    | some length =>
      let digits := rest.take length
      if digits.length < length then none
      else
        match (Text.numberInBase? 16 digits).bind Text.characterOfNumber? with
        | some character => some (character, cursor.advance (2 + length))
        | none => none
    | none => (shortEscape? letter).map fun character ↦ (character, cursor.advance 2)
  | _ => none

/-- A word between quotes: its text, whether an escaped line break ended it, and the place behind
it. -/
def readQuotedWord (quote : Char) : Nat → List Char → Cursor → Option (List Char × Bool × Cursor)
  | 0, text, cursor => some (text, false, cursor)
  | fuel + 1, text, cursor =>
    match cursor.rest with
    | [] => some (text, false, cursor)
    | character :: rest =>
      if isGap character then some (text, false, cursor)
      else if character = quote then
        if quote = '\'' && rest.head? = some '\'' then
          readQuotedWord quote fuel (text ++ ['\'']) (cursor.advance 2)
        else some (text, false, cursor)
      else if quote = '"' && character = '\\' then
        if rest.head?.any isBreak then some (text, true, cursor.skip.skipBreak)
        else
          match readEscape cursor with
          | some (escaped, next) => readQuotedWord quote fuel (text ++ [escaped]) next
          | none => none
      else readQuotedWord quote fuel (text ++ [character]) cursor.skip

/-- The text between quotes from a place on, behind a part of it, and the place behind the closing
quote. -/
def readQuotedFrom (quote : Char) : Nat → List Char → Cursor → Option (List Char × Cursor)
  | 0, _, _ => none
  | fuel + 1, text, cursor =>
    if cursor.isAtDocumentMarker || cursor.rest.isEmpty then none
    else
      match readQuotedWord quote (cursor.rest.length + 1) text cursor with
      | none => none
      | some (text, broken, behind) =>
        if behind.isAt quote then some (text, behind.skip)
        else
          match readGap none (behind.rest.length + 1) ⟨broken, [], [], []⟩ behind with
          | none => none
          | some (gap, next) => readQuotedFrom quote fuel (text ++ gap.text) next

/-- The text between the quotes at a place, and the place behind them. -/
def readQuoted (quote : Char) (cursor : Cursor) : Option (List Char × Cursor) :=
  readQuotedFrom quote (cursor.rest.length + 1) [] cursor.skip

/-- What happens to the line breaks at the end of a block. -/
inductive Chomping
  /-- All are dropped. -/
  | strip
  /-- The first one stays. -/
  | clip
  /-- All stay. -/
  | keep
deriving DecidableEq

/-- The sign of a block header. -/
def readChomping (cursor : Cursor) : Chomping × Cursor :=
  if cursor.isAt '-' then (.strip, cursor.skip)
  else if cursor.isAt '+' then (.keep, cursor.skip)
  else (.clip, cursor)

/-- The digit of a block header: zero when there is none, and a zero there is malformed. -/
def readIncrement (cursor : Cursor) : Option (Nat × Cursor) :=
  match cursor.peek? with
  | some character =>
    if character = '0' then none
    else if character.isDigit then some (character.toNat - '0'.toNat, cursor.skip)
    else some (0, cursor)
  | none => some (0, cursor)

/-- The sign and the digit of a block header, in either order. -/
def readBlockHeader (cursor : Cursor) : Option (Chomping × Nat × Cursor) :=
  if cursor.isAt '-' || cursor.isAt '+' then
    let (chomping, next) := readChomping cursor
    (readIncrement next).map fun (increment, next) ↦ (chomping, increment, next)
  else
    (readIncrement cursor).map fun (increment, next) ↦
      if increment = 0 then (.clip, 0, next)
      else
        let (chomping, next) := readChomping next
        (chomping, increment, next)

/-- The empty lines at a place of a block. `indent` is the indentation of the block, zero while it
is not known; then the widest line counts, and it is given back with the breaks and the place. -/
def readBlockBreaks (indent : Nat) :
    Nat → Nat → List Char → Cursor → Option (Nat × List Char × Cursor)
  | 0, widest, breaks, cursor => some (widest, breaks, cursor)
  | fuel + 1, widest, breaks, cursor =>
    let blanks := (cursor.run (· = ' ')).length
    let known := min blanks (indent - cursor.column)
    let cursor := cursor.advance (if indent = 0 then blanks else known)
    let widest := max widest cursor.column
    if (indent = 0 || cursor.column < indent) && cursor.isAt '\t' then none
    else if cursor.isAtBreak then
      readBlockBreaks indent fuel widest (breaks ++ cursor.breakText) cursor.skipBreak
    else some (widest, breaks, cursor)

/-- The text of a block that was read up to the start of a line. -/
structure BlockReading where
  /-- The text of the lines before, without the break behind the last. -/
  text : List Char
  /-- The break behind the last line. -/
  lastBreak : List Char
  /-- The breaks of empty lines behind it. -/
  moreBreaks : List Char
  /-- The last line began with a blank. -/
  blankBefore : Bool
  /-- The place. -/
  cursor : Cursor

/-- The block from the start of a line on. In a folded block a single break between two lines that
do not begin with a blank is read as a blank, and the first of several breaks disappears. -/
def readBlockLines (folded : Bool) (indent : Nat) : Nat → BlockReading → Option BlockReading
  | 0, reading => some reading
  | fuel + 1, reading =>
    let cursor := reading.cursor
    if cursor.column = indent && !cursor.rest.isEmpty then
      let blank := cursor.isAtSpace
      let joined :=
        if folded && reading.lastBreak = ['\n'] && !reading.blankBefore && !blank then
          if reading.moreBreaks.isEmpty then [' '] else []
        else reading.lastBreak
      let line := cursor.run fun character ↦ !isBreak character
      let behind := cursor.advance line.length
      match readBlockBreaks indent (behind.rest.length + 1) 0 [] behind.skipBreak with
      | none => none
      | some (_, breaks, next) =>
        let text := reading.text ++ joined ++ reading.moreBreaks ++ line
        readBlockLines folded indent fuel ⟨text, behind.breakText, breaks, blank, next⟩
    else some reading

/-- The block at a place, behind its mark, and the place behind it. `parent` is the indentation
around the block. -/
def readBlock (folded : Bool) (parent : Int) (cursor : Cursor) : Option (List Char × Cursor) := do
  let (chomping, increment, cursor) ← readBlockHeader cursor.skip
  let cursor := (cursor.skipWhile isSpace).skipComment
  if !cursor.isAtLineEnd then none
  else
    let cursor := cursor.skipBreak
    let given := if increment = 0 then 0 else max parent 0 + increment
    let (widest, breaks, cursor) ←
      readBlockBreaks given.toNat (cursor.rest.length + 1) 0 [] cursor
    let indent := if increment = 0 then max (widest : Int) (max (parent + 1) 1) else given
    let reading ←
      readBlockLines folded indent.toNat (cursor.rest.length + 1) ⟨[], [], breaks, false, cursor⟩
    let kept :=
      match chomping with
      | .strip => []
      | .clip => reading.lastBreak
      | .keep => reading.lastBreak ++ reading.moreBreaks
    some (reading.text ++ kept, reading.cursor)

end Roster.Yaml
