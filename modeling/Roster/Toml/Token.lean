import Roster.Text.Numeral

/-!
# Cutting a TOML text into tokens

`tokens` cuts a text into line ends, blanks, marks, words and quoted texts, and drops comments. A
word is a row of characters of which keys, numbers and dates are made; a dot is a mark of its own,
since only what stands around it tells a dotted key from a number.

Text between single marks of quotation stays on one line (`readQuoted`, `readLiteral`). Between
three of them it may go on over several lines (`readBlock`). Double quotes allow escapes, single
ones do not.
-/

set_option autoImplicit false
set_option relaxedAutoImplicit false

namespace Roster.Toml

/-- A piece of a TOML text. -/
inductive Token
  /-- The end of a line. -/
  | lineEnd
  /-- Blanks and tabs. -/
  | blank (text : List Char)
  /-- A bracket, brace, comma, dot or sign of equality. -/
  | mark (character : Char)
  /-- A part of a key, a number or a date. -/
  | word (text : List Char)
  /-- A text in quotes on one line. -/
  | quoted (text : List Char)
  /-- A text in threefold quotes. -/
  | block (text : List Char)
deriving DecidableEq

/-- A blank or a tab. -/
def isBlank (character : Char) : Bool :=
  character = ' ' || character = '\t'

/-- A character that may be part of a word. -/
def isWordCharacter (character : Char) : Bool :=
  character.isAlphanum || character = '_' || character = '-' || character = '+' || character = ':'

/-- A character that is a mark. -/
def isMark (character : Char) : Bool :=
  "[]\x7b\x7d,.=".toList.contains character

/-- A character that may stand in a comment. -/
def isCommentCharacter (character : Char) : Bool :=
  character = '\t' || 0x20 ≤ character.toNat

/-- A character that may stand between quotes as itself. -/
def isTextCharacter (character : Char) : Bool :=
  isCommentCharacter character && character.toNat ≠ 0x7f

/-- The character that a letter behind a backslash stands for. -/
def shortEscape? : Char → Option Char
  | 'b' => some '\x08'
  | 't' => some '\t'
  | 'n' => some '\n'
  | 'f' => some '\x0c'
  | 'r' => some '\r'
  | '"' => some '"'
  | '\\' => some '\\'
  | _ => none

/-- How many hexadecimal digits follow a letter behind a backslash. -/
def escapeLength? : Char → Option Nat
  | 'u' => some 4
  | 'U' => some 8
  | _ => none

/-- The character that a text behind a backslash stands for, and how many characters spell it. -/
def escape? : List Char → Option (Char × Nat)
  | [] => none
  | letter :: rest =>
    match escapeLength? letter with
    | some length =>
      let digits := rest.take length
      if digits.length < length then none
      else
        ((Text.numberInBase? 16 digits).bind Text.characterOfNumber?).map fun character ↦
          (character, length + 1)
    | none => (shortEscape? letter).map fun character ↦ (character, 1)

/-- The text up to a double quote, and what follows the quote. -/
def readQuoted (text : List Char) : Option (List Char × List Char) :=
  match text with
  | [] => none
  | character :: rest =>
    if character = '"' then some ([], rest)
    else if character = '\\' then do
      let (escaped, length) ← escape? rest
      let (read, behind) ← readQuoted (rest.drop length)
      return (escaped :: read, behind)
    else if isTextCharacter character then do
      let (read, behind) ← readQuoted rest
      return (character :: read, behind)
    else none
termination_by text.length
decreasing_by
  · simp only [List.length_drop, List.length_cons]; omega
  · simp only [List.length_cons]; omega

/-- The text up to a single quote, and what follows the quote. -/
def readLiteral : List Char → Option (List Char × List Char)
  | [] => none
  | character :: rest =>
    if character = '\'' then some ([], rest)
    else if isTextCharacter character then do
      let (read, behind) ← readLiteral rest
      return (character :: read, behind)
    else none

/-- What follows a line end at the start of a text. -/
def afterLineEnd? : List Char → Option (List Char)
  | '\n' :: rest => some rest
  | '\r' :: '\n' :: rest => some rest
  | _ => none

/-- A text without the blanks and line ends at its start. -/
def dropMargin : List Char → List Char
  | '\r' :: '\n' :: rest => dropMargin rest
  | character :: rest =>
    if isBlank character || character = '\n' then dropMargin rest else character :: rest
  | [] => []

theorem dropMargin_length_le (text : List Char) : (dropMargin text).length ≤ text.length := by
  fun_induction dropMargin text with
  | case1 rest ih => simp only [List.length_cons]; omega
  | case2 character rest no_return blank ih => simp only [List.length_cons]; omega
  | case3 => exact Nat.le_refl _
  | case4 => exact Nat.le_refl _

/-- The text up to three quotes, and what follows them. Up to two more quotes right before them
belong to the text. Only double quotes allow escapes, one of which drops a line end with the blanks
around it. -/
def readBlock (quote : Char) (text : List Char) : Option (List Char × List Char) :=
  match text with
  | [] => none
  | character :: rest =>
    if character = quote then
      let more := (rest.takeWhile (· = quote)).length
      if 2 ≤ more then
        if more ≤ 4 then some (List.replicate (more - 2) quote, rest.drop more) else none
      else do
        let (read, behind) ← readBlock quote rest
        return (quote :: read, behind)
    else if character = '\r' then
      if rest.head? = some '\n' then readBlock quote rest else none
    else if character = '\\' && quote = '"' then
      if (afterLineEnd? (rest.dropWhile isBlank)).isSome then readBlock quote (dropMargin rest)
      else do
        let (escaped, length) ← escape? rest
        let (read, behind) ← readBlock quote (rest.drop length)
        return (escaped :: read, behind)
    else if isTextCharacter character || character = '\n' then do
      let (read, behind) ← readBlock quote rest
      return (character :: read, behind)
    else none
termination_by text.length
decreasing_by
  · simp only [List.length_cons]; omega
  · simp only [List.length_cons]; omega
  · have shorter := dropMargin_length_le rest
    simp only [List.length_cons]; omega
  · simp only [List.length_drop, List.length_cons]; omega
  · simp only [List.length_cons]; omega

/-- A text without a line end at its start. -/
def dropLineEnd (text : List Char) : List Char :=
  (afterLineEnd? text).getD text

/-- The token that begins with a character, nothing for a comment, and what follows it. -/
def readToken (character : Char) (rest : List Char) : Option (Option Token × List Char) :=
  if character = '\n' then some (some .lineEnd, rest)
  else if character = '\r' then
    (afterLineEnd? (character :: rest)).map fun behind ↦ (some .lineEnd, behind)
  else if isBlank character then
    some (some (.blank (character :: rest.takeWhile isBlank)), rest.dropWhile isBlank)
  else if character = '#' then some (none, rest.dropWhile isCommentCharacter)
  else if isMark character then some (some (.mark character), rest)
  else if isWordCharacter character then
    some (some (.word (character :: rest.takeWhile isWordCharacter)),
      rest.dropWhile isWordCharacter)
  else if character = '"' then
    match rest with
    | '"' :: '"' :: rest => do
      let (read, behind) ← readBlock '"' (dropLineEnd rest)
      return (some (.block read), behind)
    | _ => do
      let (read, behind) ← readQuoted rest
      return (some (.quoted read), behind)
  else if character = '\'' then
    match rest with
    | '\'' :: '\'' :: rest => do
      let (read, behind) ← readBlock '\'' (dropLineEnd rest)
      return (some (.block read), behind)
    | _ => do
      let (read, behind) ← readLiteral rest
      return (some (.quoted read), behind)
  else none

/-- The tokens of a text, within a number of steps. -/
def tokensWithin : Nat → List Char → Option (List Token)
  | _, [] => some []
  | 0, _ :: _ => none
  | steps + 1, character :: rest => do
    let (token, behind) ← readToken character rest
    let others ← tokensWithin steps behind
    return token.toList ++ others

/-- The tokens of a text, each of which takes at least one character. A mark of byte order at the
start is passed over. -/
def tokens (text : List Char) : Option (List Token) :=
  let text := if text.head? = some '\ufeff' then text.drop 1 else text
  tokensWithin text.length text

end Roster.Toml
