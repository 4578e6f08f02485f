/-!
# Tokens of a YAML text

A YAML text is a sequence of tokens. Some stand for marks in the text, some for the beginning and
end of a collection that only the indentation shows, and some carry text of their own. `Scalar`
styles tell how a text was written, since a plain text may stand for a number where a quoted one
does not.

The classes of characters that separate tokens are here as well: line breaks, blanks, and the
characters that a YAML text may not hold.
-/

set_option autoImplicit false
set_option relaxedAutoImplicit false

namespace Roster.Yaml

/-- How a scalar is written. -/
inductive ScalarStyle
  /-- Without quotes. -/
  | plain
  /-- Between single quotes. -/
  | singleQuoted
  /-- Between double quotes. -/
  | doubleQuoted
  /-- As a block that keeps its lines. -/
  | literal
  /-- As a block whose lines are joined. -/
  | folded
deriving DecidableEq, Inhabited

/-- A token of a YAML text. -/
inductive Token
  /-- The line that names the version of the format. -/
  | versionDirective (major minor : Nat)
  /-- The line that gives a tag handle its meaning. -/
  | tagDirective (handle start : List Char)
  /-- Three hyphens. -/
  | documentStart
  /-- Three dots. -/
  | documentEnd
  /-- A sequence by indentation begins. -/
  | blockSequenceStart
  /-- A mapping by indentation begins. -/
  | blockMappingStart
  /-- A collection by indentation ends. -/
  | blockEnd
  /-- An opening bracket. -/
  | flowSequenceStart
  /-- A closing bracket. -/
  | flowSequenceEnd
  /-- An opening brace. -/
  | flowMappingStart
  /-- A closing brace. -/
  | flowMappingEnd
  /-- A hyphen before an item. -/
  | blockEntry
  /-- A comma between items. -/
  | flowEntry
  /-- A key follows. -/
  | key
  /-- A value follows. -/
  | value
  /-- A reference to a named node. -/
  | alias (name : List Char)
  /-- A name for the next node. -/
  | anchor (name : List Char)
  /-- A tag for the next node, by its handle and the rest. -/
  | tag (handle rest : List Char)
  /-- A text. -/
  | scalar (style : ScalarStyle) (text : List Char)
  /-- The text ends. -/
  | streamEnd
deriving DecidableEq

/-- A character that ends a line. -/
def isBreak (character : Char) : Bool :=
  character = '\n' || character = '\r' || character = '\u0085' || character = '\u2028' ||
    character = '\u2029'

/-- A blank or a tab. -/
def isSpace (character : Char) : Bool :=
  character = ' ' || character = '\t'

/-- A blank, a tab or a line break. -/
def isGap (character : Char) : Bool :=
  isSpace character || isBreak character

/-- The text is at its end, or at a blank, a tab or a line break. -/
def atGap : List Char → Bool
  | [] => true
  | character :: _ => isGap character

/-- A letter, a digit, an underscore or a hyphen, in ASCII. -/
def isNameCharacter (character : Char) : Bool :=
  character.isAlphanum || character = '_' || character = '-'

/-- A character that a YAML text may hold. -/
def isAllowed (character : Char) : Bool :=
  let code := character.toNat
  code = 0x9 || code = 0xa || code = 0xd || (0x20 ≤ code && code ≤ 0x7e) || code = 0x85 ||
    (0xa0 ≤ code && code ≤ 0xd7ff) || (0xe000 ≤ code && code ≤ 0xfffd) || 0x10000 ≤ code

end Roster.Yaml
