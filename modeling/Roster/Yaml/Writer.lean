import Roster.Yaml.Plain
import Roster.Yaml.Value

/-!
# Writing YAML

`Node.render` writes a tree as the one document of a text. Mappings and sequences are laid out by
indentation, two columns a level, and a sequence that is the value of a key is not indented. Empty
collections are written in brackets.

A scalar is written in the style that its node asks for, if the text permits (`Features.style`).
What a text permits depends on where it has white space and line breaks, on characters with a
meaning of their own and on characters that only an escape can show (`Features`). A key that is long
or has several lines is written behind a question mark.
-/

set_option autoImplicit false
set_option relaxedAutoImplicit false

namespace Roster.Yaml

/-- A character that stands in a YAML text as itself. -/
def standsForItself (character : Char) : Bool :=
  let code := character.toNat
  code = 0xa || (0x20 ≤ code && code ≤ 0x7e) || (0xa0 ≤ code && code ≤ 0xd7ff) ||
    (0xe000 ≤ code && code ≤ 0xfffd && code ≠ 0xfeff) || 0x10000 ≤ code

/-- What decides how a text can be written. -/
structure Features where
  /-- There is a line break. -/
  multiline : Bool
  /-- White space or a line break is at one of the ends. -/
  loose : Bool
  /-- A blank is at the end. -/
  blankAtEnd : Bool
  /-- A blank follows a line break. -/
  blankAfterBreak : Bool
  /-- A line break follows a blank, or a character cannot stand for itself. -/
  needsEscapes : Bool
  /-- The text could be read as something else than a text. -/
  hasIndicator : Bool
deriving DecidableEq

/-- Whether two neighbours in a text are a pair of the given kinds. -/
def hasPair (first second : Char → Bool) : List Char → Bool
  | one :: other :: rest => (first one && second other) || hasPair first second (other :: rest)
  | _ => false

/-- A character that means something where a text begins, given what stands behind it. -/
def isFirstIndicator (character : Char) (rest : List Char) : Bool :=
  "#,[]\x7b\x7d&*!|>'\"%@`".toList.contains character ||
    ((character = '?' || character = ':' || character = '-') && atGap rest)

/-- A colon before a gap or a number sign behind one, from the second character of a text on. -/
def hasInnerIndicator : Char → List Char → Bool
  | _, [] => false
  | before, character :: rest =>
    (character = ':' && atGap rest) || (character = '#' && isGap before) ||
      hasInnerIndicator character rest

/-- The features of a text. -/
def Features.ofText (text : List Char) : Features :=
  match text with
  | [] => ⟨false, false, false, false, false, false⟩
  | first :: rest =>
    let isLoose (character : Char) := character = ' ' || isBreak character
    { multiline := text.any isBreak
      loose := isLoose first || text.getLast?.any isLoose
      blankAtEnd := text.getLast? = some ' '
      blankAfterBreak := hasPair isBreak (· = ' ') text
      needsEscapes := hasPair (· = ' ') isBreak text || !text.all standsForItself
      hasIndicator :=
        text.take 3 = ['-', '-', '-'] || text.take 3 = ['.', '.', '.'] ||
          isFirstIndicator first rest || hasInnerIndicator first rest }

/-- The style in which a text is written that is not empty, where `wanted` is asked for. A key on
the line of its value cannot have lines of its own. -/
def Features.style (features : Features) (wanted : ScalarStyle) (inKey : Bool) : ScalarStyle :=
  let single : ScalarStyle :=
    if features.blankAfterBreak || features.needsEscapes then .doubleQuoted else .singleQuoted
  if inKey && features.multiline then .doubleQuoted
  else
    match wanted with
    | .plain =>
      if features.loose || features.blankAfterBreak || features.needsEscapes ||
          features.multiline || features.hasIndicator then single
      else .plain
    | .singleQuoted => single
    | .doubleQuoted => .doubleQuoted
    | style =>
      if features.blankAtEnd || features.needsEscapes || inKey then .doubleQuoted else style

/-- The blanks of an indentation. -/
def indentation (columns : Nat) : List Char :=
  List.replicate columns ' '

/-- A text between single quotes, from a character on: quotes are doubled, and a line that follows a
break is indented. -/
def singleQuotedFrom (columns : Nat) (behindBreak : Bool) : List Char → List Char
  | [] => if behindBreak then indentation columns else []
  | character :: rest =>
    if isBreak character then character :: singleQuotedFrom columns true rest
    else
      (if behindBreak then indentation columns else []) ++
        (if character = '\'' then ['\'', '\''] else [character]) ++
        singleQuotedFrom columns false rest

/-- The hexadecimal digits of a number, in capitals, with zeros in front up to a length. -/
def paddedHex (length number : Nat) : List Char :=
  let digits := (Nat.toDigits 16 number).map Char.toUpper
  List.replicate (length - digits.length) '0' ++ digits

/-- A character between double quotes. -/
def doubleQuotedCharacter (character : Char) : List Char :=
  let code := character.toNat
  if character = '"' then ['\\', '"']
  else if character = '\\' then ['\\', '\\']
  else if standsForItself character && !isBreak character then [character]
  else if code = 0 then ['\\', '0']
  else if code = 7 then ['\\', 'a']
  else if code = 8 then ['\\', 'b']
  else if code = 9 then ['\\', 't']
  else if code = 10 then ['\\', 'n']
  else if code = 11 then ['\\', 'v']
  else if code = 12 then ['\\', 'f']
  else if code = 13 then ['\\', 'r']
  else if code = 27 then ['\\', 'e']
  else if code = 0x85 then ['\\', 'N']
  else if code = 0x2028 then ['\\', 'L']
  else if code = 0x2029 then ['\\', 'P']
  else if code ≤ 0xff then '\\' :: 'x' :: paddedHex 2 code
  else if code ≤ 0xffff then '\\' :: 'u' :: paddedHex 4 code
  else '\\' :: 'U' :: paddedHex 8 code

/-- The lines of a block from a character on, each with an indentation before its first character.
-/
def blockLinesFrom (columns : Nat) (behindBreak : Bool) : List Char → List Char
  | [] => []
  | character :: rest =>
    if isBreak character then character :: blockLinesFrom columns true rest
    else
      (if behindBreak then indentation columns else []) ++
        character :: blockLinesFrom columns false rest

/-- The header of a block: a digit for the indentation where the text begins with white space, and a
sign for the line breaks at its end. -/
def blockHeader (text : List Char) : List Char :=
  let digit := if text.head?.any fun first ↦ first = ' ' || isBreak first then ['2'] else []
  let sign :=
    match text.reverse with
    | [] => ['-']
    | last :: others =>
      if !isBreak last then ['-']
      else if others.head?.all isBreak then ['+']
      else []
  digit ++ sign

/-- A scalar as text, with the line break behind it. `columns` is the indentation of lines that the
scalar continues on. -/
def scalarText (columns : Nat) (inKey : Bool) (wanted : ScalarStyle) (text : List Char) :
    List Char :=
  if text.isEmpty then
    if inKey || wanted = .singleQuoted then ['\'', '\''] else []
  else
    match (Features.ofText text).style wanted inKey with
    | .plain => text
    | .singleQuoted => ['\''] ++ singleQuotedFrom columns false text ++ ['\'']
    | .doubleQuoted => ['"'] ++ text.flatMap doubleQuotedCharacter ++ ['"']
    | .literal | .folded => ['|'] ++ blockHeader text ++ ['\n'] ++ blockLinesFrom columns true text

/-- A text with a line break behind it, unless it ends with one. -/
def endLine (text : List Char) : List Char :=
  if text.getLast?.any isBreak then text else text ++ ['\n']

namespace Node

/-- The node can be written as a key on the line of its value. -/
def isSimpleKey : Node → Bool
  | .scalar _ _ text => !text.toList.any isBreak && text.utf8ByteSize ≤ 128
  | .sequence _ items => items.isEmpty
  | .mapping _ entries => entries.isEmpty
  | .anchored _ node => node.isSimpleKey
  | .alias _ | .cut => false

/-- A simple key as text. -/
def simpleKeyText : Node → List Char
  | .scalar _ style text => scalarText 0 true style text.toList
  | .sequence .. => ['[', ']']
  | .mapping .. => ['{', '}']
  | .anchored _ node => node.simpleKeyText
  | .alias _ | .cut => []

mutual

/-- A node from a place on whose column is `columns`, with the line break behind it. -/
def textAt (columns : Nat) : Node → List Char
  | .scalar _ style text => endLine (scalarText columns false style text.toList)
  | .sequence _ items => if items.isEmpty then ['[', ']', '\n'] else itemsText columns true items
  | .mapping _ entries =>
    if entries.isEmpty then ['{', '}', '\n'] else entriesText columns true entries
  | .anchored _ node => node.textAt columns
  | .alias _ | .cut => []

/-- The items of a sequence, each behind a hyphen. The first one may stand at the place. -/
def itemsText (columns : Nat) (atPlace : Bool) : List Node → List Char
  | [] => []
  | item :: rest =>
    (if atPlace then [] else indentation columns) ++ ['-', ' '] ++ item.textAt (columns + 2) ++
      itemsText columns false rest

/-- The entries of a mapping, a key with its value each. The first one may stand at the place. -/
def entriesText (columns : Nat) (atPlace : Bool) : List (Node × Node) → List Char
  | [] => []
  | (key, value) :: rest =>
    (if atPlace then [] else indentation columns) ++
      (if key.isSimpleKey then key.simpleKeyText ++ [':'] ++ valueText columns value
        else
          ['?', ' '] ++ key.textAt (columns + 2) ++ indentation columns ++ [':', ' '] ++
            value.textAt (columns + 2)) ++
      entriesText columns false rest

/-- A value behind the colon of its key, which stands at the given column. -/
def valueText (columns : Nat) : Node → List Char
  | .scalar _ style text => [' '] ++ endLine (scalarText (columns + 2) false style text.toList)
  | .sequence _ items =>
    if items.isEmpty then [' ', '[', ']', '\n']
    else ['\n'] ++ indentation columns ++ itemsText columns true items
  | .mapping _ entries =>
    if entries.isEmpty then [' ', '{', '}', '\n']
    else ['\n'] ++ indentation (columns + 2) ++ entriesText (columns + 2) true entries
  | .anchored _ node => valueText columns node
  | .alias _ | .cut => ['\n']

end

/-- The text of a document with this root. -/
def render (node : Node) : String :=
  String.ofList (node.textAt 0)

/-- The scalar that a text is written as: a block for several lines, quotes where the plain text
would stand for something else. -/
def ofText (text : String) : Node :=
  if text.toList.contains '\n' then .scalar none .literal text
  else if plainMeaning text ≠ .text || hasLeadingZero text.toList then
    .scalar none .singleQuoted text
  else .scalar none .plain text

/-- The sequence of texts. -/
def ofTexts (texts : List String) : Node :=
  .sequence none (texts.map ofText)

/-- The mapping of texts to nodes. -/
def ofEntries (entries : List (String × Node)) : Node :=
  .mapping none (entries.map fun entry ↦ (ofText entry.1, entry.2))

/-- The scalar that a floating-point number is written as. -/
def ofFloat (number : Binary64) : Node :=
  .scalar none .plain number.render

end Node

namespace Value

mutual

/-- The node that a value is written as. -/
def toNode : Value → Node
  | .null => .scalar none .plain "null"
  | .boolean value => .scalar none .plain (toString value)
  | .integer value => .scalar none .plain (toString value)
  | .float value => .ofFloat value
  | .text value => .ofText value
  | .sequence items => .sequence none (itemsToNodes items)
  | .mapping entries => .mapping none (entriesToNodes entries)
  | .tagged _ value => value.toNode

/-- The nodes of a list of values. -/
def itemsToNodes : List Value → List Node
  | [] => []
  | item :: rest => item.toNode :: itemsToNodes rest

/-- The nodes of a list of entries. -/
def entriesToNodes : List (Value × Value) → List (Node × Node)
  | [] => []
  | (key, value) :: rest => (key.toNode, value.toNode) :: entriesToNodes rest

end

end Value

end Roster.Yaml
