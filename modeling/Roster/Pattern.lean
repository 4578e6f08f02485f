import Roster.Text.Blank
import Roster.Text.Word

/-!
# Line patterns

A `Pattern` describes texts: single characters of a class, fixed texts, runs of characters of a
class, sequences, choices and named groups. `Pattern.run` finds the first match in the order in
which a pattern prefers them: a run takes as many characters as it can before it takes fewer, and
the first branch of a choice comes before the second. What follows the pattern is passed to it as a
function of the rest of the text, and a preferred match that this function refuses is given up for
the next one.

A `LinePattern` says where in a line its pattern may start. `LinePattern.first` is the first match
from the left, and `LinePattern.withoutFirst` takes it out of the line.
-/

set_option autoImplicit false
set_option relaxedAutoImplicit false

namespace Roster

/-- A class of characters. -/
inductive CharacterClass
  /-- One character. -/
  | only (character : Char)
  /-- The white-space characters. -/
  | blank
  /-- The word characters. -/
  | word
  /-- Every character but the line feed. -/
  | any
deriving DecidableEq

/-- Whether a character is in a class. -/
def CharacterClass.holds : CharacterClass → Char → Bool
  | .only expected, character => character = expected
  | .blank, character => Text.isBlank character
  | .word, character => Text.isWord character
  | .any, character => character ≠ '\n'

/-- A description of texts. -/
inductive Pattern
  /-- One character of a class. -/
  | one (characters : CharacterClass)
  /-- A fixed text. -/
  | exactly (text : List Char)
  /-- Any number of characters of a class, rather more than fewer. -/
  | run (characters : CharacterClass)
  /-- One pattern behind the other. -/
  | thenMatch (first second : Pattern)
  /-- The first pattern, or else the second. -/
  | orElse (first second : Pattern)
  /-- A pattern whose text is kept under a name. -/
  | group (name : String) (body : Pattern)
deriving DecidableEq

/-- The texts that the groups of a match stand for, by name. -/
abbrev Captures := List (String × List Char)

namespace Pattern

/-- What follows a fixed text at the start of another one. -/
def afterText : List Char → List Char → Option (List Char)
  | [], rest => some rest
  | _ :: _, [] => none
  | expected :: others, character :: rest =>
    if character = expected then afterText others rest else none

/-- The first accepted rest behind a run of characters of a class: behind the longest run first. -/
def behindRun {Result : Type} (characters : CharacterClass)
    (accept : List Char → Option Result) : List Char → Option Result
  | [] => accept []
  | character :: rest =>
    if characters.holds character then
      match behindRun characters accept rest with
      | some result => some result
      | none => accept (character :: rest)
    else accept (character :: rest)

/-- The first result, in the order of preference, that is accepted for a match at the start of a
text: `accept` is asked about the groups of the match and the text behind it. -/
def first {Result : Type} : Pattern → Captures → List Char →
    (Captures → List Char → Option Result) → Option Result
  | .one characters, captures, text, accept =>
    match text with
    | character :: rest => if characters.holds character then accept captures rest else none
    | [] => none
  | .exactly expected, captures, text, accept =>
    match afterText expected text with
    | some rest => accept captures rest
    | none => none
  | .run characters, captures, text, accept => behindRun characters (accept captures) text
  | .thenMatch before after, captures, text, accept =>
    before.first captures text fun captures rest ↦ after.first captures rest accept
  | .orElse preferred other, captures, text, accept =>
    match preferred.first captures text accept with
    | some result => some result
    | none => other.first captures text accept
  | .group name body, captures, text, accept =>
    body.first captures text fun captures rest ↦
      accept (captures ++ [(name, text.take (text.length - rest.length))]) rest

/-- Patterns one behind the other. -/
def inTurn : List Pattern → Pattern
  | [] => .exactly []
  | [only] => only
  | next :: others => .thenMatch next (inTurn others)

/-- Any amount of white space. -/
def spaces : Pattern := .run .blank

/-- A fixed text. -/
def literal (text : String) : Pattern := .exactly text.toList

end Pattern

/-- A match in a line. -/
structure LineMatch where
  /-- What stands before the match. -/
  before : List Char
  /-- What stands behind the match. -/
  after : List Char
  /-- The texts of the groups. -/
  captures : Captures
deriving DecidableEq

/-- The text of a group of a match. -/
def LineMatch.capture? (found : LineMatch) (name : String) : Option (List Char) :=
  (found.captures.find? fun capture ↦ capture.1 = name).map Prod.snd

/-- A pattern with the places of a line that it may start at. -/
structure LinePattern where
  /-- The pattern may start only at the beginning of the line. -/
  atStart : Bool
  /-- The pattern. -/
  body : Pattern
deriving DecidableEq

namespace LinePattern

/-- The preferred match at the start of a text. -/
def here (pattern : LinePattern) (before text : List Char) : Option LineMatch :=
  pattern.body.first [] text fun captures after ↦
    some ⟨before, after, captures⟩

/-- The preferred match at the first place that has one, where `before` precedes the text. -/
def firstFrom (pattern : LinePattern) (before : List Char) : List Char → Option LineMatch
  | [] => pattern.here before []
  | character :: rest =>
    match pattern.here before (character :: rest) with
    | some found => some found
    | none =>
      if pattern.atStart then none else pattern.firstFrom (before ++ [character]) rest

/-- The first match in a line. -/
def first (pattern : LinePattern) (line : List Char) : Option LineMatch :=
  pattern.firstFrom [] line

/-- Whether a line has a match. -/
def matchesLine (pattern : LinePattern) (line : List Char) : Bool :=
  (pattern.first line).isSome

/-- A line without the first match in it. -/
def withoutFirst (pattern : LinePattern) (line : List Char) : List Char :=
  match pattern.first line with
  | some found => found.before ++ found.after
  | none => line

end LinePattern

end Roster
