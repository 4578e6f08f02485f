import Roster.Source.LinePatterns
import Roster.Source.Location
import Roster.Text.Split

/-!
# Declarations in a source file

A source file is read line by line, each line trimmed. `classnameOf` is the class name that the last
naming call of a file gives. `declarationsOf` lists the test cases that a file declares.

Declarations are read from the code lines only. A code line ends where a line comment starts, and
the lines of a block comment are skipped whole: from the line that opens it to the first line, that
one included, that closes it (`codeLines`). Each suite line sets the suite for the lines from it on,
and each case line gives one declaration, which is a test if its description is a literal
(`declarationsFrom`).
-/

set_option autoImplicit false
set_option relaxedAutoImplicit false

namespace Roster

/-- A test case found in a source file. -/
inductive Declaration
  /-- A case with its full name. -/
  | test (key : String) (location : SourceLocation)
  /-- A case whose description only the running program knows. -/
  | unresolved (location : SourceLocation)
deriving DecidableEq

/-- Where a declaration stands. -/
def Declaration.location : Declaration → SourceLocation
  | .test _ location => location
  | .unresolved location => location

namespace Source

/-- The full name of a test: class, suite and case, without backslashes. -/
def definitionKey (classname suite case : String) : String :=
  String.ofList ((classname ++ "." ++ suite ++ " " ++ case).toList.filter (· ≠ '\\'))

/-- The class name that a line gives, if it is a naming call. -/
def classnameOfLine (line : List Char) : Option (List Char) :=
  match initTesting.first line with
  | some found => found.capture? "classname"
  | none =>
    match runSpecs.first line with
    | some found => found.capture? "classname"
    | none => none

/-- The class name that a file gives: the one of the last line that gives any. -/
def classnameOf (content : String) : Option String :=
  let given := (Text.lines content.toList).filterMap fun line ↦ classnameOfLine (Text.trim line)
  given.getLast?.map String.ofList

/-- A line of a file with its number. -/
structure NumberedLine where
  /-- The number of the line, counted from one. -/
  number : Nat
  /-- The text of the line. -/
  text : List Char
deriving DecidableEq

/-- Lines with their numbers, counted from a first one. -/
def numberLines (number : Nat) : List (List Char) → List NumberedLine
  | [] => []
  | text :: rest => ⟨number, text⟩ :: numberLines (number + 1) rest

/-- A line trimmed and without its line comment. -/
def withoutComment (line : List Char) : List Char :=
  lineComment.withoutFirst (Text.trim line)

/-- The line opens a block comment. -/
def opensComment (line : List Char) : Bool :=
  Text.occursIn ['/', '*'] line

/-- The line closes a block comment. -/
def closesComment (line : List Char) : Bool :=
  Text.occursIn ['*', '/'] line

/-- The lines outside block comments; `inside` says whether the first line is inside one. A line
that opens or closes a comment is never outside, and one that does both leaves the next line
outside. -/
def outsideComments (inside : Bool) : List NumberedLine → List NumberedLine
  | [] => []
  | line :: rest =>
    if inside || opensComment line.text then
      outsideComments (!closesComment line.text) rest
    else line :: outsideComments false rest

/-- The code lines of a file. -/
def codeLines (content : String) : List NumberedLine :=
  outsideComments false (numberLines 1 ((Text.lines content.toList).map withoutComment))

/-- The suite from a line on, where `suite` is the one before it. -/
def suiteFrom (suite : List Char) (line : List Char) : List Char :=
  ((describe.first line).bind (·.capture? "desc")).getD suite

/-- The declaration on a line, which stands in a suite. -/
def declarationOn (file : Path) (classname : String) (suite : List Char) (line : NumberedLine) :
    Option Declaration :=
  let location : SourceLocation := ⟨file, line.number, String.ofList line.text⟩
  match (literalCase.first line.text).bind (·.capture? "it") with
  | some case =>
    some (.test (definitionKey classname (String.ofList suite) (String.ofList case)) location)
  | none => if anyCase.matchesLine line.text then some (.unresolved location) else none

/-- The declarations on code lines, where `suite` is the suite before the first of them. -/
def declarationsFrom (file : Path) (classname : String) (suite : List Char) :
    List NumberedLine → List Declaration
  | [] => []
  | line :: rest =>
    let suite := suiteFrom suite line.text
    (declarationOn file classname suite line).toList ++
      declarationsFrom file classname suite rest

/-- The test cases that a file declares, in the order of its lines. -/
def declarationsOf (content : String) (file : Path) (classname : String) : List Declaration :=
  declarationsFrom file classname [] (codeLines content)

end Source

end Roster
