import Roster.File.Path

/-!
# Places in source files

A `SourceLocation` is a line of a source file with the text that was found on it.
-/

set_option autoImplicit false
set_option relaxedAutoImplicit false

namespace Roster

/-- A line of a source file. -/
structure SourceLocation where
  /-- The file. -/
  file : Path
  /-- The number of the line, counted from one. -/
  line : Nat
  /-- The text of the line, trimmed and without a comment at its end. -/
  text : String
deriving DecidableEq

/-- A location on one line of text. -/
def SourceLocation.display (location : SourceLocation) : String :=
  location.file.text ++ ":" ++ toString location.line ++ ": " ++ location.text

end Roster
