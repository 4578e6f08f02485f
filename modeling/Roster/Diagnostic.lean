import Roster.Source.Location

/-!
# Diagnostics

A `Diagnostic` reports something that did not stop a run. Declarations that are lost are warnings;
names that stand for two things are notes, since the rule that decides between them is known.
-/

set_option autoImplicit false
set_option relaxedAutoImplicit false

namespace Roster

/-- How much attention a diagnostic deserves. -/
inductive Severity
  /-- Worth knowing. -/
  | note
  /-- Probably a mistake in the sources. -/
  | warning
deriving DecidableEq

/-- Something worth reporting. -/
inductive Diagnostic
  /-- Two declarations give the same test. The first one counts. -/
  | duplicate (key : String) (first again : SourceLocation)
  /-- The description of a declaration is not a literal. -/
  | unresolved (location : SourceLocation)
  /-- A plan has the name of an explicit profile, which counts. -/
  | explicitOverPlan (profile : String)
  /-- A union has the name of another profile and replaces it. -/
  | unionOverProfile (profile : String)
deriving DecidableEq

namespace Diagnostic

/-- The attention that a diagnostic deserves. -/
def severity : Diagnostic → Severity
  | .duplicate .. | .unresolved _ => .warning
  | .explicitOverPlan _ | .unionOverProfile _ => .note

/-- The diagnostic is a warning. -/
def isWarning (diagnostic : Diagnostic) : Bool :=
  diagnostic.severity = .warning

/-- The wording of a diagnostic. -/
def message : Diagnostic → String
  | .duplicate key first again =>
    "duplicate definition " ++ key ++ "\n  first: " ++ first.display ++ "\n  again: " ++
      again.display
  | .unresolved location => "unresolved test declaration\n  " ++ location.display
  | .explicitOverPlan profile =>
    "profile " ++ profile ++ " is defined explicitly, plan " ++ profile ++
      " is not used to derive it"
  | .unionOverProfile profile =>
    "macro profile " ++ profile ++ " replaces a profile of the same name"

/-- The warnings among diagnostics. -/
def warnings (diagnostics : List Diagnostic) : List Diagnostic :=
  diagnostics.filter isWarning

/-- How many diagnostics are warnings. -/
def warningCount (diagnostics : List Diagnostic) : Nat :=
  (warnings diagnostics).length

/-- Warnings of two runs together are those of each. -/
@[simp] theorem warnings_append (first second : List Diagnostic) :
    warnings (first ++ second) = warnings first ++ warnings second := by
  simp [warnings]

end Diagnostic

end Roster
