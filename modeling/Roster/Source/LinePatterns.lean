import Roster.Pattern

/-!
# What a declaration looks like

Test sources declare suites and cases by calls that stand on a line of their own. This module has
the patterns of these lines: two calls that give the suites of a directory their class name
(`initTesting`, `runSpecs`), the call that opens a suite (`describe`), and the call that declares a
case, with a description between quotes (`literalCase`) or with any description (`anyCase`).
-/

set_option autoImplicit false
set_option relaxedAutoImplicit false

namespace Roster.Source

open Pattern

/-- Any text within a line. -/
def anything : Pattern := .run .any

/-- Any text between double quotes, under a name. -/
def quotedGroup (name : String) : Pattern :=
  inTurn [.one (.only '"'), .group name anything, .one (.only '"')]

/-- A comma with white space around it. -/
def comma : Pattern :=
  inTurn [spaces, .one (.only ','), spaces]

/-- The beginning of a function without parameters, up to its opening brace. -/
def functionHead : Pattern :=
  inTurn [literal "func", spaces, .one (.only '('), spaces, .one (.only ')'), spaces,
    .one (.only '{')]

/-- White space, or white space with the name of the test package and a dot. -/
def packageStart : Pattern :=
  .orElse spaces (inTurn [spaces, literal "ginkgo."])

/-- The call that names the class of a test directory, in the second argument of at least three. -/
def initTesting : LinePattern where
  atStart := true
  body := inTurn [spaces, .orElse (literal "k8stest") (literal "e2e_ginkgo"), .one .any,
    literal "InitTesting(", .group "t" anything, comma, quotedGroup "classname", comma,
    .group "reportname" anything, spaces, .one (.only ')')]

/-- The call that names the class of a test directory and passes reporters. -/
def runSpecs : LinePattern where
  atStart := true
  body := inTurn [spaces, literal "ginkgo", .one .any,
    literal "RunSpecsWithDefaultAndCustomReporters", spaces, .one (.only '('), spaces, .one .word,
    comma, quotedGroup "classname", spaces, .one (.only ',')]

/-- The assignment of a suite with its description. -/
def describe : LinePattern where
  atStart := true
  body := inTurn [anything, .one (.only '='), packageStart, literal "Describe", spaces,
    .one (.only '('), spaces, quotedGroup "desc", comma, functionHead]

/-- A case whose description stands between quotes. -/
def literalCase : LinePattern where
  atStart := true
  body := inTurn [packageStart, literal "It", spaces, .one (.only '('), spaces, quotedGroup "it",
    comma, functionHead]

/-- A case with any description. -/
def anyCase : LinePattern where
  atStart := true
  body := inTurn [packageStart, literal "It", spaces, .one (.only '('), spaces,
    .group "it" anything, .one (.only ','), spaces, functionHead]

/-- A comment that reaches to the end of its line. -/
def lineComment : LinePattern where
  atStart := false
  body := inTurn [literal "//", anything]

end Roster.Source
