import Roster.Lists.Error

/-!
# Profiles of plans

A plan without an explicit profile gets one from its test cases. Each of them refers to a test of
the inventory, and the tests to run are named after the directories that hold the directories of the
declaring files (`testName?`).

`deriveProfile` lists these names. The first test case, in order of the names, for which there is
none decides the error.
-/

set_option autoImplicit false
set_option relaxedAutoImplicit false

namespace Roster

/-- The name of the directory two levels above a file. -/
def testName? (file : Path) : Option String := do
  let directory ← file.parent
  let above ← directory.parent
  above.fileName

/-- The test to run for an entry of a plan. -/
def testOfEntry (inventory : Inventory) (plan : String) (entry : String × Testcase) :
    Except ListError String :=
  match entry.2.reference with
  | none => .error (.missingReference plan entry.1)
  | some reference =>
    match inventory.sourceOf reference with
    | none => .error (.undeclared plan entry.1 reference)
    | some file =>
      match testName? file with
      | none => .error (.unnamedDirectory plan entry.1 file)
      | some name => .ok name

/-- The tests to run for a plan, in ascending order. -/
def deriveProfile (plans : PlanDirectory) (inventory : Inventory) (plan : String) :
    Except ListError (List String) :=
  match plans.testsOf plan with
  | .error error => .error (.plans error)
  | .ok entries => (entries.mapM (testOfEntry inventory plan)).map ascending

end Roster
