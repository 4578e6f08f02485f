import Roster.Json
import Roster.Output
import Roster.Plan.Load

/-!
# Upgrade runs

Upgrade tests start from an earlier release, so that their install has to be run apart from the
rest, with the tag of that release. The tag is given, or it is the release that the plan names.

`runsFor` splits a list of tests into the runs that it takes, and `versionOf` finds the one release
that a plan and the plans it includes name.
-/

set_option autoImplicit false
set_option relaxedAutoImplicit false

namespace Roster

/-- Why there is no tag for the install. -/
inductive UpgradeError
  /-- Neither a tag nor a plan was given. -/
  | noSource
  /-- A plan names two releases. -/
  | conflict (plan first second : String)
  /-- A plan names no release. -/
  | missing (plan : String)
deriving DecidableEq

/-- The wording of an error. -/
def UpgradeError.message : UpgradeError → String
  | .noSource =>
    "Upgrade tests need an install tag, but neither an install tag nor a plan was given"
  | .conflict plan first second =>
    "Plan " ++ plan ++ " names incompatible upgrade-from-versions " ++ first ++ " and " ++ second
  | .missing plan => "Cannot run upgrade tests: plan " ++ plan ++ " has no upgrade-from-version"

/-- One call of the runner. -/
structure Run where
  /-- The release to run with, if it is not the current one. -/
  tag : Option String
  /-- The tests to run, in order. -/
  tests : List String
deriving DecidableEq

/-- The calls of the runner that a list of tests takes. -/
structure Runs where
  /-- The install of an earlier release, which comes first. -/
  install : Option Run
  /-- All other tests. -/
  main : Run
deriving DecidableEq

/-- A plan that was loaded, with its name. -/
structure NamedPlan where
  /-- The name of the plan. -/
  name : String
  /-- The plan. -/
  plan : LoadedPlan

/-- Some test of a list needs an install of an earlier release. -/
def requiresInstallTag (tests overrides : List String) : Bool :=
  overrides.any tests.contains

/-- The one release in a list, in which all have to be the same. -/
def oneVersion (plan : String) : List String → Except UpgradeError String
  | [] => .error (.missing plan)
  | [version] => .ok version
  | first :: second :: rest =>
    if first = second then oneVersion plan (second :: rest)
    else .error (.conflict plan first second)

/-- The release that the upgrade tests of a plan start from. -/
def NamedPlan.versionOf (plan : NamedPlan) : Except UpgradeError String :=
  oneVersion plan.name plan.plan.upgradeVersions

/-- The tag for the install of a list of tests, if it needs one. A given tag counts before all else.
-/
def tagFor (tests overrides : List String) (given : Option String) (plan : Option NamedPlan) :
    Except UpgradeError (Option String) :=
  match given with
  | some tag => .ok (some tag)
  | none =>
    if requiresInstallTag tests overrides then
      match plan with
      | none => .error .noSource
      | some plan => plan.versionOf.map some
    else .ok none

/-- The runs for a list of tests under a tag. The install becomes a run of its own if there is both
an install in the list and a tag for it. -/
def splitInstall (tests : List String) : Option String → Runs
  | none => ⟨none, ⟨none, tests⟩⟩
  | some tag =>
    if tests.contains installTest then
      ⟨some ⟨some tag, [installTest]⟩, ⟨none, tests.filter (· ≠ installTest)⟩⟩
    else ⟨none, ⟨none, tests⟩⟩

/-- The runs that a list of tests takes. -/
def runsFor (tests overrides : List String) (given : Option String) (plan : Option NamedPlan) :
    Except UpgradeError Runs :=
  (tagFor tests overrides given plan).map (splitInstall tests)

/-- A run as it is written. -/
def Run.toJson (run : Run) : Json :=
  .object ((run.tag.toList.map fun tag ↦ ("tag", Json.text tag)) ++
    [("tests", Json.ofTexts run.tests)])

/-- Runs as they are written. -/
def Runs.toJson (runs : Runs) : Json :=
  .object ((runs.install.toList.map fun run ↦ ("install", run.toJson)) ++
    [("main", runs.main.toJson)])

end Roster
