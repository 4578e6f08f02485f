import Roster.Binary64.Basic
import Roster.Lists.Error
import Roster.Lists.Profiles

/-!
# Resolved lists

`ResolvedLists` holds the profiles of a definition as they came out of its resolution, and what is
needed to give one of them out. `get` leaves out the entries that open and close a run and sorts the
rest by name, or by recorded duration with the longest first. Equal durations leave the order of the
names.
-/

set_option autoImplicit false
set_option relaxedAutoImplicit false

namespace Roster

/-- The outcome of the resolution of a list definition. -/
structure ResolvedLists where
  /-- All profiles. -/
  profiles : Profiles
  /-- The tests left out of regression runs. -/
  excluded : List String
  /-- The seconds that tests took when they last ran. -/
  durations : Table Binary64
  /-- The tests that need an install of an earlier release. -/
  installOverrides : List String
  /-- The entries that open and close a run. -/
  bookends : List String
  /-- What was reported on the way. -/
  diagnostics : List Diagnostic
deriving Inhabited

namespace ResolvedLists

/-- The names of the profiles, in ascending order. -/
def names (lists : ResolvedLists) : List String :=
  lists.profiles.names

/-- The list of a profile as it was resolved. -/
def members (lists : ResolvedLists) (profile : String) : Option (List String) :=
  lists.profiles.get? profile

/-- The recorded seconds of a test, zero if there are none. -/
def durationOf (lists : ResolvedLists) (test : String) : Binary64 :=
  (lists.durations.get? test).getD Binary64.zero

/-- One test took as long as another one, or longer. -/
def notShorter (lists : ResolvedLists) (first second : String) : Bool :=
  (lists.durationOf second).orderKey ≤ (lists.durationOf first).orderKey

/-- The tests of a list that do not open or close a run, by name. -/
def withoutBookends (lists : ResolvedLists) (tests : List String) : List String :=
  sortNames (tests.filter fun test ↦ !lists.bookends.contains test)

/-- Tests with the longest first. Those that took equally long stay in their order. -/
def sortByDuration (lists : ResolvedLists) (tests : List String) : List String :=
  tests.mergeSort lists.notShorter

/-- The list of a profile to run. -/
def get (lists : ResolvedLists) (profile : String) (by_duration : Bool) :
    Except ListError (List String) :=
  match lists.members profile with
  | none => .error (.profileNotFound profile)
  | some tests =>
    let sorted := lists.withoutBookends tests
    .ok (if by_duration then lists.sortByDuration sorted else sorted)

end ResolvedLists

end Roster
