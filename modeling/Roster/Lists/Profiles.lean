import Roster.Diagnostic
import Roster.Lists.Grouping
import Roster.Table

/-!
# Profiles

A profile is a named list of tests. What is said of profiles once they all are known comes down to a
few changes of their table: unions of profiles are added under names of their own (`withUnions`),
groupings are collapsed in all of them (`collapse`), and the profile `ALL` unites all others
(`withAll`). `expand` replaces the names of profiles in a list of tests by their members.

`get?_collapse` gives the list of a profile after the groupings, and `mem_union` the members of a
union.
-/

set_option autoImplicit false
set_option relaxedAutoImplicit false

namespace Roster

/-- Lists of tests by the names of their profiles. -/
abbrev Profiles := Table (List String)

namespace Profiles

/-- The name of the profile that unites all others. -/
def allName : String := "ALL"

/-- The members of a profile; a profile that does not exist has none. -/
def membersOf (profiles : Profiles) (name : String) : List String :=
  (profiles.get? name).getD []

/-- The members of some profiles together, in ascending order. -/
def union (profiles : Profiles) (names : List String) : List String :=
  ascending (names.flatMap profiles.membersOf)

/-- The profiles with unions added. All unions are made of the profiles as they were before, so that
none is part of another; a union replaces a profile of its name. -/
def withUnions (profiles : Profiles) (unions : Table (List String)) : Profiles :=
  profiles.insertAll (unions.map profiles.union).entries

/-- The reports about unions that replace a profile. -/
def unionDiagnostics (profiles : Profiles) (unions : Table (List String)) : List Diagnostic :=
  (unions.names.filter profiles.contains).map Diagnostic.unionOverProfile

/-- The profiles after some groupings, in their order. -/
def collapse (profiles : Profiles) (groupings : List Grouping) : Profiles :=
  profiles.map (Grouping.collapseAll groupings)

/-- What an entry of a list of exclusions stands for: the members of the profile of this name, and
itself if there is none. -/
def expandEntry (profiles : Profiles) (entry : String) : List String :=
  (profiles.get? entry).getD [entry]

/-- A list of exclusions with profiles replaced by their members, each entry once. -/
def expand (profiles : Profiles) (entries : List String) : List String :=
  withoutRepeats (entries.flatMap profiles.expandEntry)

/-- The names of the profiles that the profile of all tests unites. -/
def namesBelowAll (profiles : Profiles) : List String :=
  profiles.names.filter (· ≠ allName)

/-- The profiles with the one that unites all others, whatever was there under its name. -/
def withAll (profiles : Profiles) : Profiles :=
  profiles.insert allName (profiles.union profiles.namesBelowAll)

theorem mem_union {profiles : Profiles} {names : List String} {test : String} :
    test ∈ profiles.union names ↔ ∃ name ∈ names, test ∈ profiles.membersOf name := by
  simp [union]

/-- A union lists its members in ascending order. -/
theorem union_ascending (profiles : Profiles) (names : List String) :
    Ascending (profiles.union names) :=
  ascending_ascending _

/-- The groupings apply to each profile on its own. -/
theorem get?_collapse (profiles : Profiles) (groupings : List Grouping) (name : String) :
    (profiles.collapse groupings).get? name =
      (profiles.get? name).map (Grouping.collapseAll groupings) :=
  Table.get?_map profiles _ name

end Profiles

end Roster
