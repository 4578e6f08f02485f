import Roster.Lists.Definition
import Roster.Lists.Derive
import Roster.Lists.Resolved

/-!
# Resolution

Resolution makes the lists of a definition. The explicit profiles come first, and each plan of the
plan directory that is not reserved adds one, unless an explicit profile has its name. Then the
unions are added, the groupings are collapsed, the exclusions are expanded, and the profile of all
tests is added at the end.

The sources are read at most once, and only if some plan needs it. `pendingPlans` and
`shadowedPlans` say which plans do and which do not.
-/

set_option autoImplicit false
set_option relaxedAutoImplicit false

namespace Roster

/-- Where and how the lists of a definition are resolved. -/
structure Resolver where
  /-- The plans. -/
  plans : PlanDirectory
  /-- The suffixes of source files. -/
  suffixes : List String
  /-- The roots of the sources. -/
  roots : List Path
  /-- The plans that give no profile. -/
  reserved : List String
  /-- The entries that open and close a run. -/
  bookends : List String

namespace Resolver

/-- The explicit profiles of a definition, each test once. One without a list is empty. -/
def explicitProfiles (profiles : Table (Option (List String))) : Profiles :=
  profiles.map fun tests ↦ withoutRepeats (tests.getD [])

/-- The plans among some names that are not reserved. -/
def openPlans (resolver : Resolver) (names : List String) : List String :=
  names.filter fun name ↦ !resolver.reserved.contains name

/-- The plans that an explicit profile stands for. -/
def shadowedPlans (resolver : Resolver) (explicit : Profiles) (names : List String) :
    List String :=
  (resolver.openPlans names).filter explicit.contains

/-- The plans that need a profile. -/
def pendingPlans (resolver : Resolver) (explicit : Profiles) (names : List String) : List String :=
  (resolver.openPlans names).filter fun name ↦ !explicit.contains name

/-- The inventory of the sources. -/
def inventory (resolver : Resolver) : Except ListError Inventory :=
  match Source.scrape resolver.plans.disk resolver.suffixes resolver.roots with
  | .ok inventory => .ok inventory
  | .error error => .error (.sources error)

/-- The profiles of some plans, in their order. -/
def derived (resolver : Resolver) (inventory : Inventory) (pending : List String) :
    Except ListError (List (String × List String)) :=
  pending.mapM fun plan ↦ do
    return (plan, ← deriveProfile resolver.plans inventory plan)

/-- The explicit profiles with those of the plans, and what was reported on the way. -/
def withPlans (resolver : Resolver) (explicit : Profiles) :
    Except ListError (Profiles × List Diagnostic) :=
  match resolver.plans.names with
  | .error error => .error (.plans error)
  | .ok names =>
    let notes := (resolver.shadowedPlans explicit names).map Diagnostic.explicitOverPlan
    match resolver.pendingPlans explicit names with
    | [] => .ok (explicit, notes)
    | pending => do
      let inventory ← resolver.inventory
      let found ← resolver.derived inventory pending
      return (explicit.insertAll found, notes ++ inventory.diagnostics)

/-- The lists of a definition. -/
def resolve (resolver : Resolver) (definition : ListDefinition) :
    Except ListError ResolvedLists := do
  let (based, reports) ← resolver.withPlans (explicitProfiles definition.explicitProfiles)
  let united := based.withUnions definition.unions
  let collapsed := united.collapse definition.metadata.groupings
  return {
    profiles := collapsed.withAll
    excluded := collapsed.expand definition.metadata.excluded
    durations := definition.metadata.durations
    installOverrides := definition.metadata.installOverrides
    bookends := resolver.bookends
    diagnostics := reports ++ based.unionDiagnostics definition.unions }

end Resolver

/-- The list definition that a file holds. -/
def ListDefinition.ofFile (disk : Disk) (path : Path) : Except ListError ListDefinition :=
  if disk.isFile path then
    match disk.readText path with
    | .error fault => .error (.file path fault)
    | .ok text =>
      match ListDefinition.ofYaml text with
      | .error fault => .error (.malformed path fault)
      | .ok definition => .ok definition
  else .error (.notFound path)

end Roster
