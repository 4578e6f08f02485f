import Roster.Diagnostic
import Roster.Source.Declarations
import Roster.Table

/-!
# The inventory of tests

An `Inventory` holds the tests found in the sources, by their full names, with the place where each
is declared (`TestDefinition`). `record` adds the declarations one by one: the first declaration of a
name counts, and every other one, as well as every case without a literal description, is reported.
-/

set_option autoImplicit false
set_option relaxedAutoImplicit false

namespace Roster

/-- A test with the place where it is declared. -/
structure TestDefinition where
  /-- The full name of the test. -/
  key : String
  /-- Where the test is declared. -/
  location : SourceLocation
deriving DecidableEq

/-- The file that declares a test. -/
def TestDefinition.declaringFile (definition : TestDefinition) : Path :=
  definition.location.file

/-- The declared tests with their places, and what was reported on the way. -/
structure Inventory where
  /-- The tests, each under its full name. -/
  definitions : Table TestDefinition
  /-- The reports, in the order of the declarations. -/
  diagnostics : List Diagnostic
deriving Inhabited

namespace Inventory

/-- No test was found. -/
def empty : Inventory := ⟨∅, []⟩

/-- The inventory with one more declaration. -/
def record (inventory : Inventory) : Declaration → Inventory
  | .test key location =>
    match inventory.definitions.get? key with
    | none => { inventory with definitions := inventory.definitions.insert key ⟨key, location⟩ }
    | some first =>
      { inventory with
        diagnostics := inventory.diagnostics ++ [.duplicate key first.location location] }
  | .unresolved location =>
    { inventory with diagnostics := inventory.diagnostics ++ [.unresolved location] }

/-- The inventory of a list of declarations. -/
def ofDeclarations (declarations : List Declaration) : Inventory :=
  declarations.foldl record empty

/-- The file that declares a test. -/
def sourceOf (inventory : Inventory) (key : String) : Option Path :=
  (inventory.definitions.get? key).map TestDefinition.declaringFile

/-- The declaring files by the names of the tests. -/
def sources (inventory : Inventory) : Table Path :=
  inventory.definitions.map TestDefinition.declaringFile

end Inventory

end Roster
