import Roster.File.Path
import Roster.Lists.Resolve
import Roster.Output

/-!
# Settings

`Settings` say where the list definition, the plans and the sources are, how the sources are read,
what is special about some plans and tests, and how lists are written. Relative paths among them are
taken from the root of the source tree (`underTree`).
-/

set_option autoImplicit false
set_option relaxedAutoImplicit false

namespace Roster

/-- What a run depends on beside its arguments. -/
structure Settings where
  /-- The root of the source tree. -/
  sourceTree : Path
  /-- The list definition. -/
  lists : Path
  /-- The directory of the plans. -/
  plansDirectory : Path
  /-- The roots of the sources. -/
  scrapeRoots : List Path
  /-- The suffixes of source files. -/
  suffixes : List String
  /-- The plans that give no profile. -/
  reservedPlans : List String
  /-- The entries that open and close a run. -/
  bookends : List String
  /-- What stands between two tests in plain text. -/
  separator : String
  /-- The format of lists. -/
  format : OutputFormat
deriving DecidableEq

/-- Why there are no settings to work with. -/
inductive SettingsError
  /-- The file system refuses to read the file. -/
  | file (path : Path) (fault : FileFault)
  /-- The file does not hold settings. -/
  | malformed (path : Path)
  /-- No suffix of source files is given. -/
  | noSuffix
  /-- A suffix begins with its dot. -/
  | dottedSuffix
deriving DecidableEq

/-- The wording of an error. What is wrong inside a file is left to its reader. -/
def SettingsError.message : SettingsError → String
  | .file path fault => "Failed to read config file " ++ path.text ++ ": " ++ fault.message
  | .malformed path => "Failed to parse config file " ++ path.text
  | .noSuffix => "Invalid configuration: scraper.extensions must name at least one extension"
  | .dottedSuffix => "Invalid configuration: scraper.extensions are given without a leading dot"

namespace Settings

/-- The settings where nothing else is said. -/
def standard : Settings where
  sourceTree := "."
  lists := "configurations/testlists.yaml"
  plansDirectory := "testplans"
  scrapeRoots := ["src/tests/*"]
  suffixes := ["go"]
  reservedPlans := ["deprecated", "common", "unscheduled", "upgrade"]
  bookends := [installTest, uninstallTest]
  separator := " "
  format := .plain

instance : Inhabited Settings := ⟨standard⟩

/-- A path taken from the root of the source tree, unless it starts at the root of the file system.
-/
def underTree (settings : Settings) (path : Path) : Path :=
  settings.sourceTree.join path

/-- The path of the list definition. -/
def listsPath (settings : Settings) : Path :=
  settings.underTree settings.lists

/-- The path of the directory of the plans. -/
def plansPath (settings : Settings) : Path :=
  settings.underTree settings.plansDirectory

/-- The paths of the roots of the sources. -/
def scrapeRootPaths (settings : Settings) : List Path :=
  settings.scrapeRoots.map settings.underTree

/-- The settings can be worked with. -/
def validate (settings : Settings) : Except SettingsError Unit :=
  if settings.suffixes.isEmpty then .error .noSuffix
  else if settings.suffixes.any fun suffix ↦ suffix.toList.head? = some '.' then
    .error .dottedSuffix
  else .ok ()

/-- The plans on a disk. -/
def plans (settings : Settings) (disk : Disk) : PlanDirectory :=
  ⟨disk, settings.plansPath⟩

/-- How lists are resolved on a disk. -/
def resolver (settings : Settings) (disk : Disk) : Resolver where
  plans := settings.plans disk
  suffixes := settings.suffixes
  roots := settings.scrapeRootPaths
  reserved := settings.reservedPlans
  bookends := settings.bookends

/-- The tests declared in the sources on a disk. -/
def inventory (settings : Settings) (disk : Disk) : Except ScrapeError Inventory :=
  Source.scrape disk settings.suffixes settings.scrapeRootPaths

/-- The list definition on a disk. -/
def definition (settings : Settings) (disk : Disk) : Except ListError ListDefinition :=
  ListDefinition.ofFile disk settings.listsPath

/-- The resolved lists on a disk. -/
def resolvedLists (settings : Settings) (disk : Disk) : Except ListError ResolvedLists := do
  let definition ← settings.definition disk
  (settings.resolver disk).resolve definition

end Settings

end Roster
