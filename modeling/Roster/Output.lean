import Roster.File.Tree
import Roster.Json
import Roster.Text.Quoted
import Roster.Yaml.Writer

/-!
# Giving out a list of tests

`ListOptions` says how a list of tests is given to the runner. `decorate` puts an install at the
start and an uninstall at the end of the list, or around each of its tests, and `render` writes the
list as plain text with a separator, as JSON or as YAML.

Installing around each test leaves no room for an install of the whole list, so `validate` refuses
the two together.
-/

set_option autoImplicit false
set_option relaxedAutoImplicit false

namespace Roster

/-- The entry that installs the system. -/
def installTest : String := "install"

/-- The entry that removes the system. -/
def uninstallTest : String := "uninstall"

/-- How a list is written. -/
inductive OutputFormat
  /-- The entries with a separator between them. -/
  | plain
  /-- A JSON array. -/
  | json
  /-- A YAML sequence. -/
  | yaml
deriving DecidableEq, Inhabited

/-- Why a list cannot be given out. -/
inductive OutputError
  /-- An install around each test was asked for together with one of the whole list. -/
  | incompatibleOptions
  /-- No format has this name. -/
  | unknownFormat (name : String)
  /-- The file system refuses to write the list. -/
  | file (path : Path) (fault : FileFault)
deriving DecidableEq

/-- The wording of an error. -/
def OutputError.message : OutputError → String
  | .incompatibleOptions =>
    "Incompatible options: wrapping each test cannot be combined with a leading install or " ++
      "trailing uninstall"
  | .unknownFormat name =>
    "Unknown output format " ++ Text.quoted name ++ ", expected plain, json or yaml"
  | .file path fault => "IO error at " ++ path.text ++ ": " ++ fault.message

namespace OutputFormat

/-- The name of a format. -/
def name : OutputFormat → String
  | .plain => "plain"
  | .json => "json"
  | .yaml => "yaml"

/-- The format of a name, of which the case of ASCII letters does not matter. -/
def ofName (name : String) : Except OutputError OutputFormat :=
  let lower := String.ofList (name.toList.map Char.toLower)
  if lower = "plain" || lower = "text" then .ok .plain
  else if lower = "json" then .ok .json
  else if lower = "yaml" || lower = "yml" then .ok .yaml
  else .error (.unknownFormat name)

end OutputFormat

/-- How a list of tests is given to the runner. -/
structure ListOptions where
  /-- The run starts with an install. -/
  install : Bool
  /-- The run ends with an uninstall. -/
  uninstall : Bool
  /-- Each test runs between an install and an uninstall of its own. -/
  wrap : Bool
  /-- What stands between two tests in plain text. -/
  separator : String
  /-- The format of the list. -/
  format : OutputFormat
deriving DecidableEq, Inhabited

namespace ListOptions

/-- The options can be met together. -/
def validate (options : ListOptions) : Except OutputError Unit :=
  if options.wrap && (options.install || options.uninstall) then .error .incompatibleOptions
  else .ok ()

/-- A list of tests with the installs and uninstalls that were asked for. -/
def decorate (options : ListOptions) (tests : List String) : Except OutputError (List String) :=
  match options.validate with
  | .error error => .error error
  | .ok () =>
    if options.wrap then .ok (tests.flatMap fun test ↦ [installTest, test, uninstallTest])
    else
      .ok ((if options.install then [installTest] else []) ++ tests ++
        (if options.uninstall then [uninstallTest] else []))

/-- The text of a list. -/
def render (options : ListOptions) (tests : List String) : String :=
  match options.format with
  | .plain => String.intercalate options.separator tests
  | .json => (Json.ofTexts tests).render .compact
  | .yaml => (Yaml.Node.ofTexts tests).render

end ListOptions

/-- The disk with a text in the place of what a file held. -/
def writeOutput (disk : Disk) (path : Path) (text : String) : Except OutputError Disk :=
  match disk.writeFile path text with
  | .ok disk => .ok disk
  | .error fault => .error (.file path fault)

end Roster
