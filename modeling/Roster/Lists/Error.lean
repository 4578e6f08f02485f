import Roster.Plan.Load
import Roster.Source.Scrape
import Roster.Text.Quoted

/-!
# Errors of test lists

A `ListError` says why the lists of a definition cannot be made or why one of them cannot be given.
Errors of the plans and of the sources are passed on as they are.
-/

set_option autoImplicit false
set_option relaxedAutoImplicit false

namespace Roster

/-- Why test lists cannot be made. -/
inductive ListError
  /-- The list definition does not exist. -/
  | notFound (path : Path)
  /-- The file system refuses to read the list definition. -/
  | file (path : Path) (fault : FileFault)
  /-- The list definition is not one. -/
  | malformed (path : Path) (fault : Yaml.ReadError)
  /-- No profile has this name. -/
  | profileNotFound (name : String)
  /-- An entry of a plan does not say which test implements it. -/
  | missingReference (plan testcase : String)
  /-- An entry of a plan refers to a test that is declared nowhere. -/
  | undeclared (plan testcase reference : String)
  /-- The file that declares a test has no directory to name the test after. -/
  | unnamedDirectory (plan testcase : String) (source : Path)
  /-- The sources could not be read. -/
  | sources (error : ScrapeError)
  /-- A plan could not be loaded. -/
  | plans (error : PlanError)

/-- The wording of an error. What is wrong inside a definition is left to its reader. -/
def ListError.message : ListError → String
  | .notFound path => "List definition not found at " ++ path.text
  | .file path fault => "IO error at " ++ path.text ++ ": " ++ fault.message
  | .malformed path _ => "Invalid list definition " ++ path.text
  | .profileNotFound name => "Profile not found: " ++ name
  | .missingReference plan testcase =>
    "Plan " ++ plan ++ ": testcase " ++ testcase ++ " has no testcase reference"
  | .undeclared plan testcase reference =>
    "Plan " ++ plan ++ ": testcase " ++ testcase ++ " references " ++ Text.quoted reference ++
      ", which is not declared in any scraped source"
  | .unnamedDirectory plan testcase source =>
    "Plan " ++ plan ++ ": cannot derive a test name from " ++ source.text ++ " (testcase " ++
      testcase ++ ")"
  | .sources error => error.message
  | .plans error => error.message

/-- What the reader of a document says about an error, if it has words of its own for it. -/
def ListError.detail? : ListError → Option String
  | .malformed _ fault => fault.detail?
  | .plans error => error.detail?
  | _ => none

end Roster
