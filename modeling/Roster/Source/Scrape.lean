import Roster.File.Tree
import Roster.Source.Classnames
import Roster.Source.Inventory

/-!
# Finding the tests of a source tree

`scrape` reads the sources below a list of roots. A root whose last component is a star stands for
the directories beside it (`expandRoots`), and a root that does not exist counts for nothing. Each
directory right below a root, or below its `tests` directory if it has one, is a target. The source
files right inside a target are read in the order of their names: first for the one class name that
they give the target, then for their declarations (`Target.declarations`).

A target without a class name declares nothing. Two class names in one target stop the run.
-/

set_option autoImplicit false
set_option relaxedAutoImplicit false

namespace Roster

/-- Why the sources could not be read. -/
inductive ScrapeError
  /-- A directory has two class names. -/
  | clash (clash : ClassnameClash)
  /-- The file system refused a request. -/
  | file (path : Path) (fault : FileFault)
deriving DecidableEq

/-- The wording of an error. -/
def ScrapeError.message : ScrapeError → String
  | .clash found => found.message
  | .file path fault => "IO error at " ++ path.text ++ ": " ++ fault.message

namespace Source

/-- A source file with its text. -/
structure SourceFile where
  /-- The path of the file. -/
  path : Path
  /-- The text of the file. -/
  content : String
deriving DecidableEq

/-- A directory of source files. -/
structure Target where
  /-- The path of the directory. -/
  path : Path
  /-- The source files right inside it, by name. -/
  files : List SourceFile
deriving DecidableEq

/-- The name of the last component that stands for every directory beside it. -/
def wildcard : String := "*"

/-- The directory of a root that holds its targets, if there is one. -/
def testsDirectory : Path := "tests"

/-- The directories right inside a directory, by name. -/
def subdirectories (disk : Disk) (path : Path) : Except ScrapeError (List Path) :=
  match disk.listDirectory path with
  | .ok entries =>
    .ok ((entries.filter fun entry ↦ entry.2.isDirectory).map fun entry ↦ path.join entry.1)
  | .error fault => .error (.file path fault)

/-- The roots that a root stands for. -/
def expandRoot (disk : Disk) (root : Path) : Except ScrapeError (List Path) :=
  if root.fileName = some wildcard then
    match root.parent with
    | some parent => if disk.isDirectory parent then subdirectories disk parent else .ok []
    | none => .ok [root]
  else .ok [root]

/-- The roots that a list of roots stands for. -/
def expandRoots (disk : Disk) (roots : List Path) : Except ScrapeError (List Path) :=
  (roots.mapM (expandRoot disk)).map List.flatten

/-- A file name with one of the given suffixes. -/
def isSource (suffixes : List String) (name : String) : Bool :=
  match Path.suffix name with
  | some suffix => suffixes.contains suffix
  | none => false

/-- The source files among the entries of a directory. -/
def sourceFiles (suffixes : List String) (directory : Path) :
    List (String × FileTree) → List SourceFile
  | [] => []
  | (name, .file bytes) :: rest =>
    if isSource suffixes name then
      ⟨directory.join name, Text.Utf8.decodeLossy bytes⟩ :: sourceFiles suffixes directory rest
    else sourceFiles suffixes directory rest
  | (_, .directory _) :: rest => sourceFiles suffixes directory rest

/-- The target that a directory is. -/
def targetAt (disk : Disk) (suffixes : List String) (path : Path) : Except ScrapeError Target :=
  match disk.listDirectory path with
  | .ok entries => .ok ⟨path, sourceFiles suffixes path entries⟩
  | .error fault => .error (.file path fault)

/-- The directory whose subdirectories are the targets of a root; nothing for a root that does not
exist. -/
def baseOf (disk : Disk) (root : Path) : Except ScrapeError (Option Path) :=
  if disk.exists? root then
    match disk.absolutePath root with
    | .ok absolute =>
      let tests := absolute.join testsDirectory
      .ok (some (if disk.isDirectory tests then tests else absolute))
    | .error fault => .error (.file root fault)
  else .ok none

/-- The class names after those that the files of a target give. An empty name is none. -/
def bindFiles (directory : Path) : Classnames → List SourceFile → Except ClassnameClash Classnames
  | classnames, [] => .ok classnames
  | classnames, file :: rest =>
    match classnameOf file.content with
    | some classname =>
      if classname = "" then bindFiles directory classnames rest
      else
        match classnames.bind directory file.path classname with
        | .ok classnames => bindFiles directory classnames rest
        | .error clash => .error clash
    | none => bindFiles directory classnames rest

/-- The one class name that the files of a target give it. -/
def Target.classname (target : Target) : Except ClassnameClash (Option String) :=
  (bindFiles target.path .empty target.files).map fun classnames ↦ classnames.get? target.path

/-- The declarations of a target, in the order of its files and their lines. -/
def Target.declarations (target : Target) : Except ScrapeError (List Declaration) :=
  match target.classname with
  | .ok (some classname) =>
    .ok (target.files.flatMap fun file ↦ declarationsOf file.content file.path classname)
  | .ok none => .ok []
  | .error clash => .error (.clash clash)

/-- The declarations below a root, in the order of its targets. -/
def declarationsBelow (disk : Disk) (suffixes : List String) (root : Path) :
    Except ScrapeError (List Declaration) := do
  match ← baseOf disk root with
  | none => return []
  | some base =>
    let paths ← subdirectories disk base
    let found ← paths.mapM fun path ↦ do
      let target ← targetAt disk suffixes path
      target.declarations
    return found.flatten

/-- The declarations below all roots, in their order. -/
def declarationsOfRoots (disk : Disk) (suffixes : List String) (roots : List Path) :
    Except ScrapeError (List Declaration) := do
  let roots ← expandRoots disk roots
  let found ← roots.mapM (declarationsBelow disk suffixes)
  return found.flatten

/-- The inventory of the tests declared below a list of roots. -/
def scrape (disk : Disk) (suffixes : List String) (roots : List Path) :
    Except ScrapeError Inventory :=
  (declarationsOfRoots disk suffixes roots).map Inventory.ofDeclarations

end Source

end Roster
