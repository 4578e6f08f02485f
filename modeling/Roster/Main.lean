import Roster.CommandLine.Lookup
import Roster.Settings.Account

/-!
# The program

Looks up on the file system what the run needs, carries it out, and reports what it gives. Links
count as what they lead to.
-/

set_option autoImplicit false
set_option relaxedAutoImplicit false

namespace Roster.CommandLine

/-- The disk with what the file system has at a place, down to a depth. -/
def Lookup.enter (lookup : Lookup) : Nat → List String → Disk → IO Disk
  | depth, place, disk => do
    let here := (← IO.currentDir).join (Disk.pathOfPlace place).text
    let keep (tree : FileTree) : Disk :=
      if (disk.root.get? place).isSome then disk
      else { disk with root := disk.root.set place tree }
    if ← here.isDir then
      let disk := keep (.directory [])
      match depth with
      | 0 => return disk
      | depth + 1 =>
        (← here.readDir).foldlM
          (fun disk entry ↦ lookup.enter depth (place ++ [entry.fileName]) disk) disk
    else if ← here.pathExists then
      if lookup.reads (place.getLast?.getD "") then
        let bytes := (← IO.FS.readBinFile here).data.toList
        return { disk with root := disk.root.set place (.file bytes) }
      else return keep (.file [])
    else return disk

/-- The disk with what the file system has on the way to the path of a look and behind it. -/
def Lookup.add (disk : Disk) (lookup : Lookup) : IO Disk := do
  let places := placesOn disk.workingDirectory lookup.path.components
  let disk ← places.dropLast.foldlM (fun disk place ↦ lookup.enter 0 place disk) disk
  lookup.enter lookup.depth (places.getLast?.getD []) disk

/-- An empty disk at the working directory of the process. -/
def startingDisk : IO Disk := do
  let names := (Path.mk (← IO.currentDir).toString).components.filterMap fun
    | .entry name => some name
    | _ => none
  return ⟨.directory [], names⟩

/-- The number of the user who runs the process, as the line of its status for it says. -/
def userNumber? (status : String) : Option String :=
  (Text.lines status.toList).findSome? fun line ↦
    match (Text.words line).map String.ofList with
    | "Uid:" :: user :: _ => some user
    | _ => none

/-- The home directory that the list of accounts has for the user who runs the process. -/
def readAccountHome : IO (Option Path) := do
  try
    let status ← IO.FS.readFile "/proc/self/status"
    let accounts ← IO.FS.readFile "/etc/passwd"
    return (userNumber? status).bind (accountHome? (Account.ofList accounts))
  catch _ => return none

/-- The environment variables that matter, as far as they are set, and the home of the user. -/
def readEnvironment : IO Environment := do
  let found ← Settings.environmentNames.filterMapM fun name ↦ do
    return (← IO.getEnv name).map fun value ↦ (name, value)
  return { Environment.ofList found with accountHome := ← readAccountHome }

/-- Carries a request out, again after each document that was missing and can be looked up. -/
partial def Request.runOnFiles (request : Request) (environment : Environment) (disk : Disk) :
    IO Outcome := do
  let outcome := request.run disk environment
  match outcome.ending with
  | .failed failure =>
    match failure.missing? with
    | some path =>
      let more ← Lookup.add disk (.file path)
      if more.isFile path then request.runOnFiles environment more else return outcome
    | none => return outcome
  | _ => return outcome

/-- The disk that a request needs. -/
def Request.disk (request : Request) (environment : Environment) : IO Disk := do
  let disk ← (request.settingsLookups environment).foldlM Lookup.add (← startingDisk)
  match request.settings disk environment with
  | .error _ => return disk
  | .ok settings => (request.lookups settings).foldlM Lookup.add disk

/-- Writes what a run printed, its warnings, its failure and its file. -/
def Outcome.report (outcome : Outcome) (target : Option Path) : IO Unit := do
  outcome.warnings.forM fun warning ↦ IO.eprintln warning
  IO.print outcome.output
  match outcome.ending, target with
  | .done, some path =>
    match outcome.disk.readText path with
    | .ok text => IO.FS.writeFile path.text text
    | .error fault => IO.eprintln ("Error: " ++ fault.message)
  | .failed failure, _ => IO.eprintln ("Error: " ++ failure.report)
  | .refused .misuse, _ => IO.eprint usage
  | _, _ => return ()

/-- Runs the program on its arguments and gives the code that it ends with. -/
def runProgram (arguments : List String) : IO UInt32 := do
  let environment ← readEnvironment
  let (outcome, target) ←
    match Request.ofArguments arguments with
    | .error _ => pure (run (← startingDisk) environment arguments, none)
    | .ok request =>
      pure (← request.runOnFiles environment (← request.disk environment), request.target?)
  outcome.report target
  return outcome.ending.exitCode.toUInt32

end Roster.CommandLine

/-- Runs the program. -/
def main (arguments : List String) : IO UInt32 :=
  Roster.CommandLine.runProgram arguments
