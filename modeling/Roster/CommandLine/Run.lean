import Roster.CommandLine.Request
import Roster.Settings.Load
import Roster.Text.Blank
import Roster.Upgrade

/-!
# Running the program

`run` carries out what the arguments of the program ask for on a disk. Its `Outcome` holds what is
printed, what is reported, and the disk afterwards, which differs only where a list was written to a
file.

Settings are loaded before anything else is done, except for showing the standard ones. Options that
contradict each other are refused before the sources are read. Warnings about the sources are
reported as soon as they have been read, also if the run fails later.
-/

set_option autoImplicit false
set_option relaxedAutoImplicit false

namespace Roster.CommandLine

/-- Why a run failed. -/
inductive Failure
  /-- There are no settings. -/
  | settings (error : SettingsError)
  /-- There are no lists. -/
  | lists (error : ListError)
  /-- A plan cannot be loaded. -/
  | plan (error : PlanError)
  /-- The sources cannot be read. -/
  | sources (error : ScrapeError)
  /-- A list cannot be given out. -/
  | output (error : OutputError)
  /-- There is no tag for an install. -/
  | upgrade (error : UpgradeError)
  /-- It was not said which tests to run. -/
  | noTests

/-- The wording of a failure. -/
def Failure.message : Failure → String
  | .settings error => error.message
  | .lists error => error.message
  | .plan error => error.message
  | .sources error => error.message
  | .output error => error.message
  | .upgrade error => error.message
  | .noTests => "one of --profile or --tests is required"

/-- What the reader of a document says about a failure, if it has words of its own for it. -/
def Failure.detail? : Failure → Option String
  | .lists error => error.detail?
  | .plan error => error.detail?
  | _ => none

/-- The report of a failure: its wording, and behind it what the reader of a document says. -/
def Failure.report (failure : Failure) : String :=
  match failure.detail? with
  | some detail => failure.message ++ ": " ++ detail
  | none => failure.message

/-- How a run ended. -/
inductive Ending
  /-- It did what was asked for. -/
  | done
  /-- It failed. -/
  | failed (failure : Failure)
  /-- The arguments make no request. -/
  | refused (stop : Stop)

/-- The code that the program ends with. -/
def Ending.exitCode : Ending → Nat
  | .done => 0
  | .failed _ => 1
  | .refused .misuse => 2
  | .refused .help => 0

/-- What a run gives. -/
structure Outcome where
  /-- How it ended. -/
  ending : Ending
  /-- What is printed. -/
  output : String
  /-- The warnings, line by line. -/
  warnings : List String
  /-- The disk afterwards. -/
  disk : Disk

/-- What a run gives that changes no file. -/
def Outcome.ofResult (disk : Disk) (warnings : List String) :
    Except Failure String → Outcome
  | .ok output => ⟨.done, output, warnings, disk⟩
  | .error failure => ⟨.failed failure, "", warnings, disk⟩

/-- The lines that report warnings: one with their number, if there are any. -/
def warningLines (diagnostics : List Diagnostic) : List String :=
  let count := Diagnostic.warningCount diagnostics
  if count = 0 then [] else [toString count ++ " warning(s) while building the test inventory"]

/-- Texts with a line end behind each of them. -/
def linesOf (texts : List String) : String :=
  String.join (texts.map fun text ↦ text ++ "\n")

/-- The settings of a request. A path to a list definition is taken from the working directory. -/
def Request.settings (request : Request) (disk : Disk) (environment : Environment) :
    Except SettingsError Settings :=
  (Settings.load disk environment request.config).map fun settings ↦
    { settings with
      sourceTree := request.sourceTree.getD settings.sourceTree
      lists :=
        (request.lists.map (Disk.pathOfPlace disk.workingDirectory).join).getD settings.lists }

/-- The options of a request to give a profile out. -/
def GetRequest.options (request : GetRequest) (settings : Settings) : ListOptions where
  install := request.install
  uninstall := request.uninstall
  wrap := request.wrap
  separator := request.separator.getD settings.separator
  format := request.format.getD settings.format

/-- The text of a profile with its installs and uninstalls. -/
def profileText (lists : ResolvedLists) (options : ListOptions) (profile : String)
    (byDuration : Bool) : Except Failure String := do
  let tests ← (lists.get profile byDuration).mapError .lists
  let decorated ← (options.decorate tests).mapError .output
  return options.render decorated

/-- Gives a profile out. What is printed has no white space at its end. -/
def runGet (disk : Disk) (settings : Settings) (request : GetRequest) : Outcome :=
  let options := request.options settings
  match options.validate with
  | .error error => .ofResult disk [] (.error (.output error))
  | .ok () =>
    match settings.resolvedLists disk with
    | .error error => .ofResult disk [] (.error (.lists error))
    | .ok lists =>
      let warnings := warningLines lists.diagnostics
      match profileText lists options request.profile request.byDuration, request.output with
      | .error failure, _ => .ofResult disk warnings (.error failure)
      | .ok text, none =>
        .ofResult disk warnings (.ok (linesOf [String.ofList (Text.trimEnd text.toList)]))
      | .ok text, some path =>
        match writeOutput disk path text with
        | .error error => .ofResult disk warnings (.error (.output error))
        | .ok changed => .ofResult changed warnings (.ok "")

/-- Lists the profiles. -/
def runProfiles (disk : Disk) (settings : Settings) : Outcome :=
  match settings.resolvedLists disk with
  | .error error => .ofResult disk [] (.error (.lists error))
  | .ok lists => .ofResult disk (warningLines lists.diagnostics) (.ok (linesOf lists.names))

/-- The tests of an inventory with their files, in a form for programs or for readers. -/
def inventoryText (inventory : Inventory) (asJson : Bool) : String :=
  let sources := inventory.sources.entries
  if asJson then
    linesOf [(Json.object (sources.map fun entry ↦ (entry.1, .text entry.2.text))).render .indented]
  else linesOf (sources.map fun entry ↦ entry.1 ++ "\t" ++ entry.2.text)

/-- Lists the tests declared in the sources. -/
def runScrape (disk : Disk) (settings : Settings) (asJson : Bool) : Outcome :=
  match settings.inventory disk with
  | .error error => .ofResult disk [] (.error (.sources error))
  | .ok inventory =>
    .ofResult disk (warningLines inventory.diagnostics) (.ok (inventoryText inventory asJson))

/-- Lists the entries of a plan. -/
def runPlan (disk : Disk) (settings : Settings) (name : String) : Outcome :=
  .ofResult disk [] <|
    match (settings.plans disk).testsOf name with
    | .error error => .error (.plan error)
    | .ok entries => .ok (linesOf (entries.map Prod.fst))

/-- A plan with its name, if one is asked for. -/
def namedPlan (disk : Disk) (settings : Settings) :
    Option String → Except Failure (Option NamedPlan)
  | none => .ok none
  | some name =>
    match (settings.plans disk).load name with
    | .error error => .error (.plan error)
    | .ok plan => .ok (some ⟨name, plan⟩)

/-- The runs that some tests take. -/
def runsOf (disk : Disk) (settings : Settings) (tests overrides : List String)
    (plan tag : Option String) : Except Failure Runs := do
  let plan ← namedPlan disk settings plan
  (runsFor tests overrides tag plan).mapError .upgrade

/-- The tests of a profile between an install and an uninstall. -/
def wholeRun (lists : ResolvedLists) (profile : String) : Except Failure (List String) := do
  let tests ← (lists.get profile false).mapError .lists
  let options : ListOptions := ⟨true, true, false, Settings.standard.separator, .plain⟩
  (options.decorate tests).mapError .output

/-- Runs as they are printed. -/
def runsText (runs : Runs) : String :=
  linesOf [runs.toJson.render .indented]

/-- Finds the runs that some tests take. Given tests need nothing but the list definition. -/
def runInstallTag (disk : Disk) (settings : Settings) (tests : Option TestSource)
    (plan tag : Option String) : Outcome :=
  match tests with
  | none => .ofResult disk [] (.error .noTests)
  | some (.profile name) =>
    match settings.resolvedLists disk with
    | .error error => .ofResult disk [] (.error (.lists error))
    | .ok lists =>
      .ofResult disk (warningLines lists.diagnostics) do
        let tests ← wholeRun lists name
        let runs ← runsOf disk settings tests lists.installOverrides plan tag
        return runsText runs
  | some (.listed text) =>
    .ofResult disk [] do
      let definition ← (settings.definition disk).mapError .lists
      let tests := (Text.words text.toList).map String.ofList
      let runs ← runsOf disk settings tests definition.metadata.installOverrides plan tag
      return runsText runs

/-- Shows the standard settings. -/
def runDefaultConfig (disk : Disk) : Outcome :=
  .ofResult disk [] (.ok Settings.standard.toToml)

/-- Carries out a command under some settings. -/
def runCommand (disk : Disk) (settings : Settings) : Command → Outcome
  | .get request => runGet disk settings request
  | .profiles => runProfiles disk settings
  | .scrape asJson => runScrape disk settings asJson
  | .plan name => runPlan disk settings name
  | .installTag tests plan tag => runInstallTag disk settings tests plan tag
  | .defaultConfig => runDefaultConfig disk

/-- Carries out a request. The standard settings are shown whatever the settings are. -/
def Request.run (request : Request) (disk : Disk) (environment : Environment) : Outcome :=
  if request.command = .defaultConfig then runDefaultConfig disk
  else
    match request.settings disk environment with
    | .error error => .ofResult disk [] (.error (.settings error))
    | .ok settings => runCommand disk settings request.command

/-- How the program is used. -/
def usage : String :=
  linesOf
    ["Resolve e2e test profiles into ordered test lists", "",
      "Usage: testlists [OPTIONS] <COMMAND>", "",
      "Commands: " ++ String.intercalate ", " commandNames, "",
      "Options: " ++ String.intercalate ", " (sharedRules.map fun rule ↦ "--" ++ rule.name)]

/-- Carries out what the arguments of the program ask for. -/
def run (disk : Disk) (environment : Environment) (arguments : List String) : Outcome :=
  match Request.ofArguments arguments with
  | .error .help => ⟨.refused .help, usage, [], disk⟩
  | .error .misuse => ⟨.refused .misuse, "", [], disk⟩
  | .ok request => request.run disk environment

end Roster.CommandLine
