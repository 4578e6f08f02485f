import Roster.CommandLine.Arguments

/-!
# Requests

A `Request` is what the arguments of the program ask for: one of six commands, with the files and
directories to use in place of those of the settings. `Request.ofArguments` reads it. The options
that concern all commands may stand before the command and behind it, and those behind it count
more.

How much is logged, and in which form, is accepted among the options and has no place in a request.
-/

set_option autoImplicit false
set_option relaxedAutoImplicit false

namespace Roster.CommandLine

/-- How a profile is to be given out. -/
structure GetRequest where
  /-- The profile. -/
  profile : String
  /-- The run starts with an install. -/
  install : Bool
  /-- The run ends with an uninstall. -/
  uninstall : Bool
  /-- Each test runs between an install and an uninstall of its own. -/
  wrap : Bool
  /-- What stands between two tests, in place of what the settings say. -/
  separator : Option String
  /-- The longest tests come first. -/
  byDuration : Bool
  /-- The file to write to. -/
  output : Option Path
  /-- The format, in place of what the settings say. -/
  format : Option OutputFormat
deriving DecidableEq

/-- The tests of an install request. -/
inductive TestSource
  /-- The tests of a profile. -/
  | profile (name : String)
  /-- The tests that are given, with white space between them. -/
  | listed (tests : String)
deriving DecidableEq

/-- What the program is to do. -/
inductive Command
  /-- Give a profile out. -/
  | get (request : GetRequest)
  /-- List the profiles. -/
  | profiles
  /-- List the tests declared in the sources. -/
  | scrape (asJson : Bool)
  /-- List the entries of a plan. -/
  | plan (name : String)
  /-- Find the runs that some tests take, with the plan that names a release and the tag. -/
  | installTag (tests : Option TestSource) (plan tag : Option String)
  /-- Show the standard settings. -/
  | defaultConfig
deriving DecidableEq

/-- What the arguments of the program ask for. -/
structure Request where
  /-- The file with the settings. -/
  config : Option Path
  /-- The list definition. -/
  lists : Option Path
  /-- The root of the source tree. -/
  sourceTree : Option Path
  /-- What to do. -/
  command : Command
deriving DecidableEq

/-- The options that concern all commands. -/
def sharedRules : List OptionRule :=
  [⟨"config", none, .path⟩, ⟨"lists", none, .path⟩, ⟨"source-tree", none, .path⟩,
    ⟨"log-json", none, .flag⟩, ⟨"verbose", some 'v', .counter⟩, ⟨"help", some 'h', .help⟩]

/-- The options of each command. -/
def commandRules : List (String × List OptionRule) :=
  [("get",
      [⟨"install", none, .flag⟩, ⟨"uninstall", none, .flag⟩, ⟨"wrap", none, .flag⟩,
        ⟨"separator", none, .text⟩, ⟨"sort-by-duration", none, .flag⟩,
        ⟨"output", some 'o', .path⟩, ⟨"format", none, .format⟩]),
    ("profiles", []),
    ("scrape", [⟨"json", none, .flag⟩]),
    ("plan", []),
    ("install-tag",
      [⟨"profile", none, .text⟩, ⟨"tests", none, .text⟩, ⟨"testplan", none, .text⟩,
        ⟨"installtag", none, .text⟩]),
    ("default-config", [])]

/-- The command that explains the program. -/
def helpCommand : String := "help"

/-- The names of all commands. -/
def commandNames : List String :=
  commandRules.map Prod.fst ++ [helpCommand]

/-- The format of a name that was accepted. -/
def formatOf? (name : String) : Option OutputFormat :=
  match OutputFormat.ofName name with
  | .ok format => some format
  | .error _ => none

/-- The tests that options ask for. -/
def testSource (given : Given) : Except Stop (Option TestSource) :=
  match given.value? "profile", given.value? "tests" with
  | some _, some _ => .error .misuse
  | some name, none => .ok (some (.profile name))
  | none, some tests => .ok (some (.listed tests))
  | none, none => .ok none

/-- The command of a name with what was given for it. -/
def Command.ofGiven (name : String) (given : Given) : Except Stop Command :=
  match name, given.operands with
  | "get", [profile] =>
    .ok (.get {
      profile
      install := given.has "install"
      uninstall := given.has "uninstall"
      wrap := given.has "wrap"
      separator := given.value? "separator"
      byDuration := given.has "sort-by-duration"
      output := (given.value? "output").map Path.mk
      format := (given.value? "format").bind formatOf? })
  | "profiles", [] => .ok .profiles
  | "scrape", [] => .ok (.scrape (given.has "json"))
  | "plan", [operand] => .ok (.plan operand)
  | "install-tag", [] =>
    (testSource given).map fun tests ↦
      .installTag tests (given.value? "testplan") (given.value? "installtag")
  | "default-config", [] => .ok .defaultConfig
  | _, _ => .error .misuse

/-- Whether the words behind the command that explains are names of commands. -/
def explain (words : List String) : Stop :=
  if words.all commandNames.contains then .help else .misuse

/-- The request that a command makes with the arguments behind it. -/
def Request.ofCommand (shared : Given) (name : String) (arguments : List String) :
    Except Stop Request :=
  if name = helpCommand then .error (explain arguments)
  else
    let rules := ((commandRules.find? fun entry ↦ entry.1 = name).map Prod.snd).getD []
    match readArguments (sharedRules ++ rules) [] .nothing arguments with
    | .error stop => .error stop
    | .ok (given, _) =>
      let path (option : String) : Option Path :=
        ((given.value? option).or (shared.value? option)).map Path.mk
      (Command.ofGiven name given).map fun command ↦
        ⟨path "config", path "lists", path "source-tree", command⟩

/-- The request that the arguments of the program make. -/
def Request.ofArguments (arguments : List String) : Except Stop Request :=
  match readArguments sharedRules commandNames .nothing arguments with
  | .error stop => .error stop
  | .ok (shared, name :: rest) =>
    if shared.operands.isEmpty then Request.ofCommand shared name rest else .error .misuse
  | .ok (_, []) => .error .misuse

end Roster.CommandLine
