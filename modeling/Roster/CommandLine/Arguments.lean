import Roster.Output

/-!
# Arguments of a command

Arguments are options and operands. An option is named by a word behind two dashes or by a letter
behind one, and its value, if it takes one, is the next argument or follows a sign of equality.
Letters may be joined, and the value of the last one may follow it right away. Behind two dashes
alone everything is an operand.

`readArguments` reads arguments by the options that are known (`OptionRule`), up to the first one
that is the name of a command. An option is given at most once unless it is counted, and its value
must be one that it accepts.
-/

set_option autoImplicit false
set_option relaxedAutoImplicit false

namespace Roster.CommandLine

/-- What an option takes. -/
inductive OptionKind
  /-- Nothing. -/
  | flag
  /-- Nothing, and it may be repeated. -/
  | counter
  /-- A text. -/
  | text
  /-- A path. -/
  | path
  /-- The name of an output format. -/
  | format
  /-- Nothing; it asks for an explanation instead of a run. -/
  | help
deriving DecidableEq

/-- The option takes a value. -/
def OptionKind.takesValue : OptionKind → Bool
  | .text | .path | .format => true
  | .flag | .counter | .help => false

/-- The option accepts a value. -/
def OptionKind.accepts (kind : OptionKind) (value : String) : Bool :=
  match kind with
  | .path => value ≠ ""
  | .format =>
    match OutputFormat.ofName value with
    | .ok _ => true
    | .error _ => false
  | _ => true

/-- An option that is known. -/
structure OptionRule where
  /-- The word that names it. -/
  name : String
  /-- The letter that names it. -/
  letter : Option Char
  /-- What it takes. -/
  kind : OptionKind
deriving DecidableEq

/-- Why arguments make no request. -/
inductive Stop
  /-- They are not used as they are meant to be. -/
  | misuse
  /-- They ask for an explanation. -/
  | help
deriving DecidableEq

/-- What was read of the arguments. -/
structure Given where
  /-- The options with their values, in the order in which they stand. -/
  options : List (String × String)
  /-- The operands, in order. -/
  operands : List String
deriving DecidableEq

/-- Nothing was given. -/
def Given.nothing : Given := ⟨[], []⟩

/-- The value of an option. -/
def Given.value? (given : Given) (name : String) : Option String :=
  (given.options.find? fun option ↦ option.1 = name).map Prod.snd

/-- The option was given. -/
def Given.has (given : Given) (name : String) : Bool :=
  (given.value? name).isSome

/-- What was given with one more option. -/
def Given.add (given : Given) (rule : OptionRule) (value : String) : Except Stop Given :=
  if rule.kind = .help then .error .help
  else if (rule.kind ≠ .counter && given.has rule.name) || !rule.kind.accepts value then
    .error .misuse
  else .ok { given with options := given.options ++ [(rule.name, value)] }

/-- What one argument means. -/
inductive Step
  /-- It is an operand. -/
  | operand
  /-- It is complete. -/
  | complete (given : Given)
  /-- The next argument is the value of its option. -/
  | needsValue (rule : OptionRule) (given : Given)

/-- A text cut at its first sign of equality. -/
def cutAtEquals : List Char → List Char × Option (List Char)
  | [] => ([], none)
  | character :: rest =>
    if character = '=' then ([], some rest)
    else
      let (name, value) := cutAtEquals rest
      (character :: name, value)

/-- Reads an option that is named by a word. -/
def readWord (rules : List OptionRule) (given : Given) (text : List Char) : Except Stop Step :=
  let (name, value) := cutAtEquals text
  match rules.find? fun rule ↦ rule.name.toList = name with
  | none => .error .misuse
  | some rule =>
    match rule.kind.takesValue, value with
    | true, some value => (given.add rule (String.ofList value)).map .complete
    | true, none => .ok (.needsValue rule given)
    | false, some _ => .error .misuse
    | false, none => (given.add rule "").map .complete

/-- Reads options that are named by letters. -/
def readLetters (rules : List OptionRule) : Given → List Char → Except Stop Step
  | given, [] => .ok (.complete given)
  | given, letter :: rest =>
    match rules.find? fun rule ↦ rule.letter = some letter with
    | none => .error .misuse
    | some rule =>
      if rule.kind.takesValue then
        match rest with
        | [] => .ok (.needsValue rule given)
        | '=' :: value => (given.add rule (String.ofList value)).map .complete
        | value => (given.add rule (String.ofList value)).map .complete
      else
        match given.add rule "" with
        | .error stop => .error stop
        | .ok given => readLetters rules given rest

/-- Reads one argument. -/
def readArgument (rules : List OptionRule) (given : Given) (argument : String) :
    Except Stop Step :=
  match argument.toList with
  | '-' :: '-' :: text => readWord rules given text
  | '-' :: letter :: rest => readLetters rules given (letter :: rest)
  | _ => .ok .operand

/-- An argument that begins as options do. A dash alone does not. -/
def looksLikeOption (argument : String) : Bool :=
  match argument.toList with
  | '-' :: _ :: _ => true
  | _ => false

/-- Reads arguments up to the first one that names a command, and gives the rest from there on. -/
def readArguments (rules : List OptionRule) (commands : List String) :
    Given → List String → Except Stop (Given × List String)
  | given, [] => .ok (given, [])
  | given, argument :: rest =>
    if commands.contains argument then .ok (given, argument :: rest)
    else if argument = "--" then .ok ({ given with operands := given.operands ++ rest }, [])
    else
      match readArgument rules given argument with
      | .error stop => .error stop
      | .ok .operand =>
        readArguments rules commands { given with operands := given.operands ++ [argument] } rest
      | .ok (.complete given) => readArguments rules commands given rest
      | .ok (.needsValue rule given) =>
        match rest with
        | [] => .error .misuse
        | value :: others =>
          if looksLikeOption value then .error .misuse
          else
            match given.add rule value with
            | .error stop => .error stop
            | .ok given => readArguments rules commands given others

end Roster.CommandLine
