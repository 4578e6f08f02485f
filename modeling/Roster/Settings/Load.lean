import Roster.Settings.Document

/-!
# Loading settings

The settings of a run come from one file: the one that is asked for, or else the one in the working
directory, or else the one of the user. Without any of them the standard settings count. Environment
variables go before the file (`withEnvironment`), and arguments of the command before both.
-/

set_option autoImplicit false
set_option relaxedAutoImplicit false

namespace Roster

/-- What the surroundings of a run say about it. -/
structure Environment where
  /-- The environment variables by name. -/
  byName : Table String
  /-- The home directory that the list of accounts has for the user, if there is one. -/
  accountHome : Option Path

namespace Environment

/-- The value of an environment variable. -/
def get? (environment : Environment) (name : String) : Option String :=
  environment.byName.get? name

/-- Environment variables for a user without an account. -/
def ofList (entries : List (String × String)) : Environment :=
  ⟨.ofList entries, none⟩

/-- The home directory of the user: the one that a variable says, or else that of the account. -/
def home (environment : Environment) : Option Path :=
  (((environment.get? "HOME").filter (· ≠ "")).map Path.mk).or environment.accountHome

end Environment

namespace Settings

/-- The file in the working directory. -/
def localFile : Path := "testlists.toml"

/-- The path of the file of the user below the directory for such files. -/
def userFileName : Path := "testlists/config.toml"

/-- The directory for files with settings of the user. -/
def userDirectory (environment : Environment) : Option Path :=
  match (environment.get? "XDG_CONFIG_HOME").filter fun path ↦ Path.isAbsolute path with
  | some directory => some directory
  | none => environment.home.map fun home ↦ home.join ".config"

/-- The file of the user. -/
def userFile (environment : Environment) : Option Path :=
  (userDirectory environment).map fun directory ↦ directory.join userFileName

/-- The environment variables that settings depend on. -/
def environmentNames : List String :=
  ["TESTLISTS_SOURCE_TREE", "TESTLISTS_LISTS", "TESTLISTS_PLANS_DIR", "TESTLISTS_SEPARATOR",
    "XDG_CONFIG_HOME", "HOME"]

/-- The settings with those that environment variables give. -/
def withEnvironment (settings : Settings) (environment : Environment) : Settings :=
  { settings with
    sourceTree := ((environment.get? "TESTLISTS_SOURCE_TREE").map Path.mk).getD settings.sourceTree
    lists := ((environment.get? "TESTLISTS_LISTS").map Path.mk).getD settings.lists
    plansDirectory :=
      ((environment.get? "TESTLISTS_PLANS_DIR").map Path.mk).getD settings.plansDirectory
    separator := (environment.get? "TESTLISTS_SEPARATOR").getD settings.separator }

/-- Settings with environment variables, if they can be worked with. -/
def finish (settings : Settings) (environment : Environment) : Except SettingsError Settings :=
  let settings := settings.withEnvironment environment
  settings.validate.map fun _ ↦ settings

/-- The settings of a file. -/
def ofFile (disk : Disk) (environment : Environment) (path : Path) :
    Except SettingsError Settings :=
  match disk.readText path with
  | .error fault => .error (.file path fault)
  | .ok text =>
    match ofToml? text with
    | none => .error (.malformed path)
    | some settings => settings.finish environment

/-- The file that the settings come from when none is asked for. -/
def defaultFile (disk : Disk) (environment : Environment) : Option Path :=
  if disk.exists? localFile then some localFile
  else (userFile environment).filter disk.exists?

/-- The settings of a run, from the file that is asked for if there is one. -/
def load (disk : Disk) (environment : Environment) (file : Option Path) :
    Except SettingsError Settings :=
  match file.or (defaultFile disk environment) with
  | some file => ofFile disk environment file
  | none => standard.finish environment

end Settings

end Roster
