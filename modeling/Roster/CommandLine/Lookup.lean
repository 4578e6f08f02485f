import Roster.CommandLine.Run

/-!
# What a run looks at

A run is a function of a `Disk`, and the disk that it is given has to hold no more than what the run
looks at. A `Lookup` is a path with the depth to which the directories behind it matter and the
files whose bytes do. Which settings count is known only after some files were looked at, so there
are two rounds: `Request.settingsLookups` before the settings are known, and `Request.lookups` under
them.

Plans may include others outside their directory. `Failure.missing?` is the document that a run
missed; it is looked up before the run is repeated.
-/

set_option autoImplicit false
set_option relaxedAutoImplicit false

namespace Roster.CommandLine

/-- Something that a run looks at. -/
structure Lookup where
  /-- Where to start. -/
  path : Path
  /-- How many directories below the path have entries that matter. -/
  depth : Nat
  /-- The names of the files whose bytes matter. -/
  reads : String → Bool

/-- A look at one file. -/
def Lookup.file (path : Path) : Lookup :=
  ⟨path, 0, fun _ ↦ true⟩

/-- A look at the plans of a directory. -/
def Lookup.plans (path : Path) : Lookup :=
  ⟨path, 1, fun name ↦ Path.suffix name = some PlanDirectory.fileSuffix⟩

/-- A look at the sources below a root. The targets may lie in a directory of their own below it,
and a root that stands for several lies in the directory above them. -/
def Lookup.sources (suffixes : List String) (root : Path) : Lookup :=
  match root.parent with
  | some parent =>
    if root.fileName = some Source.wildcard then ⟨parent, 4, Source.isSource suffixes⟩
    else ⟨root, 3, Source.isSource suffixes⟩
  | none => ⟨root, 3, Source.isSource suffixes⟩

/-- What is looked at to find the settings. -/
def Request.settingsLookups (request : Request) (environment : Environment) : List Lookup :=
  (request.config.toList ++ Settings.localFile :: (Settings.userFile environment).toList).map
    Lookup.file

/-- The file that a request is to write. -/
def Request.target? (request : Request) : Option Path :=
  match request.command with
  | .get request => request.output
  | _ => none

/-- What is looked at under the settings. -/
def Request.lookups (request : Request) (settings : Settings) : List Lookup :=
  .file settings.listsPath :: .plans settings.plansPath ::
    (settings.scrapeRootPaths.map (.sources settings.suffixes) ++
      request.target?.toList.map .file)

/-- The document of a plan that was not there. -/
def Failure.missing? : Failure → Option Path
  | .plan (.notFound _ path) => some path
  | .lists (.plans (.notFound _ path)) => some path
  | _ => none

/-- The places that the components of a path lead to from a place, one after the other. -/
def placesOn (place : List String) : List Path.Component → List (List String)
  | [] => [place]
  | .root :: rest => place :: placesOn [] rest
  | .here :: rest => place :: placesOn place rest
  | .above :: rest => place :: placesOn place.dropLast rest
  | .entry name :: rest => place :: placesOn (place ++ [name]) rest

end Roster.CommandLine
