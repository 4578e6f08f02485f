import Roster.Settings.Basic
import Roster.Toml.Document
import Roster.Toml.Writer

/-!
# Settings documents

Settings are written as a TOML document with four tables. `Settings.ofToml?` reads one: what is not
said stays as it is by default, and what is not known is passed over. A list in the place of a table
gives the values of its fields in their order, and a moment in the place of a table says nothing.

`Settings.toToml` writes settings down.
-/

set_option autoImplicit false
set_option relaxedAutoImplicit false

namespace Roster.Settings

open Toml

/-- The fields of a record, of which the names are known in their order. -/
def fields? (names : List String) : Value → Option (List (String × Value))
  | .table entries => some entries
  | .list items => some (names.zip items)
  | .moment _ => some []
  | _ => none

/-- The value of a name among fields. -/
def find? (name : String) : List (String × Value) → Option Value
  | [] => none
  | (first, value) :: rest => if name = first then some value else find? name rest

/-- Reads a field, for which there is a value in case it is missing. -/
def readField {Result : Type} (fields : List (String × Value)) (name : String)
    (reader : Value → Option Result) (missing : Result) : Option Result :=
  match find? name fields with
  | some value => reader value
  | none => some missing

/-- Reads a text. -/
def readText : Value → Option String
  | .text value => some value
  | _ => none

/-- Reads a path. -/
def readPath (value : Value) : Option Path :=
  (readText value).map Path.mk

/-- Reads a list. -/
def readList {Result : Type} (reader : Value → Option Result) : Value → Option (List Result)
  | .list items => items.mapM reader
  | _ => none

/-- The format of a name, in lower case and without its other spellings. -/
def formatOfName? (name : String) : Option OutputFormat :=
  [OutputFormat.plain, .json, .yaml].find? fun format ↦ format.name = name

/-- Reads a format: its name, or a table with nothing but an empty table or list under the name. -/
def readFormat : Value → Option OutputFormat
  | .text name => formatOfName? name
  | .table [(name, .table [])] | .table [(name, .list [])] => formatOfName? name
  | _ => none

/-- Reads the table of the paths. -/
def readPaths (settings : Settings) (value : Value) : Option Settings := do
  let fields ← fields? ["source_tree", "lists", "plans_dir", "scrape_roots"] value
  let sourceTree ← readField fields "source_tree" readPath settings.sourceTree
  let lists ← readField fields "lists" readPath settings.lists
  let plansDirectory ← readField fields "plans_dir" readPath settings.plansDirectory
  let scrapeRoots ← readField fields "scrape_roots" (readList readPath) settings.scrapeRoots
  return { settings with sourceTree, lists, plansDirectory, scrapeRoots }

/-- Reads the table of the sources. -/
def readScraper (settings : Settings) (value : Value) : Option Settings := do
  let fields ← fields? ["extensions"] value
  let suffixes ← readField fields "extensions" (readList readText) settings.suffixes
  return { settings with suffixes }

/-- Reads the table of the resolution. -/
def readResolution (settings : Settings) (value : Value) : Option Settings := do
  let fields ← fields? ["reserved_plans", "bookends"] value
  let reservedPlans ← readField fields "reserved_plans" (readList readText) settings.reservedPlans
  let bookends ← readField fields "bookends" (readList readText) settings.bookends
  return { settings with reservedPlans, bookends }

/-- Reads the table of the output. -/
def readOutput (settings : Settings) (value : Value) : Option Settings := do
  let fields ← fields? ["separator", "format"] value
  let separator ← readField fields "separator" readText settings.separator
  let format ← readField fields "format" readFormat settings.format
  return { settings with separator, format }

/-- Reads a table of settings if it is there. -/
def readTable (fields : List (String × Value)) (name : String)
    (reader : Settings → Value → Option Settings) (settings : Settings) : Option Settings :=
  readField fields name (reader settings) settings

/-- The settings that a document holds. -/
def ofToml? (text : String) : Option Settings := do
  let document ← Value.ofToml? text
  let fields ← fields? [] document
  let settings ← readTable fields "paths" readPaths standard
  let settings ← readTable fields "scraper" readScraper settings
  let settings ← readTable fields "resolution" readResolution settings
  readTable fields "output" readOutput settings

/-- The tables that settings are written as. -/
def sections (settings : Settings) : List (String × List (String × Field)) :=
  [("paths",
      [("source_tree", .text settings.sourceTree.text),
        ("lists", .text settings.lists.text),
        ("plans_dir", .text settings.plansDirectory.text),
        ("scrape_roots", .texts (settings.scrapeRoots.map Path.text))]),
    ("scraper", [("extensions", .texts settings.suffixes)]),
    ("resolution",
      [("reserved_plans", .texts settings.reservedPlans), ("bookends", .texts settings.bookends)]),
    ("output", [("separator", .text settings.separator), ("format", .text settings.format.name)])]

/-- The document that settings are written as. -/
def toToml (settings : Settings) : String :=
  String.ofList (sectionsText settings.sections)

end Roster.Settings
