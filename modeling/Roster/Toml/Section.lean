import Roster.Toml.Value

/-!
# Building tables

The lines of a TOML text fill a tree of tables little by little. A table of the tree remembers how
it came about (`Origin`): announced by a header, implied by the header of a table inside it, or made
by dotted keys. That decides what later lines may still do with it: a header announces a table once,
and dotted keys go on only in tables that dotted keys made.

`Section.enter` opens the table of a header and `Section.define` sets a key of an open table. Both
give nothing where a line contradicts those before it.
-/

set_option autoImplicit false
set_option relaxedAutoImplicit false

namespace Roster.Toml

/-- How a table came about. -/
inductive Origin
  /-- A header announces it. -/
  | header
  /-- It surrounds a table that a header announces. -/
  | implied
  /-- Dotted keys lead through it. -/
  | dotted
deriving DecidableEq, Inhabited

/-- A table that may still grow, or a part of it. -/
inductive Section
  /-- A value, which is complete. -/
  | value (value : Value)
  /-- A table with its entries. -/
  | table (origin : Origin) (entries : List (String × Section))
  /-- A list of tables that headers announce, and the last one of them, which may still grow. -/
  | tables (before : List Value) (last : List (String × Section))
deriving Inhabited

namespace Section

/-- The entry of a name. -/
def find? (name : String) : List (String × Section) → Option Section
  | [] => none
  | (first, found) :: rest => if name = first then some found else find? name rest

/-- Entries with the one of a name replaced, or added at the end. -/
def put (name : String) (part : Section) : List (String × Section) → List (String × Section)
  | [] => [(name, part)]
  | (first, old) :: rest =>
    if name = first then (name, part) :: rest else (first, old) :: put name part rest

mutual

/-- The value that a part of a tree is. -/
def toValue : Section → Value
  | .value complete => complete
  | .table _ entries => .table (entriesToValues entries)
  | .tables before last => .list (before ++ [.table (entriesToValues last)])

/-- The values that the entries of a table are. -/
def entriesToValues : List (String × Section) → List (String × Value)
  | [] => []
  | (name, part) :: rest => (name, part.toValue) :: entriesToValues rest

end

/-- Entries that change together with the origin of the table they are in. -/
abbrev Change := Origin → List (String × Section) → Option (List (String × Section))

/-- Changes the table that a path leads to. Tables missing on the way are made, and a list of tables
stands for its last one. Dotted keys must not lead through a table that has a header. -/
def changeAt (dotted : Bool) (change : Change) :
    List String → Origin → List (String × Section) → Option (List (String × Section))
  | [], origin, entries => change origin entries
  | name :: path, _, entries =>
    match find? name entries with
    | none =>
      let made := if dotted then Origin.dotted else Origin.implied
      (changeAt dotted change path made []).map fun inner ↦ put name (.table made inner) entries
    | some (.value _) => none
    | some (.table origin inner) =>
      if dotted && origin = .header then none
      else
        (changeAt dotted change path origin inner).map fun inner ↦
          put name (.table origin inner) entries
    | some (.tables before last) =>
      (changeAt dotted change path .header last).map fun last ↦
        put name (.tables before last) entries

/-- Sets a key that has no value yet. A dotted key sets it in a table that dotted keys made, any
other one in a table that they did not make. -/
def setKey (dotted : Bool) (name : String) (value : Value) : Change := fun origin entries ↦
  if decide (origin = .dotted) ≠ dotted then none
  else
    match find? name entries with
    | none => some (put name (.value value) entries)
    | some _ => none

/-- Announces a table of a name. It must be new, or have been implied only. -/
def announce (name : String) : Change := fun _ entries ↦
  match find? name entries with
  | none => some (put name (.table .header []) entries)
  | some (.table .implied inner) => some (put name (.table .header inner) entries)
  | some _ => none

/-- Announces one more table of a list of tables. -/
def announceNext (name : String) : Change := fun _ entries ↦
  match find? name entries with
  | none => some (put name (.tables [] []) entries)
  | some (.tables before last) =>
    some (put name (.tables (before ++ [.table (entriesToValues last)]) []) entries)
  | some _ => none

/-- A path apart from its last name, and that name. -/
def cutLast : List String → Option (List String × String)
  | [] => none
  | [name] => some ([], name)
  | first :: second :: rest =>
    (cutLast (second :: rest)).map fun (path, name) ↦ (first :: path, name)

/-- Opens the table of a header. -/
def enter (isList : Bool) (path : List String) (root : List (String × Section)) :
    Option (List (String × Section)) := do
  let (outer, name) ← cutLast path
  changeAt false (if isList then announceNext name else announce name) outer .header root

/-- Sets a key, which may be dotted, of a table. -/
def define (key : List String) (value : Value) : Change := fun origin entries ↦ do
  let (inner, name) ← cutLast key
  changeAt (!inner.isEmpty) (setKey (!inner.isEmpty) name value) inner origin entries

/-- Sets a key of the table that a path of headers leads to. -/
def defineAt (path key : List String) (value : Value) (root : List (String × Section)) :
    Option (List (String × Section)) :=
  changeAt false (define key value) path .header root

end Section

/-- The table that keys with values make, as in braces. -/
def Value.ofFields (fields : List (List String × Value)) : Option Value := do
  let entries ← fields.foldlM
    (fun entries field ↦ Section.define field.1 field.2 .header entries) []
  return .table (Section.entriesToValues entries)

end Roster.Toml
