import Roster.Names

/-!
# Tables by name

A `Table` maps names to values. Its entries are listed by name in ascending order, and the order is
part of the type, so that a table has one form only and its names are always sorted and distinct.

`get?` looks a name up, and `insert` sets the value of a name, which replaces the one it had. Two
small laws pin the pair down: `get?_insert_self` and `get?_insert_of_ne`.
-/

set_option autoImplicit false
set_option relaxedAutoImplicit false

namespace Roster

/-- Values by name, in ascending order of the names. -/
structure Table (Value : Type) where
  /-- The names with their values. -/
  entries : List (String × Value)
  /-- Each name comes before all later ones. -/
  ordered : Ascending (entries.map Prod.fst)

namespace Table

variable {Value Other : Type}

/-- The table without names. -/
def empty : Table Value :=
  ⟨[], List.Pairwise.nil⟩

instance : EmptyCollection (Table Value) := ⟨empty⟩

instance : Inhabited (Table Value) := ⟨empty⟩

/-- The names of a table, in ascending order. -/
def names (table : Table Value) : List String :=
  table.entries.map Prod.fst

/-- The value in a list of entries that stands first under a name. -/
def find? (name : String) : List (String × Value) → Option Value
  | [] => none
  | (first, value) :: rest => if name = first then some value else find? name rest

/-- The value of a name. -/
def get? (table : Table Value) (name : String) : Option Value :=
  find? name table.entries

/-- Whether a table has a value for a name. -/
def contains (table : Table Value) (name : String) : Bool :=
  (table.get? name).isSome

/-- The entries with a name set to a value. -/
def insertEntry (name : String) (value : Value) :
    List (String × Value) → List (String × Value)
  | [] => [(name, value)]
  | (first, old) :: rest =>
    if name < first then (name, value) :: (first, old) :: rest
    else if name = first then (name, value) :: rest
    else (first, old) :: insertEntry name value rest

theorem map_fst_insertEntry (name : String) (value : Value) (entries : List (String × Value)) :
    (insertEntry name value entries).map Prod.fst = insertName name (entries.map Prod.fst) := by
  induction entries with
  | nil => rfl
  | cons entry rest ih =>
    obtain ⟨first, old⟩ := entry
    simp only [insertEntry, List.map_cons, insertName]
    split
    · rfl
    · split
      · next same => simp [same]
      · simp [ih]

/-- The table with a name set to a value. -/
def insert (table : Table Value) (name : String) (value : Value) : Table Value where
  entries := insertEntry name value table.entries
  ordered := by
    rw [map_fst_insertEntry]
    exact insertName_ascending table.ordered

/-- The table with every value changed by a function. -/
def map (change : Value → Other) (table : Table Value) : Table Other where
  entries := table.entries.map fun entry ↦ (entry.1, change entry.2)
  ordered := by
    have same : (table.entries.map fun entry ↦ (entry.1, change entry.2)).map Prod.fst =
        table.entries.map Prod.fst := by simp [Function.comp_def]
    rw [same]
    exact table.ordered

/-- The table with the entries of a list set one after the other, so that the last one of a name
counts. -/
def insertAll (table : Table Value) (entries : List (String × Value)) : Table Value :=
  entries.foldl (fun table entry ↦ table.insert entry.1 entry.2) table

/-- The table of a list of entries, of which the last one of a name counts. -/
def ofList (entries : List (String × Value)) : Table Value :=
  insertAll empty entries

theorem find?_insertEntry_self (name : String) (value : Value) (entries : List (String × Value)) :
    find? name (insertEntry name value entries) = some value := by
  induction entries with
  | nil => simp [insertEntry, find?]
  | cons entry rest ih =>
    rw [insertEntry]
    split
    · simp [find?]
    · split
      · simp [find?]
      · next different => simp [find?, different, ih]

theorem find?_insertEntry_of_ne {name other : String} (value : Value)
    (entries : List (String × Value)) (different : other ≠ name) :
    find? other (insertEntry name value entries) = find? other entries := by
  induction entries with
  | nil => simp [insertEntry, find?, different]
  | cons entry rest ih =>
    rw [insertEntry]
    split
    · simp [find?, different]
    · split
      · next same => subst same; simp [find?, different]
      · simp [find?, ih]

theorem find?_map (change : Value → Other) (name : String) (entries : List (String × Value)) :
    find? name (entries.map fun entry ↦ (entry.1, change entry.2)) =
      (find? name entries).map change := by
  induction entries with
  | nil => rfl
  | cons entry rest ih =>
    obtain ⟨first, value⟩ := entry
    simp only [List.map_cons, find?]
    split
    · rfl
    · exact ih

/-- Looking up comes before or after changing all values. -/
@[simp] theorem get?_map (table : Table Value) (change : Value → Other) (name : String) :
    (table.map change).get? name = (table.get? name).map change :=
  find?_map change name table.entries

/-- The value just set is the one found. -/
@[simp] theorem get?_insert_self (table : Table Value) (name : String) (value : Value) :
    (table.insert name value).get? name = some value :=
  find?_insertEntry_self name value table.entries

/-- Setting one name leaves the others alone. -/
theorem get?_insert_of_ne (table : Table Value) {name other : String} (value : Value)
    (different : other ≠ name) : (table.insert name value).get? other = table.get? other :=
  find?_insertEntry_of_ne value table.entries different

end Table

end Roster
