import Roster.Proofs.NameLists
import Roster.Table

/-!
# Looking names up in tables

A table and its list of entries say the same: a name is listed when something is found under it
(`Table.mem_names_iff`), and an entry is listed when its value is found under its name
(`Table.mem_entries_iff`). Two tables in which the same is found are the same table
(`Table.ext_get?`).

`Table.get?_insertAll` is the law of setting the entries of a list one after the other: the last one
of a name counts, and a name without one keeps what it had. For the entries of a table, whose names
are distinct, the first one is also the last one (`Table.get?_insertAll_entries`).
-/

set_option autoImplicit false
set_option relaxedAutoImplicit false

namespace Roster.Table

variable {Value Other : Type}

/-! ### Lists of entries -/

/-- What is found under a name is listed with it. -/
theorem mem_of_find?_eq_some {name : String} {value : Value} {entries : List (String × Value)}
    (hfound : find? name entries = some value) : (name, value) ∈ entries := by
  induction entries with
  | nil => cases hfound
  | cons entry rest ih =>
    obtain ⟨first, old⟩ := entry
    rw [find?] at hfound
    split at hfound
    · next hsame =>
      cases hfound
      rw [hsame]
      exact List.mem_cons_self
    · exact List.mem_cons_of_mem _ (ih hfound)

/-- Nothing is found under a name exactly when no entry has it. -/
theorem find?_eq_none_iff {name : String} {entries : List (String × Value)} :
    find? name entries = none ↔ name ∉ entries.map Prod.fst := by
  induction entries with
  | nil => simp [find?]
  | cons entry rest ih =>
    obtain ⟨first, old⟩ := entry
    by_cases hsame : name = first <;> simp [find?, hsame, ih]

/-- Where names are distinct, an entry is listed exactly when its value is found. -/
theorem find?_eq_some_iff_mem {name : String} {value : Value} {entries : List (String × Value)}
    (hdistinct : (entries.map Prod.fst).Nodup) :
    find? name entries = some value ↔ (name, value) ∈ entries := by
  refine ⟨mem_of_find?_eq_some, fun hmem ↦ ?_⟩
  induction entries with
  | nil => cases hmem
  | cons entry rest ih =>
    obtain ⟨first, old⟩ := entry
    obtain ⟨hfresh, hrest⟩ := List.nodup_cons.mp hdistinct
    rcases List.mem_cons.mp hmem with hhead | htail
    · cases hhead
      simp [find?]
    · have hne : name ≠ first := by
        rintro rfl
        exact hfresh (List.mem_map.mpr ⟨(name, value), htail, rfl⟩)
      rw [find?, if_neg hne]
      exact ih hrest htail

/-- In two lists one behind the other, the first one counts. -/
theorem find?_append (name : String) (first second : List (String × Value)) :
    find? name (first ++ second) = (find? name first).or (find? name second) := by
  induction first with
  | nil => rfl
  | cons entry rest ih =>
    obtain ⟨head, old⟩ := entry
    by_cases hsame : name = head <;> simp [find?, hsame, ih]

/-- Where names are distinct, the order of the entries does not matter. -/
theorem find?_reverse {entries : List (String × Value)}
    (hdistinct : (entries.map Prod.fst).Nodup) (name : String) :
    find? name entries.reverse = find? name entries := by
  have hreverse : (entries.reverse.map Prod.fst).Nodup := by
    rw [List.map_reverse]
    exact (List.reverse_perm _).nodup_iff.mpr hdistinct
  refine Option.ext fun value ↦ ?_
  rw [find?_eq_some_iff_mem hreverse, find?_eq_some_iff_mem hdistinct, List.mem_reverse]

/-! ### Tables -/

theorem nodup_names (table : Table Value) : table.names.Nodup :=
  Ascending.nodup table.ordered

/-- The names of a table are those under which something is found. -/
theorem mem_names_iff {table : Table Value} {name : String} :
    name ∈ table.names ↔ ∃ value, table.get? name = some value := by
  rw [← Option.ne_none_iff_exists', get?, Ne, find?_eq_none_iff, Decidable.not_not, names]

/-- A table contains the names that it lists. -/
@[simp] theorem contains_iff {table : Table Value} {name : String} :
    table.contains name = true ↔ name ∈ table.names := by
  rw [mem_names_iff, contains, Option.isSome_iff_exists]

/-- Under a name that a table does not list, nothing is found. -/
theorem get?_eq_none_iff {table : Table Value} {name : String} :
    table.get? name = none ↔ name ∉ table.names :=
  find?_eq_none_iff

/-- The entries of a table are the names with what is found under them. -/
theorem mem_entries_iff {table : Table Value} {name : String} {value : Value} :
    (name, value) ∈ table.entries ↔ table.get? name = some value :=
  (find?_eq_some_iff_mem (nodup_names table)).symm

@[simp] theorem names_map (table : Table Value) (change : Value → Other) :
    (table.map change).names = table.names := by
  simp [names, map, Function.comp_def]

/-- Setting a name changes what is found under it and nothing else. -/
theorem get?_insert (table : Table Value) (name other : String) (value : Value) :
    (table.insert name value).get? other =
      if other = name then some value else table.get? other := by
  split
  · next hsame => rw [hsame, get?_insert_self]
  · next hne => exact get?_insert_of_ne table value hne

/-- The last entry of a name counts, and a name without one keeps what it had. -/
theorem get?_insertAll (table : Table Value) (entries : List (String × Value)) (name : String) :
    (table.insertAll entries).get? name = (find? name entries.reverse).or (table.get? name) := by
  induction entries generalizing table with
  | nil => rfl
  | cons entry rest ih =>
    obtain ⟨first, value⟩ := entry
    have hstep : table.insertAll ((first, value) :: rest) =
        (table.insert first value).insertAll rest := rfl
    rw [hstep, ih, List.reverse_cons, find?_append, get?_insert]
    by_cases hsame : name = first <;> simp [find?, hsame]

/-- The entries of a table count before those of the table that they are set in. -/
theorem get?_insertAll_entries (table added : Table Value) (name : String) :
    (table.insertAll added.entries).get? name = (added.get? name).or (table.get? name) := by
  rw [get?_insertAll, find?_reverse (nodup_names added)]
  rfl

/-- Setting a name that is not there adds one entry. -/
theorem length_insertEntry_of_find?_eq_none {name : String} (value : Value)
    {entries : List (String × Value)} (habsent : find? name entries = none) :
    (insertEntry name value entries).length = entries.length + 1 := by
  induction entries with
  | nil => rfl
  | cons entry rest ih =>
    obtain ⟨first, old⟩ := entry
    rw [find?] at habsent
    split at habsent
    · cases habsent
    · next hne =>
      rw [insertEntry, if_neg hne]
      split
      · rfl
      · rw [List.length_cons, ih habsent, List.length_cons]

/-- A table is determined by what is found in it. -/
theorem ext_get? {first second : Table Value}
    (hsame : ∀ name, first.get? name = second.get? name) : first = second := by
  have hmem : ∀ entry, entry ∈ first.entries ↔ entry ∈ second.entries := by
    rintro ⟨name, value⟩
    rw [mem_entries_iff, mem_entries_iff, hsame]
  have hdistinct (table : Table Value) : table.entries.Nodup :=
    List.Pairwise.of_map Prod.fst (fun _ _ hne hsame ↦ hne (by rw [hsame])) (nodup_names table)
  have hperm : first.entries.Perm second.entries :=
    (List.perm_ext_iff_of_nodup (hdistinct first) (hdistinct second)).mpr hmem
  have hordered (table : Table Value) :
      table.entries.Pairwise fun left right ↦ left.1 < right.1 :=
    List.pairwise_map.mp table.ordered
  have hentries : first.entries = second.entries :=
    hperm.eq_of_pairwise (fun left right _ _ hleft hright ↦
      absurd hright (String.lt_asymm hleft)) (hordered first) (hordered second)
  cases first
  cases second
  simpa using hentries

/-- A table is made of its own entries. -/
theorem ofList_entries (table : Table Value) : ofList table.entries = table := by
  refine ext_get? fun name ↦ ?_
  rw [ofList, get?_insertAll_entries]
  cases table.get? name <;> rfl

/-- The entries of a table are among those that it was made of. -/
theorem mem_of_mem_ofList {items : List (String × Value)} {entry : String × Value}
    (hentry : entry ∈ (ofList items).entries) : entry ∈ items := by
  obtain ⟨name, value⟩ := entry
  rw [mem_entries_iff, ofList, get?_insertAll] at hentry
  have hnothing : (empty : Table Value).get? name = none := rfl
  rw [hnothing, Option.or_none] at hentry
  exact List.mem_reverse.mp (mem_of_find?_eq_some hentry)

end Roster.Table
