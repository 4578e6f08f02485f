import Mathlib.Data.List.Basic
import Mathlib.Data.List.Induction
import Roster.Proofs.TableLookup
import Roster.Source.Inventory

/-!
# What an inventory says of declarations

The first test of a name is the one that counts (`Inventory.firstLocation`). A declaration that
stands behind others is reported if its description is no literal, or if one of them is a test of
the same name (`Inventory.reportBehind`), and the reports stand in the order of the declarations
(`Inventory.reports`).

An inventory is made by recording one declaration after the other, and one step adds either a
definition or a report (`Inventory.length_record`). By induction from the last declaration on, the
inventory has the first location of each name (`Inventory.get?_ofDeclarations`), exactly these
reports (`Inventory.diagnostics_ofDeclarations`), and no declaration is lost or counted twice
(`Inventory.length_ofDeclarations`).
-/

set_option autoImplicit false
set_option relaxedAutoImplicit false

namespace Roster.Inventory

/-! ### The reference -/

/-- The place of a declaration that is a test of a name. -/
def locationOf (key : String) : Declaration → Option SourceLocation
  | .test other location => if other = key then some location else none
  | .unresolved _ => none

/-- The place of the first test of a name among declarations. -/
def firstLocation (key : String) (declarations : List Declaration) : Option SourceLocation :=
  declarations.findSome? (locationOf key)

/-- The report about a declaration that stands behind others. -/
def reportBehind (earlier : List Declaration) : Declaration → Option Diagnostic
  | .test key location =>
    (firstLocation key earlier).map fun first ↦ .duplicate key first location
  | .unresolved location => some (.unresolved location)

/-- The reports about declarations, each of which stands behind those before it. -/
def reports (declarations : List Declaration) : List Diagnostic :=
  declarations.zipIdx.filterMap fun entry ↦ reportBehind (declarations.take entry.2) entry.1

/-- Only a test is reported as a duplicate: of the first test of its name. -/
theorem reportBehind_eq_duplicate_iff {earlier : List Declaration} {declaration : Declaration}
    {key : String} {first again : SourceLocation} :
    reportBehind earlier declaration = some (.duplicate key first again) ↔
      declaration = .test key again ∧ firstLocation key earlier = some first := by
  cases declaration with
  | unresolved location => simp [reportBehind]
  | test other location =>
    rw [reportBehind, Option.map_eq_some_iff]
    constructor
    · rintro ⟨found, hfound, hsame⟩
      cases hsame
      exact ⟨rfl, hfound⟩
    · rintro ⟨hsame, hfound⟩
      cases hsame
      exact ⟨first, hfound, rfl⟩

theorem firstLocation_append (key : String) (front back : List Declaration) :
    firstLocation key (front ++ back) = (firstLocation key front).or (firstLocation key back) :=
  List.findSome?_append

theorem firstLocation_concat (key : String) (declarations : List Declaration)
    (declaration : Declaration) :
    firstLocation key (declarations ++ [declaration]) =
      (firstLocation key declarations).or (locationOf key declaration) := by
  rw [firstLocation_append, firstLocation, firstLocation, List.findSome?_singleton]

/-- One more declaration at the end changes no report about those before it. -/
theorem reports_concat (declarations : List Declaration) (declaration : Declaration) :
    reports (declarations ++ [declaration]) =
      reports declarations ++ (reportBehind declarations declaration).toList := by
  have hearlier : ∀ entry ∈ declarations.zipIdx,
      reportBehind ((declarations ++ [declaration]).take entry.2) entry.1 =
        reportBehind (declarations.take entry.2) entry.1 := by
    intro entry hentry
    have hindex : entry.2 < declarations.length := List.snd_lt_of_mem_zipIdx hentry
    rw [List.take_append_of_le_length (Nat.le_of_lt hindex)]
  rw [reports, List.zipIdx_append, List.filterMap_append, List.filterMap_congr hearlier, reports,
    List.zipIdx_singleton, Nat.zero_add, List.filterMap_cons, List.take_left]
  cases reportBehind declarations declaration <;> rfl

/-- The first test of a name among the first declarations is the first one of all. -/
theorem firstLocation_of_take {key : String} {count : Nat} {declarations : List Declaration}
    {first : SourceLocation} (hfirst : firstLocation key (declarations.take count) = some first) :
    firstLocation key declarations = some first := by
  have hsplit := firstLocation_append key (declarations.take count) (declarations.drop count)
  rwa [List.take_append_drop, hfirst, Option.some_or] at hsplit

/-- A report about a test behind another one of its name tells where the first one stands. -/
theorem firstLocation_of_mem_reports {key : String} {first again : SourceLocation}
    {declarations : List Declaration}
    (hreport : Diagnostic.duplicate key first again ∈ reports declarations) :
    firstLocation key declarations = some first := by
  obtain ⟨⟨declaration, index⟩, _, hbehind⟩ := List.mem_filterMap.mp hreport
  exact firstLocation_of_take (reportBehind_eq_duplicate_iff.mp hbehind).2

/-! ### One declaration -/

variable {inventory : Inventory}

/-- Recording a declaration defines its name if nothing did before. -/
theorem get?_record (inventory : Inventory) (declaration : Declaration) (key : String) :
    (inventory.record declaration).definitions.get? key =
      (inventory.definitions.get? key).or
        ((locationOf key declaration).map (TestDefinition.mk key)) := by
  cases declaration with
  | unresolved location => simp [record, locationOf]
  | test other location =>
    rw [record]
    split
    · next habsent =>
      rw [Table.get?_insert, locationOf]
      by_cases hsame : key = other
      · rw [if_pos hsame, if_pos hsame.symm, hsame, habsent]
        rfl
      · rw [if_neg hsame, if_neg (Ne.symm hsame), Option.map_none, Option.or_none]
    · next first hfound =>
      by_cases hsame : other = key
      · rw [← hsame, hfound]
        rfl
      · rw [locationOf, if_neg hsame, Option.map_none, Option.or_none]

/-- Recording a declaration adds either a definition or a report. -/
theorem length_record (inventory : Inventory) (declaration : Declaration) :
    (inventory.record declaration).definitions.entries.length +
        (inventory.record declaration).diagnostics.length =
      inventory.definitions.entries.length + inventory.diagnostics.length + 1 := by
  cases declaration with
  | unresolved location =>
    simp only [record, List.length_append, List.length_singleton]
    omega
  | test key location =>
    rw [record]
    split
    · next habsent =>
      have hlength := Table.length_insertEntry_of_find?_eq_none
        (TestDefinition.mk key location) habsent
      simp only [Table.insert]
      omega
    · simp only [List.length_append, List.length_singleton]
      omega

/-! ### All declarations -/

theorem ofDeclarations_concat (declarations : List Declaration) (declaration : Declaration) :
    ofDeclarations (declarations ++ [declaration]) =
      (ofDeclarations declarations).record declaration :=
  List.foldl_append

/-- Each name is defined where its first test stands, by a definition with this name. -/
theorem get?_ofDeclarations (declarations : List Declaration) (key : String) :
    (ofDeclarations declarations).definitions.get? key =
      (firstLocation key declarations).map (TestDefinition.mk key) := by
  induction declarations using List.reverseRecOn with
  | nil => rfl
  | append_singleton declarations declaration ih =>
    rw [ofDeclarations_concat, get?_record, ih, firstLocation_concat, Option.map_or]

theorem get?_ofDeclarations_eq_some_iff {declarations : List Declaration} {key : String}
    {definition : TestDefinition} :
    (ofDeclarations declarations).definitions.get? key = some definition ↔
      definition.key = key ∧ firstLocation key declarations = some definition.location := by
  rw [get?_ofDeclarations, Option.map_eq_some_iff]
  constructor
  · rintro ⟨location, hfirst, rfl⟩
    exact ⟨rfl, hfirst⟩
  · rintro ⟨rfl, hfirst⟩
    exact ⟨_, hfirst, rfl⟩

/-- What is reported about a declaration behind others follows from the definitions so far. -/
theorem diagnostics_record_ofDeclarations (declarations : List Declaration)
    (declaration : Declaration) :
    ((ofDeclarations declarations).record declaration).diagnostics =
      (ofDeclarations declarations).diagnostics ++
        (reportBehind declarations declaration).toList := by
  cases declaration with
  | unresolved location => rfl
  | test key location =>
    rw [record, reportBehind, get?_ofDeclarations]
    cases firstLocation key declarations with
    | none => exact (List.append_nil _).symm
    | some first => rfl

/-- The reports are those about the declarations, in their order. -/
theorem diagnostics_ofDeclarations (declarations : List Declaration) :
    (ofDeclarations declarations).diagnostics = reports declarations := by
  induction declarations using List.reverseRecOn with
  | nil => rfl
  | append_singleton declarations declaration ih =>
    rw [ofDeclarations_concat, diagnostics_record_ofDeclarations, ih, reports_concat]

/-- Definitions and reports together are as many as the declarations. -/
theorem length_ofDeclarations (declarations : List Declaration) :
    (ofDeclarations declarations).definitions.entries.length +
      (ofDeclarations declarations).diagnostics.length = declarations.length := by
  induction declarations using List.reverseRecOn with
  | nil => rfl
  | append_singleton declarations declaration ih =>
    rw [ofDeclarations_concat, length_record, ih, List.length_append, List.length_singleton]

end Roster.Inventory
