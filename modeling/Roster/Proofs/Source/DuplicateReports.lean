import Mathlib.Data.List.Duplicate
import Roster.Proofs.Source.Recording

/-!
# Which declarations are reported as duplicates

A test is reported as a duplicate exactly where it stands behind a test of its name, and the report
tells the first one of these (`Inventory.duplicate_mem_reports_iff`). Every test is therefore either
the first of its name or reported (`Inventory.firstLocation_or_duplicate`), and it is reported as a
duplicate of itself exactly when it is the first of its name and listed twice
(`Inventory.duplicate_self_mem_reports_iff`). All reports are warnings, one for each declaration that
is lost (`Inventory.length_warnings_ofDeclarations`).

Of declarations in another order, an inventory defines the same names and has as many reports
(`Inventory.names_ofDeclarations_of_perm`, `Inventory.length_diagnostics_of_perm`). Without a
duplicate among them it has the same definitions (`Inventory.definitions_ofDeclarations_of_perm`).
-/

set_option autoImplicit false
set_option relaxedAutoImplicit false

namespace Roster.Inventory

variable {key : String} {first again location : SourceLocation}
variable {declarations others : List Declaration}

/-! ### The first test of a name -/

theorem locationOf_eq_some_iff {declaration : Declaration} :
    locationOf key declaration = some location ↔ declaration = .test key location := by
  cases declaration with
  | unresolved other => simp [locationOf]
  | test other place =>
    by_cases hsame : other = key <;> simp [locationOf, hsame]

/-- The place of the first test of a name is that of some test of this name. -/
theorem test_mem_of_firstLocation (hfirst : firstLocation key declarations = some location) :
    .test key location ∈ declarations := by
  obtain ⟨declaration, hmem, hlocation⟩ := List.exists_of_findSome?_eq_some hfirst
  rwa [← locationOf_eq_some_iff.mp hlocation]

/-- There is no first test of a name where no test has it. -/
theorem firstLocation_eq_none_iff :
    firstLocation key declarations = none ↔ ∀ location, .test key location ∉ declarations := by
  constructor
  · intro hnone location hmem
    have hlocation := List.findSome?_eq_none_iff.mp hnone _ hmem
    rw [locationOf_eq_some_iff.mpr rfl] at hlocation
    cases hlocation
  · intro habsent
    cases hfirst : firstLocation key declarations with
    | none => rfl
    | some location => exact (habsent location (test_mem_of_firstLocation hfirst)).elim

/-- Where there are tests of a name, one of them is the first. -/
theorem exists_firstLocation_iff :
    (∃ location, firstLocation key declarations = some location) ↔
      ∃ location, .test key location ∈ declarations := by
  rw [← Option.ne_none_iff_exists', Ne, firstLocation_eq_none_iff]
  push Not
  rfl

/-! ### Reports about one list -/

/-- A test is reported as a duplicate where it stands behind a test of its name. The report names
the first one of them. -/
theorem duplicate_mem_reports_iff :
    Diagnostic.duplicate key first again ∈ reports declarations ↔
      ∃ earlier later, declarations = earlier ++ .test key again :: later ∧
        firstLocation key earlier = some first := by
  constructor
  · intro hreport
    obtain ⟨⟨declaration, index⟩, hindexed, hbehind⟩ := List.mem_filterMap.mp hreport
    obtain ⟨rfl, hfound⟩ := reportBehind_eq_duplicate_iff.mp hbehind
    have hget : declarations[index]? = some (.test key again) :=
      List.mem_zipIdx_iff_getElem?.mp hindexed
    obtain ⟨hindex, hhere⟩ := List.getElem?_eq_some_iff.mp hget
    refine ⟨declarations.take index, declarations.drop (index + 1), ?_, hfound⟩
    rw [← hhere, List.getElem_cons_drop, List.take_append_drop]
  · rintro ⟨earlier, later, rfl, hearlier⟩
    have hindexed : (Declaration.test key again, earlier.length) ∈
        (earlier ++ .test key again :: later).zipIdx :=
      List.mem_zipIdx_iff_getElem?.mpr (by simp)
    refine List.mem_filterMap.mpr ⟨_, hindexed, reportBehind_eq_duplicate_iff.mpr ⟨rfl, ?_⟩⟩
    rw [List.take_left, hearlier]

/-- What is reported as a duplicate is a test. -/
theorem test_mem_of_mem_reports
    (hreport : Diagnostic.duplicate key first again ∈ reports declarations) :
    .test key again ∈ declarations := by
  obtain ⟨earlier, later, rfl, _⟩ := duplicate_mem_reports_iff.mp hreport
  exact List.mem_append_right _ List.mem_cons_self

/-- A test is the first one of its name, or it is reported as a duplicate. -/
theorem firstLocation_or_duplicate (hmem : .test key location ∈ declarations) :
    firstLocation key declarations = some location ∨
      ∃ first, Diagnostic.duplicate key first location ∈ reports declarations := by
  obtain ⟨earlier, later, rfl⟩ := List.append_of_mem hmem
  cases hearlier : firstLocation key earlier with
  | some first =>
    exact .inr ⟨first, duplicate_mem_reports_iff.mpr ⟨earlier, later, rfl, hearlier⟩⟩
  | none =>
    left
    rw [firstLocation_append, hearlier, Option.none_or, firstLocation, List.findSome?_cons,
      locationOf_eq_some_iff.mpr rfl]

/-- A test is reported as a duplicate of itself when it is the first one of its name and listed
twice. -/
theorem duplicate_self_mem_reports_iff :
    Diagnostic.duplicate key first first ∈ reports declarations ↔
      firstLocation key declarations = some first ∧
        List.Duplicate (.test key first) declarations := by
  constructor
  · intro hreport
    refine ⟨firstLocation_of_mem_reports hreport, ?_⟩
    obtain ⟨earlier, later, rfl, hearlier⟩ := duplicate_mem_reports_iff.mp hreport
    obtain ⟨front, between, rfl⟩ := List.append_of_mem (test_mem_of_firstLocation hearlier)
    rw [List.duplicate_iff_two_le_count]
    simp only [List.count_append, List.count_cons_self]
    omega
  · rintro ⟨hfirst, htwice⟩
    obtain ⟨front, back, rfl, hfront, hback⟩ :=
      List.cons_sublist_iff.mp (List.duplicate_iff_sublist.mp htwice)
    obtain ⟨between, later, rfl⟩ := List.append_of_mem (List.singleton_sublist.mp hback)
    refine duplicate_mem_reports_iff.mpr
      ⟨front ++ between, later, (List.append_assoc _ _ _).symm, ?_⟩
    -- the first test of the name stands in front, since one of them does
    obtain ⟨location, hlocation⟩ := exists_firstLocation_iff.mpr ⟨first, hfront⟩
    rw [firstLocation_append, hlocation, Option.some_or] at hfirst ⊢
    exact hfirst

/-- All reports about declarations are warnings. -/
theorem warnings_reports (declarations : List Declaration) :
    Diagnostic.warnings (reports declarations) = reports declarations := by
  refine List.filter_eq_self.mpr fun report hreport ↦ ?_
  obtain ⟨⟨declaration, index⟩, _, hbehind⟩ := List.mem_filterMap.mp hreport
  cases declaration with
  | unresolved location =>
    cases hbehind
    rfl
  | test other location =>
    obtain ⟨found, _, hsame⟩ := Option.map_eq_some_iff.mp hbehind
    cases hsame
    rfl

/-! ### How many declarations are reported -/

/-- A declaration is lost behind others: its description is no literal, or one of them is a test of
the same name. -/
inductive IsLost (earlier : List Declaration) : Declaration → Prop
  /-- The description is no literal. -/
  | unresolved (location : SourceLocation) : IsLost earlier (.unresolved location)
  /-- A test of this name stands before it. -/
  | duplicate {key : String} {first : SourceLocation} (hfirst : .test key first ∈ earlier)
      (again : SourceLocation) : IsLost earlier (.test key again)

/-- The declarations that are reported behind others are those that are lost. -/
theorem isSome_reportBehind_iff {earlier : List Declaration} {declaration : Declaration} :
    (reportBehind earlier declaration).isSome = true ↔ IsLost earlier declaration := by
  cases declaration with
  | unresolved location => exact ⟨fun _ ↦ .unresolved location, fun _ ↦ rfl⟩
  | test key again =>
    rw [reportBehind, Option.isSome_map, Option.isSome_iff_exists, exists_firstLocation_iff]
    constructor
    · rintro ⟨first, hfirst⟩
      exact .duplicate hfirst again
    · intro hlost
      cases hlost with
      | @duplicate _ first hfirst => exact ⟨first, hfirst⟩

instance (earlier : List Declaration) (declaration : Declaration) :
    Decidable (IsLost earlier declaration) :=
  decidable_of_iff _ isSome_reportBehind_iff

/-- How many declarations are lost, each of them behind those before it. -/
def lostCount (declarations : List Declaration) : Nat :=
  declarations.zipIdx.countP fun entry ↦ IsLost (declarations.take entry.2) entry.1

/-- There is one report for each declaration that is lost. -/
theorem length_reports (declarations : List Declaration) :
    (reports declarations).length = lostCount declarations := by
  rw [reports, List.length_filterMap_eq_countP]
  refine List.countP_congr fun entry _ ↦ ?_
  rw [isSome_reportBehind_iff, decide_eq_true_eq]

/-- The warnings of an inventory are as many as the declarations that are lost. -/
theorem length_warnings_ofDeclarations (declarations : List Declaration) :
    (Diagnostic.warnings (ofDeclarations declarations).diagnostics).length =
      lostCount declarations := by
  rw [diagnostics_ofDeclarations, warnings_reports, length_reports]

/-! ### Declarations in another order -/

/-- The names of the tests among declarations are defined. -/
theorem mem_names_ofDeclarations :
    key ∈ (ofDeclarations declarations).definitions.names ↔
      ∃ location, .test key location ∈ declarations := by
  rw [Table.mem_names_iff, ← exists_firstLocation_iff]
  simp only [get?_ofDeclarations, Option.map_eq_some_iff]
  exact ⟨fun ⟨_, location, hfirst, _⟩ ↦ ⟨location, hfirst⟩,
    fun ⟨location, hfirst⟩ ↦ ⟨_, location, hfirst, rfl⟩⟩

theorem names_ofDeclarations_of_perm (hperm : declarations.Perm others) :
    (ofDeclarations declarations).definitions.names =
      (ofDeclarations others).definitions.names := by
  refine Ascending.eq_of_mem_iff (Table.ordered _) (Table.ordered _) fun name ↦ ?_
  rw [mem_names_ofDeclarations, mem_names_ofDeclarations]
  simp only [hperm.mem_iff]

/-- The order of declarations does not change how many of them are reported: as many as are not
defined. -/
theorem length_diagnostics_of_perm (hperm : declarations.Perm others) :
    (ofDeclarations declarations).diagnostics.length =
      (ofDeclarations others).diagnostics.length := by
  have hdefined : (ofDeclarations declarations).definitions.entries.length =
      (ofDeclarations others).definitions.entries.length := by
    simpa [Table.names] using congrArg List.length (names_ofDeclarations_of_perm hperm)
  have hcount := length_ofDeclarations declarations
  have hothers := length_ofDeclarations others
  have hlength := hperm.length_eq
  omega

/-- Declarations without a duplicate have the same definitions in any order. -/
theorem definitions_ofDeclarations_of_perm (hperm : declarations.Perm others)
    (hdistinct : ∀ key first again, .duplicate key first again ∉ reports declarations) :
    (ofDeclarations declarations).definitions = (ofDeclarations others).definitions := by
  refine Table.ext_get? fun key ↦ ?_
  rw [get?_ofDeclarations, get?_ofDeclarations]
  refine congrArg (Option.map (TestDefinition.mk key)) ?_
  cases hothers : firstLocation key others with
  | none =>
    rw [firstLocation_eq_none_iff] at hothers ⊢
    exact fun location hmem ↦ hothers location (hperm.subset hmem)
  | some location =>
    have hmem : .test key location ∈ declarations :=
      hperm.symm.subset (test_mem_of_firstLocation hothers)
    refine (firstLocation_or_duplicate hmem).resolve_right ?_
    rintro ⟨first, hreport⟩
    exact hdistinct key first location hreport

end Roster.Inventory
