import Roster.Lists.Resolve
import Roster.Proofs.FallibleRuns
import Roster.Proofs.TableLookup

/-!
# What each pass of a resolution does to the profiles

A resolution changes one table of profiles several times. Here each change is described by what is
found under a name afterwards, so that nothing else has to look into it: a union replaces the
profile of its name (`Profiles.get?_withUnions`), groupings keep the names
(`Profiles.names_collapse`), and the profile of all tests replaces whatever had its name
(`Profiles.get?_withAll`).

`Resolver.withPlans_eq_ok` and `Resolver.resolve_eq_ok_iff` say all that is known of a resolution
that succeeds. `Resolver.get?_insertAll_derived` is the table between explicit profiles and unions,
in which a plan has the list that its test cases give it.
-/

set_option autoImplicit false
set_option relaxedAutoImplicit false

namespace Roster

namespace Profiles

/-! ### Unions, groupings and the profile of all tests -/

theorem mem_membersOf {profiles : Profiles} {name test : String} :
    test ∈ profiles.membersOf name ↔ ∃ tests, profiles.get? name = some tests ∧ test ∈ tests := by
  rw [membersOf]
  cases profiles.get? name <;> simp

/-- A union replaces the profile of its name, and the other profiles stay. -/
theorem get?_withUnions (profiles : Profiles) (unions : Table (List String)) (name : String) :
    (profiles.withUnions unions).get? name =
      ((unions.get? name).map profiles.union).or (profiles.get? name) := by
  rw [withUnions, Table.get?_insertAll_entries, Table.get?_map]

/-- Unions add their names. -/
theorem mem_names_withUnions {profiles : Profiles} {unions : Table (List String)} {name : String} :
    name ∈ (profiles.withUnions unions).names ↔ name ∈ unions.names ∨ name ∈ profiles.names := by
  simp only [Table.mem_names_iff, get?_withUnions]
  cases unions.get? name <;> simp

/-- A profile holds, after groupings, what they make of its list; one that does not exist holds
nothing. -/
theorem membersOf_collapse (profiles : Profiles) (groupings : List Grouping) (name : String) :
    (profiles.collapse groupings).membersOf name =
      ((profiles.get? name).map (Grouping.collapseAll groupings)).getD [] := by
  rw [membersOf, get?_collapse]

/-- Groupings keep the names of the profiles. -/
@[simp] theorem names_collapse (profiles : Profiles) (groupings : List Grouping) :
    (profiles.collapse groupings).names = profiles.names :=
  Table.names_map profiles _

/-- The profile of all tests replaces whatever had its name, and the other profiles stay. -/
theorem get?_withAll (profiles : Profiles) (name : String) :
    profiles.withAll.get? name =
      if name = allName then some (profiles.union profiles.namesBelowAll)
      else profiles.get? name :=
  Table.get?_insert profiles allName name _

theorem names_withAll (profiles : Profiles) :
    profiles.withAll.names = insertName allName profiles.names :=
  Table.map_fst_insertEntry _ _ _

theorem mem_names_withAll {profiles : Profiles} {name : String} :
    name ∈ profiles.withAll.names ↔ name = allName ∨ name ∈ profiles.names := by
  rw [names_withAll, mem_insertName]

/-- The tests of all profiles together are those of the profiles with another name. -/
theorem mem_union_namesBelowAll {profiles : Profiles} {test : String} :
    test ∈ profiles.union profiles.namesBelowAll ↔
      ∃ name, name ≠ allName ∧ ∃ tests, profiles.get? name = some tests ∧ test ∈ tests := by
  simp only [mem_union, mem_membersOf, namesBelowAll, List.mem_filter, decide_eq_true_eq]
  constructor
  · rintro ⟨name, ⟨_, hother⟩, hmem⟩
    exact ⟨name, hother, hmem⟩
  · rintro ⟨name, hother, tests, hfound, hmem⟩
    exact ⟨name, ⟨Table.mem_names_iff.mpr ⟨tests, hfound⟩, hother⟩, tests, hfound, hmem⟩

end Profiles

namespace Resolver

/-! ### Explicit profiles and plans -/

/-- An explicit profile lists what is written, each test once. -/
theorem get?_explicitProfiles (written : Table (Option (List String))) (name : String) :
    (explicitProfiles written).get? name =
      (written.get? name).map fun tests ↦ (tests.getD []).eraseDups := by
  rw [explicitProfiles, Table.get?_map]
  congr 1
  funext tests
  exact withoutRepeats_eq_eraseDups _

@[simp] theorem names_explicitProfiles (written : Table (Option (List String))) :
    (explicitProfiles written).names = written.names :=
  Table.names_map written _

theorem mem_openPlans {resolver : Resolver} {names : List String} {name : String} :
    name ∈ resolver.openPlans names ↔ name ∈ names ∧ name ∉ resolver.reserved := by
  simp only [openPlans, List.mem_filter, Bool.not_eq_true', ← Bool.not_eq_true,
    List.contains_iff_mem]

/-- The plans that an explicit profile stands for are the open ones with one. -/
theorem mem_shadowedPlans {resolver : Resolver} {explicit : Profiles} {names : List String}
    {name : String} :
    name ∈ resolver.shadowedPlans explicit names ↔
      name ∈ resolver.openPlans names ∧ name ∈ explicit.names := by
  rw [shadowedPlans, List.mem_filter, Table.contains_iff]

/-- The plans that need a profile are the open ones without an explicit profile. -/
theorem mem_pendingPlans {resolver : Resolver} {explicit : Profiles} {names : List String}
    {name : String} :
    name ∈ resolver.pendingPlans explicit names ↔
      name ∈ resolver.openPlans names ∧ name ∉ explicit.names := by
  rw [pendingPlans, List.mem_filter, Bool.not_eq_true', ← Bool.not_eq_true, Table.contains_iff]

/-- The profile of a plan is the ascending list of the tests of its entries, if each of them has
one. -/
theorem deriveProfile_eq_ok_iff {plans : PlanDirectory} {inventory : Inventory} {plan : String}
    {tests : List String} :
    deriveProfile plans inventory plan = .ok tests ↔
      ∃ entries names, plans.testsOf plan = .ok entries ∧
        entries.mapM (testOfEntry inventory plan) = .ok names ∧ tests = ascending names := by
  rw [deriveProfile]
  cases plans.testsOf plan with
  | error fault => simp
  | ok entries =>
    cases hnames : entries.mapM (testOfEntry inventory plan) with
    | error fault => simp [Except.map, hnames]
    | ok names => simp [Except.map, hnames, eq_comm]

/-- An entry is derived for each pending plan, with the list that its test cases give it. -/
theorem mem_derived {resolver : Resolver} {inventory : Inventory} {pending : List String}
    {found : List (String × List String)}
    (hderived : resolver.derived inventory pending = .ok found)
    {name : String} {tests : List String} :
    (name, tests) ∈ found ↔
      name ∈ pending ∧ deriveProfile resolver.plans inventory name = .ok tests := by
  rw [derived] at hderived
  rw [mem_of_mapM_eq_ok hderived]
  simp only [bind_eq_ok_iff]
  constructor
  · rintro ⟨plan, hplan, list, hprofile, hentry⟩
    cases hentry
    exact ⟨hplan, hprofile⟩
  · rintro ⟨hplan, hprofile⟩
    exact ⟨name, hplan, tests, hprofile, rfl⟩

/-- Every pending plan has a list when all of them could be derived. -/
theorem exists_of_mem_pending {resolver : Resolver} {inventory : Inventory} {pending : List String}
    {found : List (String × List String)}
    (hderived : resolver.derived inventory pending = .ok found)
    {name : String} (hpending : name ∈ pending) :
    ∃ tests, deriveProfile resolver.plans inventory name = .ok tests := by
  obtain ⟨entry, _, hentry⟩ := exists_mem_of_mapM_eq_ok hderived hpending
  obtain ⟨tests, hprofile, _⟩ := bind_eq_ok_iff.mp hentry
  exact ⟨tests, hprofile⟩

/-- Where the derived entries are set, a pending plan has the list that its test cases give it, and
every other name keeps what it had. -/
theorem get?_insertAll_derived {resolver : Resolver} {explicit : Profiles} {inventory : Inventory}
    {pending : List String} {found : List (String × List String)}
    (hderived : resolver.derived inventory pending = .ok found) {name : String}
    {tests : List String} :
    (explicit.insertAll found).get? name = some tests ↔
      (name ∈ pending ∧ deriveProfile resolver.plans inventory name = .ok tests) ∨
        (name ∉ pending ∧ explicit.get? name = some tests) := by
  rw [Table.get?_insertAll]
  cases hlast : Table.find? name found.reverse with
  | none =>
    have hpending : name ∉ pending := by
      intro hmem
      obtain ⟨list, hprofile⟩ := exists_of_mem_pending hderived hmem
      have hentry := (mem_derived hderived).mpr ⟨hmem, hprofile⟩
      refine Table.find?_eq_none_iff.mp hlast ?_
      exact List.mem_map.mpr ⟨(name, list), List.mem_reverse.mpr hentry, rfl⟩
    simp [hpending]
  | some list =>
    have hentry := List.mem_reverse.mp (Table.mem_of_find?_eq_some hlast)
    obtain ⟨hpending, hprofile⟩ := (mem_derived hderived).mp hentry
    simp [hpending, hprofile]

/-! ### Resolutions that succeed -/

/-- What is known of the profiles before the unions: either no plan needs a profile and the explicit
ones stay alone, or the sources could be read and every pending plan got its list. -/
theorem withPlans_eq_ok {resolver : Resolver} {explicit based : Profiles}
    {reports : List Diagnostic} (hplans : resolver.withPlans explicit = .ok (based, reports)) :
    ∃ names, resolver.plans.names = .ok names ∧
      ((resolver.pendingPlans explicit names = [] ∧ based = explicit ∧
          reports = (resolver.shadowedPlans explicit names).map Diagnostic.explicitOverPlan) ∨
        ∃ inventory found, resolver.pendingPlans explicit names ≠ [] ∧
          Source.scrape resolver.plans.disk resolver.suffixes resolver.roots = .ok inventory ∧
          resolver.derived inventory (resolver.pendingPlans explicit names) = .ok found ∧
          based = explicit.insertAll found ∧
          reports = (resolver.shadowedPlans explicit names).map Diagnostic.explicitOverPlan ++
            inventory.diagnostics) := by
  rw [withPlans] at hplans
  cases hnames : resolver.plans.names with
  | error fault => simp [hnames] at hplans
  | ok names =>
    refine ⟨names, rfl, ?_⟩
    simp only [hnames] at hplans
    split at hplans
    · next hnone =>
      cases hplans
      exact .inl ⟨hnone, rfl, rfl⟩
    · next hsome =>
      obtain ⟨inventory, hinventory, hrest⟩ := bind_eq_ok_iff.mp hplans
      obtain ⟨found, hderived, hresult⟩ := bind_eq_ok_iff.mp hrest
      cases hresult
      refine .inr ⟨inventory, found, hsome, ?_, hderived, rfl, rfl⟩
      rw [Resolver.inventory] at hinventory
      split at hinventory
      · next hscrape =>
        cases hinventory
        exact hscrape
      · cases hinventory

/-- Where no plan needs a profile, the explicit ones stay alone, and the sources are not read. -/
theorem withPlans_of_pendingPlans_eq_nil {resolver : Resolver} {explicit : Profiles}
    {names : List String} (hnames : resolver.plans.names = .ok names)
    (hnone : resolver.pendingPlans explicit names = []) :
    resolver.withPlans explicit =
      .ok (explicit, (resolver.shadowedPlans explicit names).map Diagnostic.explicitOverPlan) := by
  simp only [withPlans, hnames, hnone]

/-- A resolution succeeds exactly when the profiles before the unions can be found: nothing that
comes after them can fail. -/
theorem resolve_eq_ok_iff {resolver : Resolver} {definition : ListDefinition}
    {lists : ResolvedLists} :
    resolver.resolve definition = .ok lists ↔
      ∃ based reports,
        resolver.withPlans (explicitProfiles definition.explicitProfiles) = .ok (based, reports) ∧
        lists = {
          profiles :=
            ((based.withUnions definition.unions).collapse definition.metadata.groupings).withAll
          excluded :=
            ((based.withUnions definition.unions).collapse definition.metadata.groupings).expand
              definition.metadata.excluded
          durations := definition.metadata.durations
          installOverrides := definition.metadata.installOverrides
          bookends := resolver.bookends
          diagnostics := reports ++ based.unionDiagnostics definition.unions } := by
  rw [resolve, bind_eq_ok_iff]
  constructor
  · rintro ⟨⟨based, reports⟩, hplans, hlists⟩
    exact ⟨based, reports, hplans, (Except.ok.inj hlists).symm⟩
  · rintro ⟨based, reports, hplans, rfl⟩
    exact ⟨(based, reports), hplans, rfl⟩

/-- A resolution fails with the fault met before the unions. -/
theorem resolve_eq_error_iff {resolver : Resolver} {definition : ListDefinition}
    {fault : ListError} :
    resolver.resolve definition = .error fault ↔
      resolver.withPlans (explicitProfiles definition.explicitProfiles) = .error fault := by
  rw [resolve]
  cases resolver.withPlans (explicitProfiles definition.explicitProfiles) <;>
    simp [bind, Except.bind, pure, Except.pure]

end Resolver

end Roster
