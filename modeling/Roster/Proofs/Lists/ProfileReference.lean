import Roster.Proofs.Lists.ResolutionPasses
import Roster.Proofs.Plan.PlanFiles

/-!
# What each profile of a resolution lists

The reference says of a single name what a resolution gives it, without a table that changes on the
way. A name may have a list of its own (`Resolver.OwnList`): the explicit one, each test once, or
else the one that its plan needs. The list that groupings apply to (`Resolver.BaseList`) is the
union of the own lists of its constituents if the name is that of a union, and its own list
otherwise. `Grouping.Applied` relates a list to what groupings make of it, one after the other.

`Resolver.resolve_profiles` is the agreement: the profiles of a resolution are the names with a base
list and `ALL`, each lists what the groupings make of its base list, and `ALL` unites the others.
-/

set_option autoImplicit false
set_option relaxedAutoImplicit false

namespace Roster

/-! ### Groupings one after the other -/

namespace Grouping

/-- What a list becomes when groupings apply to it in their order. A grouping whose primary test is
in the list takes its tests out and puts its composite behind the others; any other one changes
nothing. -/
inductive Applied : List Grouping → List String → List String → Prop
  /-- No grouping is left. -/
  | done (tests : List String) : Applied [] tests tests
  /-- The list does not have the primary test. -/
  | passes {grouping : Grouping} {rest : List Grouping} {before after : List String}
      (habsent : grouping.primary ∉ before) (hrest : Applied rest before after) :
      Applied (grouping :: rest) before after
  /-- The list has the primary test. -/
  | fires {grouping : Grouping} {rest : List Grouping} {before after : List String}
      (hprimary : grouping.primary ∈ before)
      (hrest : Applied rest
        ((before.filter fun test ↦ test ≠ grouping.primary ∧ test ∉ grouping.dependents ∧
          test ≠ grouping.composite) ++ [grouping.composite]) after) :
      Applied (grouping :: rest) before after

/-- The entries that a grouping leaves in place are those that it does not cover. -/
theorem filter_not_covers (grouping : Grouping) (tests : List String) :
    (tests.filter fun test ↦ !grouping.covers test) =
      tests.filter fun test ↦ test ≠ grouping.primary ∧ test ∉ grouping.dependents ∧
        test ≠ grouping.composite := by
  refine List.filter_congr fun test _ ↦ ?_
  rw [Bool.eq_iff_iff]
  simp [covers, and_assoc]

/-- Applying groupings one after the other gives the one list that the rules allow. -/
theorem applied_iff {groupings : List Grouping} {before after : List String} :
    Applied groupings before after ↔ after = collapseAll groupings before := by
  induction groupings generalizing before with
  | nil =>
    constructor
    · rintro ⟨⟩
      rfl
    · rintro rfl
      exact .done _
  | cons grouping rest ih =>
    rw [collapseAll_cons, ← ih]
    by_cases hprimary : grouping.primary ∈ before
    · have hcollapse : grouping.collapse before =
          (before.filter fun test ↦ test ≠ grouping.primary ∧ test ∉ grouping.dependents ∧
            test ≠ grouping.composite) ++ [grouping.composite] := by
        rw [collapse, if_pos (by simpa using hprimary), filter_not_covers]
      rw [hcollapse]
      constructor
      · intro happlied
        cases happlied with
        | passes habsent => exact absurd hprimary habsent
        | fires _ hrest => exact hrest
      · exact .fires hprimary
    · rw [collapse_of_not_mem hprimary]
      constructor
      · intro happlied
        cases happlied with
        | passes _ hrest => exact hrest
        | fires hmem => exact absurd hmem hprimary
      · exact .passes hprimary

end Grouping

namespace Resolver

/-! ### The reference -/

/-- A plan of the plan directory that is not reserved. -/
def IsOpenPlan (resolver : Resolver) (name : String) : Prop :=
  ∃ names, resolver.plans.names = .ok names ∧ name ∈ names ∧ name ∉ resolver.reserved

/-- The list that a name has of its own, before there are any unions: the explicit one with each
test at its first occurrence, or else the one that the plan of this name needs. An explicit profile
that is declared without a list is empty. -/
inductive OwnList (resolver : Resolver) (definition : ListDefinition) : String → List String → Prop
  /-- The name has an explicit profile. -/
  | explicit {name : String} {written : Option (List String)}
      (hwritten : definition.explicitProfiles.get? name = some written) :
      OwnList resolver definition name (written.getD []).eraseDups
  /-- The name has no explicit profile, and a plan. -/
  | plan {name : String} {inventory : Inventory} {tests : List String}
      (habsent : definition.explicitProfiles.get? name = none) (hopen : resolver.IsOpenPlan name)
      (hscrape : Source.scrape resolver.plans.disk resolver.suffixes resolver.roots =
        .ok inventory)
      (hderive : deriveProfile resolver.plans inventory name = .ok tests) :
      OwnList resolver definition name tests

/-- The list of a name that the groupings apply to: a union holds the tests of the own lists of its
constituents in ascending order, and any other profile has its own list. -/
inductive BaseList (resolver : Resolver) (definition : ListDefinition) :
    String → List String → Prop
  /-- The name has a union. Constituents that are unknown or unions only give nothing. -/
  | union {name : String} {constituents tests : List String}
      (hunion : definition.unions.get? name = some constituents) (hascending : Ascending tests)
      (hmem : ∀ test, test ∈ tests ↔ ∃ constituent ∈ constituents, ∃ own,
        resolver.OwnList definition constituent own ∧ test ∈ own) :
      BaseList resolver definition name tests
  /-- The name has no union. -/
  | own {name : String} {tests : List String} (habsent : definition.unions.get? name = none)
      (hown : resolver.OwnList definition name tests) :
      BaseList resolver definition name tests

variable {resolver : Resolver} {definition : ListDefinition} {lists : ResolvedLists}

/-! ### Agreement before the unions -/

/-- The plans that are not reserved are the open ones. -/
theorem mem_openPlans_iff {names : List String} (hnames : resolver.plans.names = .ok names)
    {name : String} : name ∈ resolver.openPlans names ↔ resolver.IsOpenPlan name := by
  rw [mem_openPlans]
  refine ⟨fun hopen ↦ ⟨names, hnames, hopen⟩, ?_⟩
  rintro ⟨others, hothers, hopen⟩
  rw [hnames] at hothers
  cases hothers
  exact hopen

/-- The plans that need a profile are the open ones without an explicit profile. -/
theorem mem_pendingPlans_iff {names : List String} (hnames : resolver.plans.names = .ok names)
    {name : String} :
    name ∈ resolver.pendingPlans (explicitProfiles definition.explicitProfiles) names ↔
      resolver.IsOpenPlan name ∧ definition.explicitProfiles.get? name = none := by
  rw [mem_pendingPlans, names_explicitProfiles, ← Table.get?_eq_none_iff,
    mem_openPlans_iff hnames]

/-- The profiles before the unions are the own lists. -/
theorem get?_withPlans {based : Profiles} {reports : List Diagnostic}
    (hplans : resolver.withPlans (explicitProfiles definition.explicitProfiles) =
      .ok (based, reports)) {name : String} {tests : List String} :
    based.get? name = some tests ↔ resolver.OwnList definition name tests := by
  obtain ⟨names, hnames, hcases⟩ := withPlans_eq_ok hplans
  have hpending : name ∈ resolver.pendingPlans
      (explicitProfiles definition.explicitProfiles) names ↔
      resolver.IsOpenPlan name ∧ definition.explicitProfiles.get? name = none :=
    mem_pendingPlans_iff hnames
  have hexplicit : (explicitProfiles definition.explicitProfiles).get? name = some tests ↔
      ∃ written, definition.explicitProfiles.get? name = some written ∧
        (written.getD []).eraseDups = tests := by
    rw [get?_explicitProfiles, Option.map_eq_some_iff]
  rcases hcases with ⟨hnone, rfl, _⟩ | ⟨inventory, found, _, hscrape, hderived, rfl, _⟩
  · rw [hexplicit]
    constructor
    · rintro ⟨written, hwritten, rfl⟩
      exact .explicit hwritten
    · intro hown
      cases hown with
      | explicit hwritten => exact ⟨_, hwritten, rfl⟩
      | plan habsent hopen =>
        have hmem := hpending.mpr ⟨hopen, habsent⟩
        simp [hnone] at hmem
  · rw [get?_insertAll_derived hderived, hexplicit, hpending]
    constructor
    · rintro (⟨⟨hopen, habsent⟩, hderive⟩ | ⟨_, written, hwritten, rfl⟩)
      · exact .plan habsent hopen hscrape hderive
      · exact .explicit hwritten
    · intro hown
      cases hown with
      | explicit hwritten =>
        exact .inr ⟨fun hplan ↦ by simp [hwritten] at hplan, _, hwritten, rfl⟩
      | plan habsent hopen hothers hderive =>
        rw [hscrape] at hothers
        cases hothers
        exact .inl ⟨⟨hopen, habsent⟩, hderive⟩

/-- The names with an own list are those of the explicit profiles and of the open plans: where all
plans could be derived, none of them lacks its list. -/
theorem exists_ownList_iff {based : Profiles} {reports : List Diagnostic}
    (hplans : resolver.withPlans (explicitProfiles definition.explicitProfiles) =
      .ok (based, reports)) {name : String} :
    (∃ tests, resolver.OwnList definition name tests) ↔
      name ∈ definition.explicitProfiles.names ∨ resolver.IsOpenPlan name := by
  constructor
  · rintro ⟨tests, hwritten | ⟨_, hopen, _, _⟩⟩
    · exact .inl (Table.mem_names_iff.mpr ⟨_, hwritten⟩)
    · exact .inr hopen
  · intro hname
    cases hwritten : definition.explicitProfiles.get? name with
    | some written => exact ⟨_, .explicit hwritten⟩
    | none =>
      have hopen : resolver.IsOpenPlan name :=
        hname.resolve_left (Table.get?_eq_none_iff.mp hwritten)
      obtain ⟨names, hnames, hcases⟩ := withPlans_eq_ok hplans
      have hpending := (mem_pendingPlans_iff hnames).mpr ⟨hopen, hwritten⟩
      rcases hcases with ⟨hnone, _⟩ | ⟨inventory, found, _, hscrape, hderived, _⟩
      · simp [hnone] at hpending
      · obtain ⟨tests, hderive⟩ := exists_of_mem_pending hderived hpending
        exact ⟨tests, .plan hwritten hopen hscrape hderive⟩

/-- The names of the profiles before the unions are those of the explicit profiles and of the open
plans. -/
theorem mem_names_withPlans {based : Profiles} {reports : List Diagnostic}
    (hplans : resolver.withPlans (explicitProfiles definition.explicitProfiles) =
      .ok (based, reports)) {name : String} :
    name ∈ based.names ↔ name ∈ definition.explicitProfiles.names ∨ resolver.IsOpenPlan name := by
  rw [Table.mem_names_iff, ← exists_ownList_iff hplans]
  simp only [get?_withPlans hplans]

/-- The profiles that the groupings apply to are the base lists. -/
theorem get?_withUnions_iff {based : Profiles} {reports : List Diagnostic}
    (hplans : resolver.withPlans (explicitProfiles definition.explicitProfiles) =
      .ok (based, reports)) {name : String} {tests : List String} :
    (based.withUnions definition.unions).get? name = some tests ↔
      resolver.BaseList definition name tests := by
  rw [Profiles.get?_withUnions]
  cases hunion : definition.unions.get? name with
  | none =>
    rw [Option.map_none, Option.none_or, get?_withPlans hplans]
    constructor
    · exact .own hunion
    · intro hbase
      cases hbase with
      | union hsome => rw [hunion] at hsome; cases hsome
      | own _ hown => exact hown
  | some constituents =>
    have hmem (test : String) : test ∈ based.union constituents ↔
        ∃ constituent ∈ constituents, ∃ own,
          resolver.OwnList definition constituent own ∧ test ∈ own := by
      simp only [Profiles.mem_union, Profiles.mem_membersOf, get?_withPlans hplans]
    rw [Option.map_some, Option.some_or, Option.some.injEq]
    constructor
    · rintro rfl
      exact .union hunion (Profiles.union_ascending based constituents) hmem
    · intro hbase
      cases hbase with
      | union hsome hascending htests =>
        rw [hunion] at hsome
        cases hsome
        exact (Profiles.union_ascending based constituents).eq_of_mem_iff hascending fun test ↦
          (hmem test).trans (htests test).symm
      | own hnone => rw [hunion] at hnone; cases hnone

/-! ### Agreement of the outcome -/

/-- The profiles of a resolution are those with a base list, and the one of all tests. -/
theorem mem_names_of_resolve (hresolve : resolver.resolve definition = .ok lists) {name : String} :
    name ∈ lists.names ↔ name ∈ definition.explicitProfiles.names ∨ resolver.IsOpenPlan name ∨
      name ∈ definition.unions.names ∨ name = Profiles.allName := by
  obtain ⟨based, reports, hplans, rfl⟩ := resolve_eq_ok_iff.mp hresolve
  rw [ResolvedLists.names, Profiles.mem_names_withAll, Profiles.names_collapse,
    Profiles.mem_names_withUnions, mem_names_withPlans hplans]
  tauto

/-- A profile other than the one of all tests lists what the groupings make of its base list. -/
theorem members_eq_some_iff (hresolve : resolver.resolve definition = .ok lists) {name : String}
    (hother : name ≠ Profiles.allName) {tests : List String} :
    lists.members name = some tests ↔ ∃ base, resolver.BaseList definition name base ∧
      tests = Grouping.collapseAll definition.metadata.groupings base := by
  obtain ⟨based, reports, hplans, rfl⟩ := resolve_eq_ok_iff.mp hresolve
  rw [ResolvedLists.members, Profiles.get?_withAll, if_neg hother, Profiles.get?_collapse,
    Option.map_eq_some_iff]
  simp only [get?_withUnions_iff hplans, eq_comm]

/-- The profile of all tests is there, and it unites the others in ascending order. -/
theorem exists_members_allName (hresolve : resolver.resolve definition = .ok lists) :
    ∃ all, lists.members Profiles.allName = some all ∧ Ascending all ∧
      ∀ test, test ∈ all ↔ ∃ name, name ≠ Profiles.allName ∧
        ∃ tests, lists.members name = some tests ∧ test ∈ tests := by
  obtain ⟨based, reports, _, rfl⟩ := resolve_eq_ok_iff.mp hresolve
  refine ⟨_, Profiles.get?_withAll _ _, Profiles.union_ascending _ _, fun test ↦ ?_⟩
  rw [Profiles.mem_union_namesBelowAll]
  refine exists_congr fun name ↦ and_congr_right fun hother ↦ ?_
  simp only [ResolvedLists.members, Profiles.get?_withAll, if_neg hother]

/-- The profiles of a resolution are the explicit ones, the open plans, the unions and `ALL`. Each
of them but `ALL` lists what the groupings, one after the other, make of its base list, and `ALL` is
the ascending list of the tests of the others, whatever was there under its name before. -/
theorem resolve_profiles (hresolve : resolver.resolve definition = .ok lists) :
    (∀ name, name ∈ lists.names ↔
      name ∈ definition.explicitProfiles.names ∨ resolver.IsOpenPlan name ∨
        name ∈ definition.unions.names ∨ name = Profiles.allName) ∧
    (∀ name, name ≠ Profiles.allName → ∀ tests,
      lists.members name = some tests ↔ ∃ base, resolver.BaseList definition name base ∧
        Grouping.Applied definition.metadata.groupings base tests) ∧
    ∃ all, lists.members Profiles.allName = some all ∧ Ascending all ∧
      ∀ test, test ∈ all ↔ ∃ name, name ≠ Profiles.allName ∧
        ∃ tests, lists.members name = some tests ∧ test ∈ tests := by
  refine ⟨fun name ↦ mem_names_of_resolve hresolve, fun name hother tests ↦ ?_,
    exists_members_allName hresolve⟩
  simp only [members_eq_some_iff hresolve hother, Grouping.applied_iff]

/-! ### A small source tree -/

/-- A plan with one test case. -/
def samplePlan (reference : String) : FileTree :=
  .file (Text.Utf8.encode ("testcases:\n  first:\n    testcase: " ++ reference ++ "\n"))

/-- The plans of the sample. The reserved one refers to a test that does not exist. -/
def samplePlans : List (String × FileTree) :=
  [("common.yaml", samplePlan "nothing"), ("nightly.yaml", samplePlan "io.IO runs"),
    ("smoke.yaml", samplePlan "io.IO runs")]

/-- A source file that declares one test. -/
def sampleSource : FileTree :=
  .file (Text.Utf8.encode ("k8stest.InitTesting(t, \"io\", \"io\")\n" ++
    "var _ = Describe(\"IO\", func() \x7b\n" ++ "It(\"runs\", func() \x7b\n"))

/-- The plans beside the sources. -/
def sampleTree : FileTree :=
  .directory [("plans", .directory samplePlans),
    ("src", .directory [("io", .directory [("ext", .directory [("io_test.go", sampleSource)])])])]

/-- Where the sample is resolved. -/
def sampleResolver : Resolver where
  plans := ⟨⟨sampleTree, []⟩, ⟨"plans"⟩⟩
  suffixes := ["go"]
  roots := [⟨"src/*"⟩]
  reserved := ["common"]
  bookends := ["install"]

/-- A definition in which names meet: a plan under an explicit profile under a union, a union among
its own constituents, and an explicit profile and a union that are called `ALL`. The second grouping
takes up the composite of the first one. -/
def sampleDefinition : ListDefinition where
  explicitProfiles := Table.ofList
    [("p", some ["a", "b", "a"]), ("smoke", some ["install", "b", "install"]), ("idle", none),
      ("ALL", some ["stale"])]
  unions := Table.ofList
    [("m", ["p", "nightly", "smoke", "ALL", "m", "missing"]), ("smoke", ["p"]), ("ALL", ["p"])]
  metadata := ⟨[⟨"a", ["b"]⟩, ⟨"a,b", ["io"]⟩], ["smoke", "io", "a,b,io", "ALL"], ∅, []⟩

/-- The plans of the sample stand in order. -/
theorem names_samplePlans :
    sampleResolver.plans.names = .ok ["common", "nightly", "smoke"] := by
  have hlocate : sampleResolver.plans.disk.locate sampleResolver.plans.path =
      .ok (.directory samplePlans) := rfl
  have hnames : samplePlans.filterMap PlanDirectory.nameOfEntry =
      ["common", "nightly", "smoke"] := by
    decide
  exact hnames ▸ PlanDirectory.names_of_pairwise hlocate (by decide) (by decide)

/-- The outcome of the sample. -/
theorem resolve_sample :
    ∃ lists, sampleResolver.resolve sampleDefinition = .ok lists ∧
      lists.profiles.entries =
        [("ALL", ["a,b,io", "install", "io", "stale"]), ("idle", []),
          ("m", ["install", "stale", "a,b,io"]), ("nightly", ["io"]), ("p", ["a,b,io"]),
          ("smoke", ["a,b,io"])] ∧
      lists.excluded = ["a,b,io", "io"] := by
  have hrun : (sampleResolver.resolve sampleDefinition).toOption.map
      (fun lists ↦ (lists.profiles.entries, lists.excluded)) =
        some ([("ALL", ["a,b,io", "install", "io", "stale"]), ("idle", []),
          ("m", ["install", "stale", "a,b,io"]), ("nightly", ["io"]), ("p", ["a,b,io"]),
          ("smoke", ["a,b,io"])], ["a,b,io", "io"]) := by
    rw [resolve, withPlans, names_samplePlans]
    decide +kernel
  obtain ⟨lists, hresolve, hshown⟩ := exists_eq_ok_of_toOption hrun
  exact ⟨lists, hresolve, (Prod.mk.inj hshown).1, (Prod.mk.inj hshown).2⟩

/-- In the sample the union `m` sees the plan, the explicit `smoke` and `ALL`, and neither itself
nor the union `smoke`; its base list runs through both groupings, and `ALL` lists what `smoke` is
left with. -/
theorem resolve_profiles_sample :
    ∃ lists, sampleResolver.resolve sampleDefinition = .ok lists ∧
      (∃ base, sampleResolver.BaseList sampleDefinition "m" base ∧
        Grouping.Applied sampleDefinition.metadata.groupings base ["install", "stale", "a,b,io"]) ∧
      sampleResolver.IsOpenPlan "nightly" ∧
      ∃ all, lists.members "ALL" = some all ∧ "a,b,io" ∈ all := by
  obtain ⟨lists, hresolve, hentries, _⟩ := resolve_sample
  have hfound (name : String) (tests : List String) :
      lists.members name = some tests ↔ (name, tests) ∈ lists.profiles.entries :=
    Table.mem_entries_iff.symm
  obtain ⟨hnames, hmembers, all, hall, _, hmem⟩ := resolve_profiles hresolve
  refine ⟨lists, hresolve, (hmembers "m" (by decide) _).mp ?_, ?_, all, hall, (hmem _).mpr ?_⟩
  · simp [hfound, hentries]
  · have hnightly : "nightly" ∈ lists.names := by
      rw [ResolvedLists.names, Table.names, hentries]
      decide
    rcases (hnames "nightly").mp hnightly with hexplicit | hopen | hunion | hname
    · exact absurd hexplicit (by decide)
    · exact hopen
    · exact absurd hunion (by decide)
    · exact absurd hname (by decide)
  · exact ⟨"smoke", by decide, ["a,b,io"], by simp [hfound, hentries], by decide⟩

end Resolver

end Roster
