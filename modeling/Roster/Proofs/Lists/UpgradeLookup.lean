import Roster.Proofs.Lists.StandaloneTests
import Roster.Upgrade

/-!
# Upgrade tests behind composites

A run needs an install of an earlier release if its list has one of the override tests. These are
written as single names, and the look-up compares them with whole entries. A test that a grouping
took up into its composite is no entry any more, and the look-up misses it: the run starts from the
default install, and nothing is reported (`Resolver.not_forall_requiresInstallTag`).

`Grouping.mem_collapseAll_iff_of_commaFree` says when that happens, with no condition on the
groupings: a name without a comma stays an entry exactly when none of them takes it up
(`Grouping.TakenUp`) from the list that the groupings before it leave. The look-up is right for the
tests that stand alone (`Resolver.StandsAlone`). `Resolver.lookup_of_standsAlone` follows them from
the base lists through `get` and the decoration to the runs.
-/

set_option autoImplicit false
set_option relaxedAutoImplicit false

namespace Roster

/-! ### Tests that groupings take up -/

namespace Grouping

variable {grouping : Grouping} {groupings : List Grouping} {list : List String} {test : String}

/-- One of some groupings takes a test up from what those before it leave of a list. -/
def TakenUp (groupings : List Grouping) (list : List String) (test : String) : Prop :=
  ∃ earlier grouping later, groupings = earlier ++ grouping :: later ∧
    grouping.TakesUp (collapseAll earlier list) test

theorem not_takenUp_nil : ¬ TakenUp [] list test := by
  rintro ⟨earlier, grouping, later, hsplit, _⟩
  simp at hsplit

/-- The first grouping takes a test up, or one of the others does from what the first one leaves. -/
theorem takenUp_cons : TakenUp (grouping :: groupings) list test ↔
    grouping.TakesUp list test ∨ TakenUp groupings (grouping.collapse list) test := by
  constructor
  · rintro ⟨earlier, other, later, hsplit, htaken⟩
    cases earlier with
    | nil =>
      cases hsplit
      exact .inl htaken
    | cons first earlier =>
      cases hsplit
      exact .inr ⟨earlier, other, later, rfl, htaken⟩
  · rintro (htaken | ⟨earlier, other, later, rfl, htaken⟩)
    · exact ⟨[], grouping, groupings, rfl, htaken⟩
    · exact ⟨grouping :: earlier, other, later, rfl, htaken⟩

/-- A name without a comma is an entry after the groupings exactly when it was one before and none
of them takes it up. -/
theorem mem_collapseAll_iff_of_commaFree (htest : CommaFree test) :
    test ∈ collapseAll groupings list ↔ test ∈ list ∧ ¬ TakenUp groupings list test := by
  induction groupings generalizing list with
  | nil => exact (and_iff_left not_takenUp_nil).symm
  | cons grouping rest ih =>
    rw [collapseAll_cons, ih, mem_collapse_iff_of_commaFree htest, takenUp_cons, not_or, and_assoc]

end Grouping

/-! ### From a profile to its runs -/

/-- A profile of resolved lists can be given out. What is given out are its entries that do not open
or close a run, in some order. -/
theorem ResolvedLists.exists_get_eq_ok {lists : ResolvedLists} {profile : String}
    {entries : List String} (hentries : lists.members profile = some entries) (byDuration : Bool) :
    ∃ tests, lists.get profile byDuration = .ok tests ∧
      ∀ test, test ∈ tests ↔ test ∈ entries ∧ test ∉ lists.bookends := by
  rw [get, hentries]
  refine ⟨_, rfl, fun test ↦ ?_⟩
  cases byDuration <;> simp [sortByDuration, withoutBookends, sortNames]

/-- A decorated list has the tests of the list. What it has beside them are installs and uninstalls.
-/
theorem ListOptions.mem_decorate {options : ListOptions} {tests decorated : List String}
    (hdecorate : options.decorate tests = .ok decorated) (test : String) :
    (test ∈ tests → test ∈ decorated) ∧
      (test ∈ decorated → test ∈ tests ∨ test = installTest ∨ test = uninstallTest) := by
  rw [decorate] at hdecorate
  cases hvalid : options.validate with
  | error error =>
    rw [hvalid] at hdecorate
    cases hdecorate
  | ok =>
    simp only [hvalid] at hdecorate
    split at hdecorate <;> cases hdecorate
    · constructor
      · exact fun hmem ↦ List.mem_flatMap.mpr ⟨test, hmem, by simp⟩
      · intro hmem
        obtain ⟨inner, hinner, hentry⟩ := List.mem_flatMap.mp hmem
        simp only [List.mem_cons, List.not_mem_nil, or_false] at hentry
        rcases hentry with rfl | rfl | rfl
        · exact .inr (.inl rfl)
        · exact .inl hinner
        · exact .inr (.inr rfl)
    · cases options.install <;> cases options.uninstall <;> simp <;> tauto

/-- The look-up compares the override tests with the entries of a list. -/
theorem requiresInstallTag_iff {tests overrides : List String} :
    requiresInstallTag tests overrides = true ↔ ∃ override ∈ overrides, override ∈ tests := by
  simp [requiresInstallTag]

/-- Without a tag and a plan, a list has no runs if it needs a tag, and is one run if it does not.
-/
theorem runsFor_none_none (tests overrides : List String) :
    runsFor tests overrides none none =
      if requiresInstallTag tests overrides then .error .noSource
      else .ok ⟨none, ⟨none, tests⟩⟩ := by
  rw [runsFor, tagFor]
  cases requiresInstallTag tests overrides <;> rfl

/-! ### Tests of a profile that stand alone -/

namespace Resolver

variable {resolver : Resolver} {definition : ListDefinition} {lists : ResolvedLists}

/-- A test is in a base list of a profile, and the groupings leave it there. The base lists of `ALL`
are those of the other profiles. -/
def StandsAlone (resolver : Resolver) (definition : ListDefinition) (profile test : String) :
    Prop :=
  ∃ name, name ≠ Profiles.allName ∧ (profile = Profiles.allName ∨ profile = name) ∧
    ∃ base, resolver.BaseList definition name base ∧ test ∈ base ∧
      ¬ Grouping.TakenUp definition.metadata.groupings base test

/-- The entries of a profile without commas are the tests that stand alone in it. -/
theorem mem_members_iff_standsAlone (hresolve : resolver.resolve definition = .ok lists)
    {profile : String} {entries : List String} (hentries : lists.members profile = some entries)
    {test : String} (htest : CommaFree test) :
    test ∈ entries ↔ resolver.StandsAlone definition profile test := by
  simp only [StandsAlone, ← Grouping.mem_collapseAll_iff_of_commaFree htest]
  by_cases hall : profile = Profiles.allName
  · subst hall
    rw [mem_members_allName_iff hresolve hentries]
    simp only [true_or, true_and]
  · obtain ⟨base, hbase, rfl⟩ := (members_eq_some_iff hresolve hall).mp hentries
    constructor
    · exact fun hmem ↦ ⟨profile, hall, .inr rfl, base, hbase, hmem⟩
    · rintro ⟨name, _, hname, other, hother, hmem⟩
      obtain rfl := hname.resolve_left hall
      have hsame := (members_eq_some_iff hresolve hall).mpr ⟨other, hother, rfl⟩
      rw [hentries] at hsame
      rwa [Option.some.inj hsame]

/-- Every profile of a resolution can be given out, in either order, and however its list is
decorated: if an override test without a comma that does not open or close a run stands alone in the
profile, then a run without a tag and a plan fails for want of a release. If no override test stands
alone, no matter how many of them are behind composites, it is one run with the default install. -/
theorem lookup_of_standsAlone (hresolve : resolver.resolve definition = .ok lists)
    {profile : String} (hprofile : profile ∈ lists.names) (byDuration : Bool) :
    ∃ tests, lists.get profile byDuration = .ok tests ∧
      ∀ (options : ListOptions) decorated, options.decorate tests = .ok decorated →
        (∀ test ∈ lists.installOverrides, CommaFree test → test ∉ lists.bookends →
          resolver.StandsAlone definition profile test →
          requiresInstallTag decorated lists.installOverrides = true ∧
            runsFor decorated lists.installOverrides none none = .error .noSource) ∧
        ((∀ test ∈ lists.installOverrides, CommaFree test ∧ test ≠ installTest ∧
            test ≠ uninstallTest ∧ ¬ resolver.StandsAlone definition profile test) →
          requiresInstallTag decorated lists.installOverrides = false ∧
            runsFor decorated lists.installOverrides none none =
              .ok ⟨none, ⟨none, decorated⟩⟩) := by
  obtain ⟨entries, hentries⟩ := Table.mem_names_iff.mp hprofile
  obtain ⟨tests, hget, hmem⟩ := ResolvedLists.exists_get_eq_ok hentries byDuration
  refine ⟨tests, hget, fun options decorated hdecorate ↦ ⟨?_, fun hoverrides ↦ ?_⟩⟩
  · intro test hoverride hcommaFree hbookend halone
    have hentry : test ∈ entries :=
      (mem_members_iff_standsAlone hresolve hentries hcommaFree).mpr halone
    have hdecorated : test ∈ decorated :=
      (ListOptions.mem_decorate hdecorate test).1 ((hmem test).mpr ⟨hentry, hbookend⟩)
    have hrequires := requiresInstallTag_iff.mpr ⟨test, hoverride, hdecorated⟩
    exact ⟨hrequires, by rw [runsFor_none_none, if_pos hrequires]⟩
  · have hmissed : ¬ requiresInstallTag decorated lists.installOverrides = true := by
      rw [requiresInstallTag_iff]
      rintro ⟨test, hoverride, hdecorated⟩
      obtain ⟨hcommaFree, hinstall, huninstall, hgrouped⟩ := hoverrides test hoverride
      rcases (ListOptions.mem_decorate hdecorate test).2 hdecorated with htest | hadded | hadded
      · exact hgrouped
          ((mem_members_iff_standsAlone hresolve hentries hcommaFree).mp ((hmem test).mp htest).1)
      · exact hinstall hadded
      · exact huninstall hadded
    exact ⟨by simpa using hmissed, by rw [runsFor_none_none, if_neg hmissed]⟩

/-! ### An upgrade test as a dependent -/

/-- An override test that is a dependent, in a profile with the primary test and in one without. -/
def hiddenUpgradeDefinition : ListDefinition where
  explicitProfiles := Table.ofList [("p", some ["a", "upgrade"]), ("q", some ["upgrade"])]
  unions := ∅
  metadata := ⟨[⟨"a", ["upgrade"]⟩], [], ∅, ["upgrade"]⟩

/-- A run with an install before it and an uninstall behind it. -/
def installedRun : ListOptions := ⟨true, true, false, " ", .plain⟩

/-- The outcome. -/
theorem resolve_hiddenUpgrade :
    ∃ lists, planlessResolver.resolve hiddenUpgradeDefinition = .ok lists ∧
      lists.profiles.entries =
        [("ALL", ["a,upgrade", "upgrade"]), ("p", ["a,upgrade"]), ("q", ["upgrade"])] ∧
      lists.installOverrides = ["upgrade"] ∧ lists.bookends = ["install"] := by
  have hrun : (planlessResolver.resolve hiddenUpgradeDefinition).toOption.map
      (fun lists ↦ (lists.profiles.entries, lists.installOverrides, lists.bookends)) =
        some ([("ALL", ["a,upgrade", "upgrade"]), ("p", ["a,upgrade"]), ("q", ["upgrade"])],
          ["upgrade"], ["install"]) := by
    decide +kernel
  obtain ⟨lists, hresolve, hshown⟩ := exists_eq_ok_of_toOption hrun
  simp only [Prod.mk.injEq] at hshown
  exact ⟨lists, hresolve, hshown⟩

/-- An override test behind a composite is missed: `p` lists `a,upgrade`, which names the test
`upgrade`, and the list runs with the default install. -/
theorem not_forall_requiresInstallTag :
    ¬ ∀ (resolver : Resolver) (definition : ListDefinition) (lists : ResolvedLists),
      resolver.resolve definition = .ok lists →
      ∀ profile tests, lists.get profile false = .ok tests →
      ∀ test ∈ lists.installOverrides, CommaFree test → test ∉ lists.bookends →
        test ∈ listTests tests →
        ∀ (options : ListOptions) decorated, options.decorate tests = .ok decorated →
          requiresInstallTag decorated lists.installOverrides = true ∧
            runsFor decorated lists.installOverrides none none = .error .noSource := by
  intro hclaim
  obtain ⟨lists, hresolve, hentries, hoverrides, hbookends⟩ := resolve_hiddenUpgrade
  have hmembers : lists.members "p" = some ["a,upgrade"] := by
    rw [ResolvedLists.members, ← Table.mem_entries_iff, hentries]
    decide
  have hget : lists.get "p" false = .ok ["a,upgrade"] := by
    simp [ResolvedLists.get, hmembers, ResolvedLists.withoutBookends, hbookends, sortNames]
  obtain ⟨hrequires, _⟩ := hclaim planlessResolver hiddenUpgradeDefinition lists hresolve "p" _ hget
    "upgrade" (by simp [hoverrides]) (by decide) (by simp [hbookends]) (by decide)
    installedRun ["install", "a,upgrade", "uninstall"] rfl
  rw [hoverrides] at hrequires
  cases hrequires

/-- The same override test stands alone in `q`, which does not have the primary test, and there it
is found. In `p` it is not. -/
theorem lookup_of_standsAlone_hiddenUpgrade :
    ∃ lists, planlessResolver.resolve hiddenUpgradeDefinition = .ok lists ∧
      (∃ tests decorated, lists.get "q" false = .ok tests ∧
        installedRun.decorate tests = .ok decorated ∧
        runsFor decorated lists.installOverrides none none = .error .noSource) ∧
      ∃ tests decorated, lists.get "p" false = .ok tests ∧
        installedRun.decorate tests = .ok decorated ∧
        runsFor decorated lists.installOverrides none none = .ok ⟨none, ⟨none, decorated⟩⟩ := by
  obtain ⟨lists, hresolve, hentries, hoverrides, hbookends⟩ := resolve_hiddenUpgrade
  have hfound (name : String) (tests : List String) :
      lists.members name = some tests ↔ (name, tests) ∈ lists.profiles.entries :=
    Table.mem_entries_iff.symm
  have hgrouped : lists.members "p" = some ["a,upgrade"] := by simp [hfound, hentries]
  have hlone : lists.members "q" = some ["upgrade"] := by simp [hfound, hentries]
  refine ⟨lists, hresolve, ?_, ?_⟩
  · obtain ⟨tests, hget, hlookup⟩ :=
      lookup_of_standsAlone hresolve (Table.mem_names_iff.mpr ⟨_, hlone⟩) false
    have halone : planlessResolver.StandsAlone hiddenUpgradeDefinition "q" "upgrade" :=
      (mem_members_iff_standsAlone hresolve hlone (by decide)).mp (by decide)
    obtain ⟨hneeded, _⟩ := hlookup installedRun _ rfl
    obtain ⟨_, hruns⟩ :=
      hneeded "upgrade" (by simp [hoverrides]) (by decide) (by simp [hbookends]) halone
    exact ⟨tests, _, hget, rfl, hruns⟩
  · obtain ⟨tests, hget, hlookup⟩ :=
      lookup_of_standsAlone hresolve (Table.mem_names_iff.mpr ⟨_, hgrouped⟩) false
    have hhidden : ¬ planlessResolver.StandsAlone hiddenUpgradeDefinition "p" "upgrade" := by
      rw [← mem_members_iff_standsAlone hresolve hgrouped (by decide)]
      decide
    have hall : ∀ test ∈ lists.installOverrides, CommaFree test ∧ test ≠ installTest ∧
        test ≠ uninstallTest ∧
          ¬ planlessResolver.StandsAlone hiddenUpgradeDefinition "p" test := by
      rw [hoverrides, List.forall_mem_singleton]
      exact ⟨by decide, by decide, by decide, hhidden⟩
    obtain ⟨_, hmissed⟩ := hlookup installedRun _ rfl
    obtain ⟨_, hruns⟩ := hmissed hall
    exact ⟨tests, _, hget, rfl, hruns⟩

end Resolver

end Roster
