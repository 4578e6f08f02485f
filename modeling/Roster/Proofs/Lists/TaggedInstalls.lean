import Roster.Proofs.Lists.UpgradeLookup

/-!
# Installs under a tag

A list of tests becomes one run, or two: an install under the tag of an earlier release, and all
other tests behind it. Which of the two it is depends on the tag. A tag that is given applies to
every list, and the release of the plan applies to a list with an override test (`TagApplies`). If
the list needs the release and there is none to be had, there are no runs (`LacksRelease`).

`tagFor_eq_ok_some_iff` and `tagFor_eq_error_iff` say when a tag is found and when the search for
it fails, and `WithoutInstalls` is what is left of a list when its installs are taken out.
`runsFor_splits` puts the two together: it says when there are runs, and that they lose no test.
-/

set_option autoImplicit false
set_option relaxedAutoImplicit false

namespace Roster

/-! ### The tag of a list -/

variable {tests overrides : List String} {given : Option String} {plan : Option NamedPlan}
  {tag : String} {fault : UpgradeError}

/-- The tag that the install of a list runs under: the given one, or without one the release of the
plan, if an override test is in the list. -/
inductive TagApplies (tests overrides : List String) :
    Option String → Option NamedPlan → String → Prop
  /-- A given tag applies to every list. -/
  | given (tag : String) (plan : Option NamedPlan) : TagApplies tests overrides (some tag) plan tag
  /-- The release of the plan applies to lists with an override test. -/
  | planned {override tag : String} {plan : NamedPlan} (hoverride : override ∈ overrides)
    (hlisted : override ∈ tests) (hversion : plan.versionOf = .ok tag) :
    TagApplies tests overrides none (some plan) tag

/-- No release can be had from a plan. -/
inductive LacksRelease : Option NamedPlan → UpgradeError → Prop
  /-- There is no plan. -/
  | noPlan : LacksRelease none .noSource
  /-- The plan does not name just one. -/
  | notOne {plan : NamedPlan} {fault : UpgradeError} (hversion : plan.versionOf = .error fault) :
    LacksRelease (some plan) fault

/-- The release of the plan is asked for where no tag is given and an override test is in the list.
-/
theorem tagFor_of_required (hneeded : requiresInstallTag tests overrides = true)
    (plan : NamedPlan) : tagFor tests overrides none (some plan) = plan.versionOf.map some :=
  if_pos hneeded

/-- Without an override test in the list, no tag applies but a given one. -/
theorem tagFor_of_not_required (hneedless : ¬ requiresInstallTag tests overrides = true)
    (plan : Option NamedPlan) : tagFor tests overrides none plan = .ok none :=
  if_neg hneedless

/-- The search for a tag finds the one that applies. -/
theorem tagFor_eq_ok_some_iff :
    tagFor tests overrides given plan = .ok (some tag) ↔
      TagApplies tests overrides given plan tag := by
  constructor
  · intro hfound
    cases given with
    | some other =>
      cases hfound
      exact .given tag plan
    | none =>
      by_cases hneeded : requiresInstallTag tests overrides = true
      · obtain ⟨override, hoverride, hlisted⟩ := requiresInstallTag_iff.mp hneeded
        cases plan with
        | none =>
          rw [tagFor, if_pos hneeded] at hfound
          cases hfound
        | some plan =>
          rw [tagFor_of_required hneeded] at hfound
          cases hversion : plan.versionOf with
          | error fault =>
            rw [hversion] at hfound
            cases hfound
          | ok release =>
            rw [hversion] at hfound
            cases hfound
            exact .planned hoverride hlisted hversion
      · rw [tagFor_of_not_required hneeded] at hfound
        cases hfound
  · rintro (_ | ⟨hoverride, hlisted, hversion⟩)
    · rfl
    · rw [tagFor_of_required (requiresInstallTag_iff.mpr ⟨_, hoverride, hlisted⟩), hversion]
      rfl

/-- The search for a tag fails where none is given, an override test is in the list, and no release
can be had from the plan. -/
theorem tagFor_eq_error_iff :
    tagFor tests overrides given plan = .error fault ↔
      given = none ∧ (∃ override ∈ overrides, override ∈ tests) ∧ LacksRelease plan fault := by
  rw [← requiresInstallTag_iff]
  constructor
  · intro hfault
    cases given with
    | some tag => cases hfault
    | none =>
      by_cases hneeded : requiresInstallTag tests overrides = true
      · refine ⟨rfl, hneeded, ?_⟩
        cases plan with
        | none =>
          rw [tagFor, if_pos hneeded] at hfault
          cases hfault
          exact .noPlan
        | some plan =>
          rw [tagFor_of_required hneeded] at hfault
          cases hversion : plan.versionOf with
          | error other =>
            rw [hversion] at hfault
            cases hfault
            exact .notOne hversion
          | ok release =>
            rw [hversion] at hfault
            cases hfault
      · rw [tagFor_of_not_required hneeded] at hfault
        cases hfault
  · rintro ⟨rfl, hneeded, _ | ⟨hversion⟩⟩
    · exact if_pos hneeded
    · rw [tagFor_of_required hneeded, hversion]
      rfl

/-! ### What is left of a list -/

/-- All that is in a list but its installs, in the order of the list and as often as there. -/
structure WithoutInstalls (tests rest : List String) : Prop where
  sublist : rest.Sublist tests
  count_eq : ∀ entry, rest.count entry = if entry = installTest then 0 else tests.count entry

/-- There is one such list. -/
theorem withoutInstalls_iff {rest : List String} :
    WithoutInstalls tests rest ↔ rest = tests.filter (· ≠ installTest) := by
  have hcount (entry : String) : (tests.filter (· ≠ installTest)).count entry =
      if entry = installTest then 0 else tests.count entry := by
    split
    · next hinstall =>
      rw [List.count_eq_zero]
      simp [hinstall]
    · next hother => exact List.count_filter (by simpa using hother)
  constructor
  · intro hrest
    have hperm : rest.Perm (tests.filter (· ≠ installTest)) :=
      List.perm_iff_count.mpr fun entry ↦ by rw [hrest.count_eq, hcount]
    have hnone : ∀ entry ∈ rest, decide (entry ≠ installTest) = true := fun entry hentry ↦ by
      simpa using (List.mem_filter.mp (hperm.mem_iff.mp hentry)).2
    have hpart := hrest.sublist.filter (· ≠ installTest)
    rw [List.filter_eq_self.mpr hnone] at hpart
    exact hpart.eq_of_length hperm.length_eq
  · rintro rfl
    exact ⟨List.filter_sublist, hcount⟩

/-- The list is split where a tag applies and there is an install for it. -/
theorem splitInstall_some (hinstall : installTest ∈ tests) (tag : String) :
    splitInstall tests (some tag) =
      ⟨some ⟨some tag, [installTest]⟩, ⟨none, tests.filter (· ≠ installTest)⟩⟩ := by
  rw [splitInstall, if_pos (List.contains_iff_mem.mpr hinstall)]

/-- Without an install the list stays whole. -/
theorem splitInstall_of_not_mem (hinstall : installTest ∉ tests) (tag : Option String) :
    splitInstall tests tag = ⟨none, ⟨none, tests⟩⟩ := by
  cases tag with
  | none => rfl
  | some tag => rw [splitInstall, if_neg (mt List.contains_iff_mem.mp hinstall)]

/-! ### The runs of a list -/

theorem runsFor_eq_error_iff :
    runsFor tests overrides given plan = .error fault ↔
      tagFor tests overrides given plan = .error fault := by
  rw [runsFor]
  cases tagFor tests overrides given plan <;> simp [Except.map]

theorem runsFor_eq_ok_iff {runs : Runs} :
    runsFor tests overrides given plan = .ok runs ↔
      ∃ found, tagFor tests overrides given plan = .ok found ∧ splitInstall tests found = runs := by
  rw [runsFor]
  cases tagFor tests overrides given plan <;> simp [Except.map]

/-- There are no runs for a list exactly when no tag is given, an override test is in the list and
no release can be had from the plan; the error is the one of the plan. Otherwise the list is split
without loss. If a tag applies and there is an install in the list, an install alone runs under the
tag, and all other entries run behind it; in all other cases the list runs as it is. The tests
behind the install never run under a tag. With a given tag neither the override tests nor the plan
count, and the plan does not count either where no override test is in the list. -/
theorem runsFor_splits (tests overrides : List String) (given : Option String)
    (plan : Option NamedPlan) :
    (∀ fault, runsFor tests overrides given plan = .error fault ↔
      given = none ∧ (∃ override ∈ overrides, override ∈ tests) ∧ LacksRelease plan fault) ∧
    (∀ runs, runsFor tests overrides given plan = .ok runs → runs.main.tag = none ∧
      (∀ tag, TagApplies tests overrides given plan tag → installTest ∈ tests →
        runs.install = some ⟨some tag, [installTest]⟩ ∧
          WithoutInstalls tests runs.main.tests) ∧
      ((∀ tag, ¬ TagApplies tests overrides given plan tag) ∨ installTest ∉ tests →
        runs.install = none ∧ runs.main.tests = tests)) ∧
    (∀ tag, given = some tag → ∀ others otherPlan,
      runsFor tests others given otherPlan = runsFor tests overrides given plan) ∧
    ((∀ override ∈ overrides, override ∉ tests) → ∀ otherPlan,
      runsFor tests overrides given otherPlan = runsFor tests overrides given plan) := by
  refine ⟨fun fault ↦ ?_, fun runs hruns ↦ ?_, ?_, fun hnone otherPlan ↦ ?_⟩
  · rw [runsFor_eq_error_iff, tagFor_eq_error_iff]
  · obtain ⟨found, hfound, rfl⟩ := runsFor_eq_ok_iff.mp hruns
    refine ⟨?_, fun tag htag hinstall ↦ ?_, ?_⟩
    · cases found with
      | none => rfl
      | some tag =>
        rw [splitInstall]
        split <;> rfl
    · obtain rfl : some tag = found :=
        Except.ok.inj ((tagFor_eq_ok_some_iff.mpr htag).symm.trans hfound)
      rw [splitInstall_some hinstall]
      exact ⟨rfl, withoutInstalls_iff.mpr rfl⟩
    · rintro (hfree | hinstall)
      · cases found with
        | none => exact ⟨rfl, rfl⟩
        | some tag => exact absurd (tagFor_eq_ok_some_iff.mp hfound) (hfree tag)
      · rw [splitInstall_of_not_mem hinstall]
        exact ⟨rfl, rfl⟩
  · rintro tag rfl others otherPlan
    rfl
  · have hneedless : ¬ requiresInstallTag tests overrides = true := by
      rw [requiresInstallTag_iff]
      rintro ⟨override, hoverride, hlisted⟩
      exact hnone override hoverride hlisted
    cases given with
    | some tag => rfl
    | none =>
      rw [runsFor, runsFor, tagFor_of_not_required hneedless, tagFor_of_not_required hneedless]

/-- A plan that names one release, twice. -/
def agreedPlan : NamedPlan :=
  ⟨"upgrades", ∅, [⟨[], some "2.4.0", ∅⟩, ⟨[], none, ∅⟩, ⟨[], some "2.4.0", ∅⟩]⟩

/-- A plan that names two. -/
def dividedPlan : NamedPlan :=
  ⟨"upgrades", ∅, [⟨[], some "2.4.0", ∅⟩, ⟨[], some "2.5.0", ∅⟩]⟩

/-- A list in which each test has an install of its own, with the agreed release, with a given tag,
and with no release to be had. -/
theorem runsFor_splits_wrapped :
    let tests := ["install", "io", "uninstall", "install", "upgrade", "uninstall"]
    let rest := ["io", "uninstall", "upgrade", "uninstall"]
    (∃ runs, runsFor tests ["upgrade"] none (some agreedPlan) = .ok runs ∧
      runs.install = some ⟨some "2.4.0", ["install"]⟩ ∧ runs.main = ⟨none, rest⟩) ∧
    runsFor tests ["upgrade"] none (some dividedPlan) =
      .error (.conflict "upgrades" "2.4.0" "2.5.0") ∧
    runsFor tests ["upgrade"] (some "2.3.0") (some dividedPlan) =
      .ok ⟨some ⟨some "2.3.0", ["install"]⟩, ⟨none, rest⟩⟩ ∧
    runsFor tests ["other"] none (some dividedPlan) = .ok ⟨none, ⟨none, tests⟩⟩ := by
  intro tests rest
  have hneeded : ∃ override ∈ ["upgrade"], override ∈ tests := ⟨"upgrade", by decide, by decide⟩
  obtain ⟨-, hsplits, -, -⟩ := runsFor_splits tests ["upgrade"] none (some agreedPlan)
  obtain ⟨hfails, -, -, -⟩ := runsFor_splits tests ["upgrade"] none (some dividedPlan)
  obtain ⟨-, -, hgiven, -⟩ := runsFor_splits tests [] (some "2.3.0") none
  obtain ⟨-, -, -, hneedless⟩ := runsFor_splits tests ["other"] none none
  refine ⟨?_, ?_, ?_, ?_⟩
  · have hruns : runsFor tests ["upgrade"] none (some agreedPlan) =
        .ok ⟨some ⟨some "2.4.0", ["install"]⟩, ⟨none, rest⟩⟩ := by rfl
    obtain ⟨htag, happlies, -⟩ := hsplits _ hruns
    have hreleased : TagApplies tests ["upgrade"] none (some agreedPlan) "2.4.0" :=
      .planned (List.mem_singleton_self "upgrade") (by decide) rfl
    obtain ⟨hinstall, -⟩ := happlies "2.4.0" hreleased (by decide)
    exact ⟨_, hruns, hinstall, rfl⟩
  · exact (hfails _).mpr ⟨rfl, hneeded, .notOne rfl⟩
  · exact (hgiven "2.3.0" rfl ["upgrade"] (some dividedPlan)).trans rfl
  · exact (hneedless (by decide) (some dividedPlan)).trans rfl

end Roster
