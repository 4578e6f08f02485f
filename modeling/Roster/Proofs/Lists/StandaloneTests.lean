import Roster.Proofs.Lists.IndependentGroupings
import Roster.Proofs.Lists.ProfileReference

/-!
# Grouped tests that also stand alone

Where a list of tests has the composite of a grouping, its tests should not stand beside it. With
independent groupings that have dependents, and tests without commas, this holds of every profile
but `ALL`. A grouping fires in a profile whose list has the primary test, and no test of it is left
there.

`ALL` is made of the other profiles after the groupings, and so it has what any of them has: the
composite from a profile in which the grouping fired, and a dependent from one in which it did not
(`Resolver.not_forall_standalone`). `Resolver.standalone_iff` says which dependents these are. A
primary test never stands alone, in `ALL` either.
-/

set_option autoImplicit false
set_option relaxedAutoImplicit false

namespace Roster.Resolver

variable {resolver : Resolver} {definition : ListDefinition} {lists : ResolvedLists}

/-- If no explicit profile and no profile of a plan has an entry with a comma, no list that the
groupings apply to has one. -/
theorem BaseList.commaFree
    (hown : ∀ name tests, resolver.OwnList definition name tests → ∀ test ∈ tests, CommaFree test)
    {name : String} {base : List String} (hbase : resolver.BaseList definition name base) :
    ∀ test ∈ base, CommaFree test := by
  cases hbase with
  | union _ _ hmem =>
    intro test htest
    obtain ⟨constituent, _, own, hlist, hentry⟩ := (hmem test).mp htest
    exact hown constituent own hlist test hentry
  | own _ hlist => exact hown name base hlist

/-- `ALL` has what the groupings leave of the base lists of the other profiles. -/
theorem mem_members_allName_iff (hresolve : resolver.resolve definition = .ok lists)
    {all : List String} (hall : lists.members Profiles.allName = some all) {test : String} :
    test ∈ all ↔ ∃ name, name ≠ Profiles.allName ∧
      ∃ base, resolver.BaseList definition name base ∧
        test ∈ Grouping.collapseAll definition.metadata.groupings base := by
  obtain ⟨others, hothers, _, hmem⟩ := exists_members_allName hresolve
  rw [hall] at hothers
  cases hothers
  rw [hmem]
  refine exists_congr fun name ↦ and_congr_right fun hother ↦ ?_
  constructor
  · rintro ⟨tests, htests, htest⟩
    obtain ⟨base, hbase, rfl⟩ := (members_eq_some_iff hresolve hother).mp htests
    exact ⟨base, hbase, htest⟩
  · rintro ⟨base, hbase, htest⟩
    exact ⟨_, (members_eq_some_iff hresolve hother).mpr ⟨base, hbase, rfl⟩, htest⟩

/-- Let groupings be independent and have dependents, and let no test of an explicit profile or of a
plan have a comma. Where a profile other than `ALL` has the composite of a grouping, neither its
primary test nor any dependent stands alone in it. In `ALL` the primary test does not stand alone
either, and a dependent does exactly when the list of some other profile, before the groupings, has
it without the primary test. -/
theorem standalone_iff (hresolve : resolver.resolve definition = .ok lists)
    (hown : ∀ name tests, resolver.OwnList definition name tests → ∀ test ∈ tests, CommaFree test)
    (hindependent : Grouping.Independent definition.metadata.groupings)
    (hdependents : ∀ grouping ∈ definition.metadata.groupings, grouping.dependents ≠ []) :
    ∀ grouping ∈ definition.metadata.groupings,
      (∀ name, name ≠ Profiles.allName → ∀ tests, lists.members name = some tests →
        grouping.composite ∈ tests →
          grouping.primary ∉ tests ∧ ∀ dependent ∈ grouping.dependents, dependent ∉ tests) ∧
      ∃ all, lists.members Profiles.allName = some all ∧ grouping.primary ∉ all ∧
        ∀ dependent ∈ grouping.dependents,
          (dependent ∈ all ↔ ∃ name, name ≠ Profiles.allName ∧
            ∃ base, resolver.BaseList definition name base ∧ dependent ∈ base ∧
              grouping.primary ∉ base) := by
  intro grouping hgrouping
  have hprimary : grouping.primary ∈ grouping.tests := List.mem_cons_self
  have hdependent : ∀ dependent ∈ grouping.dependents, dependent ∈ grouping.tests :=
    fun _ hmem ↦ List.mem_cons_of_mem _ hmem
  have hstandalone (test : String) (htest : test ∈ grouping.tests) (base : List String) :
      test ∈ Grouping.collapseAll definition.metadata.groupings base ↔
        test ∈ base ∧ grouping.primary ∉ base :=
    Grouping.mem_collapseAll_iff_of_mem_tests hindependent hdependents hgrouping htest
  constructor
  · intro name hother tests htests hcomposite
    obtain ⟨base, hbase, rfl⟩ := (members_eq_some_iff hresolve hother).mp htests
    have hfired : grouping.primary ∈ base :=
      (Grouping.composite_mem_collapseAll_iff hindependent hdependents hgrouping
        (hbase.commaFree hown)).mp hcomposite
    have habsent : ∀ test ∈ grouping.tests,
        test ∉ Grouping.collapseAll definition.metadata.groupings base :=
      fun test htest hmem ↦ ((hstandalone test htest base).mp hmem).2 hfired
    exact ⟨habsent _ hprimary, fun dependent hmem ↦ habsent dependent (hdependent dependent hmem)⟩
  · obtain ⟨all, hall, _, _⟩ := exists_members_allName hresolve
    refine ⟨all, hall, fun hmem ↦ ?_, fun dependent hmem ↦ ?_⟩
    · obtain ⟨name, _, base, _, htest⟩ := (mem_members_allName_iff hresolve hall).mp hmem
      obtain ⟨hpresent, habsent⟩ := (hstandalone _ hprimary base).mp htest
      exact habsent hpresent
    · rw [mem_members_allName_iff hresolve hall]
      simp only [hstandalone dependent (hdependent dependent hmem)]

/-! ### A dependent without its primary test -/

/-- A place without plans. -/
def planlessResolver : Resolver :=
  { sampleResolver with plans := ⟨⟨.directory [("plans", .directory [])], []⟩, ⟨"plans"⟩⟩ }

/-- A profile with a primary test and its dependent, and one with the dependent alone. -/
def loneDependentDefinition : ListDefinition where
  explicitProfiles := Table.ofList [("p", some ["a", "b"]), ("q", some ["b"])]
  unions := ∅
  metadata := ⟨[⟨"a", ["b"]⟩], [], ∅, []⟩

/-- The outcome. -/
theorem resolve_loneDependent :
    ∃ lists, planlessResolver.resolve loneDependentDefinition = .ok lists ∧
      lists.profiles.entries = [("ALL", ["a,b", "b"]), ("p", ["a,b"]), ("q", ["b"])] := by
  have hrun : (planlessResolver.resolve loneDependentDefinition).toOption.map
      (fun lists ↦ lists.profiles.entries) =
        some [("ALL", ["a,b", "b"]), ("p", ["a,b"]), ("q", ["b"])] := by
    decide +kernel
  exact exists_eq_ok_of_toOption hrun

/-- No test of the definition has a comma, and there are no plans. -/
theorem commaFree_loneDependent :
    ∀ name tests, planlessResolver.OwnList loneDependentDefinition name tests →
      ∀ test ∈ tests, CommaFree test := by
  intro name tests hown
  cases hown with
  | explicit hwritten =>
    have hentry := Table.mem_entries_iff.mpr hwritten
    have hall : ∀ entry ∈ loneDependentDefinition.explicitProfiles.entries,
        ∀ test ∈ (entry.2.getD []).eraseDups, CommaFree test := by
      decide
    exact hall _ hentry
  | plan _ hopen =>
    obtain ⟨names, hnames, hmem, _⟩ := hopen
    have hnone : planlessResolver.plans.names = .ok [] := by
      have hlocate : planlessResolver.plans.disk.locate planlessResolver.plans.path =
          .ok (.directory []) := rfl
      simp [PlanDirectory.names, Disk.listDirectory, hlocate, sortNames]
    rw [hnone] at hnames
    cases hnames
    cases hmem

theorem independent_loneDependent :
    Grouping.Independent loneDependentDefinition.metadata.groupings where
  commaFree := by
    intro grouping hgrouping
    cases List.mem_singleton.mp hgrouping
    decide
  disjoint := List.pairwise_singleton _ _

/-- `ALL` may have a composite and beside it one of its tests: the groupings of the definition are
independent and have dependents, no name has a comma, and `ALL` has `a,b` and `b`. -/
theorem not_forall_standalone :
    ¬ ∀ (resolver : Resolver) (definition : ListDefinition) (lists : ResolvedLists),
      resolver.resolve definition = .ok lists →
      (∀ name tests, resolver.OwnList definition name tests → ∀ test ∈ tests, CommaFree test) →
      Grouping.Independent definition.metadata.groupings →
      (∀ grouping ∈ definition.metadata.groupings, grouping.dependents ≠ []) →
      ∀ grouping ∈ definition.metadata.groupings, ∀ name tests, lists.members name = some tests →
        grouping.composite ∈ tests →
          grouping.primary ∉ tests ∧ ∀ dependent ∈ grouping.dependents, dependent ∉ tests := by
  intro hclaim
  obtain ⟨lists, hresolve, hentries⟩ := resolve_loneDependent
  have hall : lists.members "ALL" = some ["a,b", "b"] := by
    rw [ResolvedLists.members, ← Table.mem_entries_iff, hentries]
    decide
  have hstandalone := hclaim planlessResolver loneDependentDefinition lists hresolve
    commaFree_loneDependent independent_loneDependent (by decide) ⟨"a", ["b"]⟩ (by decide) "ALL" _
    hall (by decide)
  exact hstandalone.2 "b" (by decide) (by decide)

/-- There the profile `p` has the composite and nothing else of the grouping, and `ALL` has the
dependent since `q` has it without the primary test. -/
theorem standalone_iff_loneDependent :
    ∃ lists, planlessResolver.resolve loneDependentDefinition = .ok lists ∧
      (∀ tests, lists.members "p" = some tests → "a,b" ∈ tests → "a" ∉ tests ∧ "b" ∉ tests) ∧
      ∃ all, lists.members "ALL" = some all ∧ "a" ∉ all ∧ "b" ∈ all := by
  obtain ⟨lists, hresolve, _⟩ := resolve_loneDependent
  obtain ⟨hprofiles, all, hall, hprimary, hdependents⟩ :=
    standalone_iff hresolve commaFree_loneDependent independent_loneDependent (by decide)
      ⟨"a", ["b"]⟩ (by decide)
  refine ⟨lists, hresolve, fun tests htests hcomposite ↦ ?_, all, hall, hprimary, ?_⟩
  · obtain ⟨habsent, hothers⟩ := hprofiles "p" (by decide) tests htests hcomposite
    exact ⟨habsent, hothers "b" (by decide)⟩
  · have hwritten : loneDependentDefinition.explicitProfiles.get? "q" = some (some ["b"]) := by
      decide
    exact (hdependents "b" (by decide)).mpr
      ⟨"q", by decide, ["b"], .own rfl (.explicit hwritten), by decide, by decide⟩

end Roster.Resolver
