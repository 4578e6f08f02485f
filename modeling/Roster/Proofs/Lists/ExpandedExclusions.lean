import Roster.Proofs.Lists.StandaloneTests

/-!
# What a list of exclusions stands for

A list of exclusions names tests and profiles, and each profile stands for its members. The members
are those that the resolution ends with, for every profile but `ALL`
(`Resolver.excluded_eq_eraseDups`). The exclusions are expanded before the profile of all tests is
made, and no other profile changes after that (`Profiles.expandEntry_withAll`).

An `ALL` among the exclusions means what had this name until then (`Resolver.ExcludedAll`), and
where nothing had, it stays as it is written (`Resolver.not_forall_excluded`).
-/

set_option autoImplicit false
set_option relaxedAutoImplicit false

namespace Roster

/-- Making the profile of all tests changes what no other entry stands for. -/
theorem Profiles.expandEntry_withAll (profiles : Profiles) {entry : String}
    (hother : entry ≠ allName) :
    profiles.withAll.expandEntry entry = profiles.expandEntry entry := by
  rw [expandEntry, expandEntry, get?_withAll, if_neg hother]

/-- After groupings the name of a profile stands for what they make of its list. -/
theorem Profiles.expandEntry_collapse (profiles : Profiles) (groupings : List Grouping)
    (entry : String) :
    (profiles.collapse groupings).expandEntry entry =
      ((profiles.get? entry).map (Grouping.collapseAll groupings)).getD [entry] := by
  rw [expandEntry, get?_collapse]

namespace Resolver

variable {resolver : Resolver} {definition : ListDefinition} {lists : ResolvedLists}

/-- What an entry `ALL` among the exclusions stands for: what the groupings make of the base list of
this name, and the entry itself if there is none. The list that unites the other profiles under this
name is not a base list. -/
inductive ExcludedAll (resolver : Resolver) (definition : ListDefinition) : List String → Prop
  /-- An explicit profile, a plan or a union has the name. -/
  | replaced {base tests : List String}
      (hbase : resolver.BaseList definition Profiles.allName base)
      (happlied : Grouping.Applied definition.metadata.groupings base tests) :
      ExcludedAll resolver definition tests
  /-- Nothing but the profile of all tests has the name. -/
  | literal (habsent : ∀ base, ¬ resolver.BaseList definition Profiles.allName base) :
      ExcludedAll resolver definition [Profiles.allName]

/-- Before the profile of all tests is made, `ALL` stands for what the reference says. -/
theorem excludedAll_expandEntry {based : Profiles} {reports : List Diagnostic}
    (hplans : resolver.withPlans (explicitProfiles definition.explicitProfiles) =
      .ok (based, reports)) :
    resolver.ExcludedAll definition
      (((based.withUnions definition.unions).collapse definition.metadata.groupings).expandEntry
        Profiles.allName) := by
  rw [Profiles.expandEntry_collapse]
  cases hbased : (based.withUnions definition.unions).get? Profiles.allName with
  | none =>
    refine .literal fun base hbase ↦ ?_
    rw [(get?_withUnions_iff hplans).mpr hbase] at hbased
    cases hbased
  | some base =>
    exact .replaced ((get?_withUnions_iff hplans).mp hbased) (Grouping.applied_iff.mpr rfl)

/-- The exclusions of a resolution are the entries that are written, each identifier at its first
occurrence only, where the name of a profile gives way to the members that this profile has in the
end. Only `ALL` stands for what had this name before the other profiles were united under it. -/
theorem excluded_eq_eraseDups (hresolve : resolver.resolve definition = .ok lists) :
    ∃ ofAll, resolver.ExcludedAll definition ofAll ∧
      lists.excluded = (definition.metadata.excluded.flatMap fun entry ↦
        if entry = Profiles.allName then ofAll
        else (lists.members entry).getD [entry]).eraseDups := by
  obtain ⟨based, reports, hplans, rfl⟩ := resolve_eq_ok_iff.mp hresolve
  refine ⟨_, excludedAll_expandEntry hplans, ?_⟩
  rw [Profiles.expand, withoutRepeats_eq_eraseDups]
  refine congrArg List.eraseDups (List.flatMap_congr fun entry _ ↦ ?_)
  by_cases hall : entry = Profiles.allName
  · rw [if_pos hall, hall]
  · rw [if_neg hall]
    exact (Profiles.expandEntry_withAll _ hall).symm

/-! ### The name of all tests among the exclusions -/

/-- One profile, and the name of all tests among the exclusions. -/
def excludeAllDefinition : ListDefinition where
  explicitProfiles := Table.ofList [("p", some ["a"])]
  unions := ∅
  metadata := ⟨[], ["p", "ALL"], ∅, []⟩

/-- The outcome. -/
theorem resolve_excludeAll :
    ∃ lists, planlessResolver.resolve excludeAllDefinition = .ok lists ∧
      lists.profiles.entries = [("ALL", ["a"]), ("p", ["a"])] ∧ lists.excluded = ["a", "ALL"] := by
  have hrun : (planlessResolver.resolve excludeAllDefinition).toOption.map
      (fun lists ↦ (lists.profiles.entries, lists.excluded)) =
        some ([("ALL", ["a"]), ("p", ["a"])], ["a", "ALL"]) := by
    decide +kernel
  obtain ⟨lists, hresolve, hshown⟩ := exists_eq_ok_of_toOption hrun
  exact ⟨lists, hresolve, (Prod.mk.inj hshown).1, (Prod.mk.inj hshown).2⟩

/-- The profile of all tests does not always stand for its members: among the exclusions of the
definition its name stays beside that of the test that it has. -/
theorem not_forall_excluded :
    ¬ ∀ (resolver : Resolver) (definition : ListDefinition) (lists : ResolvedLists),
      resolver.resolve definition = .ok lists →
      lists.excluded = (definition.metadata.excluded.flatMap fun entry ↦
        (lists.members entry).getD [entry]).eraseDups := by
  intro hclaim
  obtain ⟨lists, hresolve, hentries, hexcluded⟩ := resolve_excludeAll
  have hmembers (name : String) (hname : name = "ALL" ∨ name = "p") :
      lists.members name = some ["a"] := by
    rw [ResolvedLists.members, ← Table.mem_entries_iff, hentries]
    rcases hname with rfl | rfl <;> decide
  have hsame := hclaim planlessResolver excludeAllDefinition lists hresolve
  have hwritten : excludeAllDefinition.metadata.excluded = ["p", "ALL"] := rfl
  rw [hexcluded, hwritten, List.flatMap_cons, List.flatMap_cons, List.flatMap_nil,
    hmembers "p" (.inr rfl), hmembers "ALL" (.inl rfl)] at hsame
  exact absurd hsame (by decide)

/-- In the sample `smoke` stands for its members in the end, `io` and the composite for themselves,
and `ALL` for what the groupings make of the union of this name, which is less than the profile of
all tests has. -/
theorem excluded_eq_eraseDups_sample :
    ∃ lists, sampleResolver.resolve sampleDefinition = .ok lists ∧
      ∃ ofAll, sampleResolver.ExcludedAll sampleDefinition ofAll ∧ ofAll ≠ ["ALL"] ∧
        lists.members "ALL" ≠ some ofAll ∧ lists.excluded = ["a,b,io", "io"] ∧
        lists.excluded = (["a,b,io", "io", "a,b,io"] ++ ofAll).eraseDups := by
  obtain ⟨lists, hresolve, hentries, hexcluded⟩ := resolve_sample
  have hfound (name : String) (tests : List String) :
      lists.members name = some tests ↔ (name, tests) ∈ lists.profiles.entries :=
    Table.mem_entries_iff.symm
  have hliteral (name : String) (habsent : name ∉ lists.profiles.entries.map Prod.fst) :
      lists.members name = none :=
    Table.get?_eq_none_iff.mpr habsent
  obtain ⟨ofAll, hofAll, hsame⟩ := excluded_eq_eraseDups hresolve
  have hsmoke : lists.members "smoke" = some ["a,b,io"] := by simp [hfound, hentries]
  have hio : lists.members "io" = none := hliteral "io" (by rw [hentries]; decide)
  have hcomposite : lists.members "a,b,io" = none :=
    hliteral "a,b,io" (by rw [hentries]; decide)
  have hwritten : sampleDefinition.metadata.excluded = ["smoke", "io", "a,b,io", "ALL"] := rfl
  simp only [hwritten, Profiles.allName, List.flatMap_cons, List.flatMap_nil, hsmoke, hio,
    hcomposite] at hsame
  have hunited : lists.excluded = (["a,b,io", "io", "a,b,io"] ++ ofAll).eraseDups := by
    simpa using hsame
  have hmem (test : String) (htest : test ∈ ofAll) : test = "a,b,io" ∨ test = "io" := by
    have hkept : test ∈ (["a,b,io", "io", "a,b,io"] ++ ofAll).eraseDups :=
      List.mem_eraseDups.mpr (List.mem_append_right _ htest)
    rw [← hunited, hexcluded] at hkept
    simpa using hkept
  refine ⟨lists, hresolve, ofAll, hofAll, ?_, ?_, hexcluded, hunited⟩
  · rintro rfl
    exact absurd (hmem "ALL" (by decide)) (by decide)
  · intro hall
    have hentry := (hfound "ALL" ofAll).mp hall
    rw [hentries] at hentry
    have hinstalled : ofAll = ["a,b,io", "install", "io", "stale"] := by simpa using hentry
    exact absurd (hmem "stale" (by rw [hinstalled]; decide)) (by decide)

end Resolver

end Roster
