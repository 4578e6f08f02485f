import Roster.Proofs.Lists.ProfileReference

/-!
# No test twice

No list of a resolution repeats an entry, whatever a definition says: explicit lists may repeat
tests, groupings may have no dependents, repeat them or name the primary test among them, and a
composite may be the name of a test or the composite of another grouping.

Each source of a profile starts without repetitions (`Resolver.OwnList.nodup`,
`Resolver.BaseList.nodup`), and each grouping keeps it so, since it takes its composite out before
it puts it at the end (`Grouping.collapseAll_nodup`). `Resolver.resolve_nodup` is the outcome for
every profile and for the exclusions.
-/

set_option autoImplicit false
set_option relaxedAutoImplicit false

namespace Roster

/-- Groupings one after the other repeat nothing. -/
theorem Grouping.collapseAll_nodup (groupings : List Grouping) {tests : List String}
    (hdistinct : tests.Nodup) : (collapseAll groupings tests).Nodup := by
  induction groupings generalizing tests with
  | nil => exact hdistinct
  | cons grouping rest ih => exact ih (collapse_nodup hdistinct)

namespace Resolver

variable {resolver : Resolver} {definition : ListDefinition} {lists : ResolvedLists}

/-- Neither explicit profiles nor those of plans repeat a test. -/
theorem OwnList.nodup {name : String} {tests : List String}
    (hown : resolver.OwnList definition name tests) : tests.Nodup := by
  cases hown with
  | explicit => exact nodup_eraseDups _
  | plan _ _ _ hderive =>
    obtain ⟨_, names, _, _, rfl⟩ := deriveProfile_eq_ok_iff.mp hderive
    exact (ascending_ascending names).nodup

/-- Unions do not repeat a test either. -/
theorem BaseList.nodup {name : String} {tests : List String}
    (hbase : resolver.BaseList definition name tests) : tests.Nodup := by
  cases hbase with
  | union _ hascending => exact hascending.nodup
  | own _ hown => exact hown.nodup

/-- No profile of a resolution repeats an entry. -/
theorem members_nodup (hresolve : resolver.resolve definition = .ok lists) {name : String}
    {tests : List String} (hmembers : lists.members name = some tests) : tests.Nodup := by
  by_cases hall : name = Profiles.allName
  · obtain ⟨all, hfound, hascending, _⟩ := exists_members_allName hresolve
    rw [hall, hfound] at hmembers
    cases hmembers
    exact hascending.nodup
  · obtain ⟨base, hbase, rfl⟩ := (members_eq_some_iff hresolve hall).mp hmembers
    exact Grouping.collapseAll_nodup _ hbase.nodup

/-- No profile of a resolution repeats an entry, the one of all tests included, nor does the
expanded list of exclusions. -/
theorem resolve_nodup (hresolve : resolver.resolve definition = .ok lists) :
    (∀ name tests, lists.members name = some tests → tests.Nodup) ∧ lists.excluded.Nodup := by
  refine ⟨fun name tests hmembers ↦ members_nodup hresolve hmembers, ?_⟩
  obtain ⟨based, reports, _, rfl⟩ := resolve_eq_ok_iff.mp hresolve
  exact nodup_withoutRepeats _

/-- In the sample, where explicit lists repeat tests and an exclusion names a composite that another
one expands to, `m` and the exclusions are free of repetitions. -/
theorem resolve_nodup_sample :
    ∃ lists, sampleResolver.resolve sampleDefinition = .ok lists ∧
      lists.members "m" = some ["install", "stale", "a,b,io"] ∧
      ["install", "stale", "a,b,io"].Nodup ∧ lists.excluded.Nodup := by
  obtain ⟨lists, hresolve, hentries, _⟩ := resolve_sample
  have hmembers : lists.members "m" = some ["install", "stale", "a,b,io"] := by
    rw [ResolvedLists.members, ← Table.mem_entries_iff, hentries]
    decide
  obtain ⟨hprofiles, hexcluded⟩ := resolve_nodup hresolve
  exact ⟨lists, hresolve, hmembers, hprofiles "m" _ hmembers, hexcluded⟩

end Resolver

end Roster
