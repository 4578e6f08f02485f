import Roster.Proofs.TableLookup
import Roster.Lists.Profiles

/-!
# Groupings lose no test and invent none

An entry of a list may stand for several tests: it names what stands between its commas
(`entryTests`), and a list names what its entries name (`listTests`). Names as they are written may
hold commas too, so that an entry that is written as one name may stand for several tests as well.

A composite names the tests of the entries that it joins, no more and no fewer
(`Grouping.entryTests_composite`). Hence one grouping keeps every test of a list
(`Grouping.mem_listTests_collapse_of_mem`) and adds at most those of its own dependents, and only
where the list has its primary test (`Grouping.mem_listTests_or_of_collapse`). By induction on the
groupings the same holds of all of them one after the other, where later ones may take up the
composites of earlier ones: `Profiles.collapse_conserves_tests`.
-/

set_option autoImplicit false
set_option relaxedAutoImplicit false

namespace Roster

/-! ### Tests of entries and lists -/

/-- The tests that an entry names: what stands between its commas. -/
def entryTests (entry : String) : List String :=
  (entry.toList.splitOn ',').map String.ofList

/-- The tests that the entries of a list name. -/
def listTests (entries : List String) : List String :=
  entries.flatMap entryTests

theorem mem_listTests {entries : List String} {test : String} :
    test ∈ listTests entries ↔ ∃ entry ∈ entries, test ∈ entryTests entry :=
  List.mem_flatMap

/-- Two entries joined by a comma name the tests of both. -/
theorem entryTests_append (first second : String) :
    entryTests (first ++ "," ++ second) = entryTests first ++ entryTests second := by
  have htext : (first ++ "," ++ second).toList = first.toList ++ ',' :: second.toList := by
    simp
  rw [entryTests, htext, List.splitOn_append_cons_self, List.map_append]
  rfl

/-- Entries joined by commas name the tests of all of them, in their order. -/
theorem entryTests_intercalate (first : String) (rest : List String) :
    entryTests (String.intercalate "," (first :: rest)) = listTests (first :: rest) := by
  induction rest generalizing first with
  | nil => simp [listTests]
  | cons next rest ih =>
    rw [String.intercalate_cons_cons, entryTests_append, ih]
    rfl

namespace Grouping

/-- A composite names the tests of the primary test and of the dependents. -/
theorem entryTests_composite (grouping : Grouping) :
    entryTests grouping.composite =
      entryTests grouping.primary ++ listTests grouping.dependents :=
  entryTests_intercalate grouping.primary grouping.dependents

/-- An entry that a grouping covers names tests of its composite only. -/
theorem mem_entryTests_composite_of_covers {grouping : Grouping} {entry test : String}
    (hcovers : grouping.covers entry = true) (htest : test ∈ entryTests entry) :
    test ∈ entryTests grouping.composite := by
  simp only [covers, Bool.or_eq_true, decide_eq_true_eq, List.contains_iff_mem] at hcovers
  rcases hcovers with (hprimary | hdependent) | hcomposite
  · rw [entryTests_composite, ← hprimary]
    exact List.mem_append_left _ htest
  · rw [entryTests_composite]
    exact List.mem_append_right _ (mem_listTests.mpr ⟨entry, hdependent, htest⟩)
  · rwa [← hcomposite]

/-! ### One grouping -/

/-- A grouping keeps every test of a list. -/
theorem mem_listTests_collapse_of_mem (grouping : Grouping) {tests : List String} {test : String}
    (htest : test ∈ listTests tests) : test ∈ listTests (grouping.collapse tests) := by
  by_cases hprimary : grouping.primary ∈ tests
  · obtain ⟨entry, hentry, hnamed⟩ := mem_listTests.mp htest
    rw [mem_listTests]
    by_cases hcovers : grouping.covers entry = true
    · exact ⟨grouping.composite, (mem_collapse hprimary).mpr (.inl rfl),
        mem_entryTests_composite_of_covers hcovers hnamed⟩
    · exact ⟨entry, (mem_collapse hprimary).mpr (.inr ⟨hentry, by simpa using hcovers⟩), hnamed⟩
  · rwa [collapse_of_not_mem hprimary]

/-- What a grouping adds to the tests of a list are tests of its dependents, and the list has its
primary test. -/
theorem mem_listTests_or_of_collapse {grouping : Grouping} {tests : List String} {test : String}
    (htest : test ∈ listTests (grouping.collapse tests)) :
    test ∈ listTests tests ∨
      grouping.primary ∈ tests ∧
        ∃ dependent ∈ grouping.dependents, test ∈ entryTests dependent := by
  by_cases hprimary : grouping.primary ∈ tests
  · obtain ⟨entry, hentry, hnamed⟩ := mem_listTests.mp htest
    rcases (mem_collapse hprimary).mp hentry with rfl | ⟨hold, _⟩
    · rw [entryTests_composite, List.mem_append] at hnamed
      rcases hnamed with hnamed | hnamed
      · exact .inl (mem_listTests.mpr ⟨grouping.primary, hprimary, hnamed⟩)
      · exact .inr ⟨hprimary, mem_listTests.mp hnamed⟩
    · exact .inl (mem_listTests.mpr ⟨entry, hold, hnamed⟩)
  · rw [collapse_of_not_mem hprimary] at htest
    exact .inl htest

/-! ### Groupings one after the other -/

/-- Groupings keep every test of a list. -/
theorem mem_listTests_collapseAll_of_mem (groupings : List Grouping) {tests : List String}
    {test : String} (htest : test ∈ listTests tests) :
    test ∈ listTests (collapseAll groupings tests) := by
  induction groupings generalizing tests with
  | nil => exact htest
  | cons grouping rest ih => exact ih (grouping.mem_listTests_collapse_of_mem htest)

/-- What groupings add to the tests of a list are tests of the dependents of one of them whose
primary test the list has after the groupings before it. -/
theorem mem_listTests_or_of_collapseAll {groupings : List Grouping} {tests : List String}
    {test : String} (htest : test ∈ listTests (collapseAll groupings tests)) :
    test ∈ listTests tests ∨
      ∃ earlier grouping later, groupings = earlier ++ grouping :: later ∧
        grouping.primary ∈ collapseAll earlier tests ∧
        ∃ dependent ∈ grouping.dependents, test ∈ entryTests dependent := by
  induction groupings generalizing tests with
  | nil => exact .inl htest
  | cons grouping rest ih =>
    rcases ih htest with hstep | ⟨earlier, next, later, rfl, hprimary, hdependent⟩
    · rcases mem_listTests_or_of_collapse hstep with hold | ⟨hprimary, hdependent⟩
      · exact .inl hold
      · exact .inr ⟨[], grouping, rest, rfl, hprimary, hdependent⟩
    · exact .inr ⟨grouping :: earlier, next, later, rfl, hprimary, hdependent⟩

end Grouping

namespace Profiles

/-- Groupings keep every test of every profile. What they add are tests of the dependents of a
grouping whose primary test is an entry of the profile when its turn comes. -/
theorem collapse_conserves_tests {profiles : Profiles} {name : String} {before : List String}
    (hbefore : profiles.get? name = some before) (groupings : List Grouping) :
    ∃ after, (profiles.collapse groupings).get? name = some after ∧
      (∀ test ∈ listTests before, test ∈ listTests after) ∧
      ∀ test ∈ listTests after, test ∈ listTests before ∨
        ∃ earlier grouping later current, groupings = earlier ++ grouping :: later ∧
          (profiles.collapse earlier).get? name = some current ∧ grouping.primary ∈ current ∧
          ∃ dependent ∈ grouping.dependents, test ∈ entryTests dependent := by
  have hcollapse (applied : List Grouping) :
      (profiles.collapse applied).get? name =
        some (Grouping.collapseAll applied before) := by
    rw [get?_collapse, hbefore, Option.map_some]
  refine ⟨_, hcollapse groupings, fun test htest ↦ ?_, fun test htest ↦ ?_⟩
  · exact Grouping.mem_listTests_collapseAll_of_mem groupings htest
  · rcases Grouping.mem_listTests_or_of_collapseAll htest with hold | hadded
    · exact .inl hold
    · obtain ⟨earlier, grouping, later, hsplit, hprimary, hdependent⟩ := hadded
      exact .inr ⟨earlier, grouping, later, _, hsplit, hcollapse earlier, hprimary, hdependent⟩

/-- A list of three tests and two groupings, of which the second one takes up the composite of the
first and has a dependent with a comma. The list keeps its tests, and `d` is from that dependent. -/
theorem collapse_conserves_tests_chain :
    let profiles : Profiles := Table.ofList [("p", ["b", "x", "a"])]
    let groupings : List Grouping := [⟨"a", ["b"]⟩, ⟨"a,b", ["c,d"]⟩]
    ∃ after, (profiles.collapse groupings).get? "p" = some after ∧
      (∀ test ∈ listTests ["b", "x", "a"], test ∈ listTests after) ∧
      ∃ earlier grouping later current, groupings = earlier ++ grouping :: later ∧
        (profiles.collapse earlier).get? "p" = some current ∧ grouping.primary ∈ current ∧
        ∃ dependent ∈ grouping.dependents, "d" ∈ entryTests dependent := by
  intro profiles groupings
  have hbefore : profiles.get? "p" = some ["b", "x", "a"] := by decide
  have hresult : (profiles.collapse groupings).get? "p" = some ["x", "a,b,c,d"] := by decide
  obtain ⟨after, hafter, hkept, hadded⟩ := collapse_conserves_tests hbefore groupings
  have hafter_eq : after = ["x", "a,b,c,d"] := by
    rw [hafter] at hresult
    exact Option.some.inj hresult
  refine ⟨after, hafter, hkept, (hadded "d" ?_).resolve_left (by decide)⟩
  rw [hafter_eq]
  decide

end Profiles

end Roster
