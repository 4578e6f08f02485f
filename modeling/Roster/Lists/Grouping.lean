/-!
# Groupings

Some tests have to run right after another one. A `Grouping` names the primary test and its
dependents. Applied to a list that has the primary test, it takes all of them out and puts one entry
at the end, the composite, which joins their names with commas (`Grouping.collapse`).

`mem_collapse` says what is in a list afterwards, and `collapse_nodup` that collapsing repeats
nothing.
-/

set_option autoImplicit false
set_option relaxedAutoImplicit false

namespace Roster

/-- A primary test with the tests that have to run right after it, in order. -/
structure Grouping where
  /-- The primary test. -/
  primary : String
  /-- The tests after it. -/
  dependents : List String
deriving DecidableEq, Inhabited

namespace Grouping

/-- What stands between the names in a composite entry. -/
def separator : String := ","

/-- The entry that stands for the tests of a grouping. -/
def composite (grouping : Grouping) : String :=
  String.intercalate separator (grouping.primary :: grouping.dependents)

/-- An entry that gives way to the composite. -/
def covers (grouping : Grouping) (test : String) : Bool :=
  test = grouping.primary || grouping.dependents.contains test || test = grouping.composite

/-- A list with the composite at its end in place of the tests of the grouping. A list without the
primary test is left alone. -/
def collapse (grouping : Grouping) (tests : List String) : List String :=
  if tests.contains grouping.primary then
    (tests.filter fun test ↦ !grouping.covers test) ++ [grouping.composite]
  else tests

/-- A list after some groupings, in their order. -/
def collapseAll (groupings : List Grouping) (tests : List String) : List String :=
  groupings.foldl (fun tests grouping ↦ grouping.collapse tests) tests

/-- The first grouping applies before the others. -/
theorem collapseAll_cons (grouping : Grouping) (groupings : List Grouping) (tests : List String) :
    collapseAll (grouping :: groupings) tests = collapseAll groupings (grouping.collapse tests) :=
  rfl

/-- Some groupings apply before those behind them. -/
theorem collapseAll_append (earlier later : List Grouping) (tests : List String) :
    collapseAll (earlier ++ later) tests = collapseAll later (collapseAll earlier tests) :=
  List.foldl_append

/-- Where the primary test is, the composite is in the list afterwards, and of the entries before
those that the grouping does not cover. -/
theorem mem_collapse {grouping : Grouping} {tests : List String} {test : String}
    (primary_mem : grouping.primary ∈ tests) :
    test ∈ grouping.collapse tests ↔
      test = grouping.composite ∨ test ∈ tests ∧ grouping.covers test = false := by
  simp [collapse, primary_mem, or_comm]

/-- A list without the primary test does not change. -/
theorem collapse_of_not_mem {grouping : Grouping} {tests : List String}
    (absent : grouping.primary ∉ tests) : grouping.collapse tests = tests := by
  simp [collapse, absent]

/-- Collapsing a list without repetitions gives one. -/
theorem collapse_nodup {grouping : Grouping} {tests : List String} (distinct : tests.Nodup) :
    (grouping.collapse tests).Nodup := by
  rw [collapse]
  split
  · refine List.nodup_append.2 ⟨distinct.filter _, by simp, ?_⟩
    intro test mem other other_mem same
    have covered : grouping.covers grouping.composite = true := by simp [covers]
    simp_all
  · exact distinct

end Grouping

end Roster
