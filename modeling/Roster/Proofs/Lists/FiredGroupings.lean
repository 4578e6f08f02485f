import Mathlib.Data.List.Induction
import Roster.Proofs.Lists.IndependentGroupings

/-!
# What groupings leave of a list, told without running them

A grouping that is applied after others fires when the list that they leave has its primary test.
For groupings with dependents, none of whose tests has a comma in its name, this can be told from
the list as it was at first: `Grouping.fired` are the groupings whose primary test is in that list
and is not a test of an earlier grouping that fired.

The groupings may share tests, and a test may be the primary one of several. What makes the
description hold is that a composite has a comma and a primary test has none, so that no grouping
fires on what another one put there, and that a grouping which fires covers no composite of an
earlier one (`Grouping.not_covers_composite_of_not_mem`). `Grouping.collapseAll_eq_fired` is the
description: the entries that no fired grouping covers stay in their order, and the composites of
the fired ones stand behind them.
-/

set_option autoImplicit false
set_option relaxedAutoImplicit false

namespace Roster.Grouping

variable {grouping other : Grouping} {groupings : List Grouping} {tests : List String}
  {test : String}

/-- The groupings that fire on a list, in their order: those whose primary test is in the list and
is not a test of an earlier one that fires. -/
def fired (tests : List String) (groupings : List Grouping) : List Grouping :=
  groupings.foldl (fun earlier grouping ↦
    if grouping.primary ∈ tests ∧ ∀ other ∈ earlier, grouping.primary ∉ other.tests then
      earlier ++ [grouping]
    else earlier) []

theorem fired_concat (tests : List String) (groupings : List Grouping) (grouping : Grouping) :
    fired tests (groupings ++ [grouping]) =
      if grouping.primary ∈ tests ∧ ∀ other ∈ fired tests groupings,
          grouping.primary ∉ other.tests then
        fired tests groupings ++ [grouping]
      else fired tests groupings := by
  rw [fired, List.foldl_append]
  rfl

theorem collapseAll_concat (groupings : List Grouping) (grouping : Grouping)
    (tests : List String) :
    collapseAll (groupings ++ [grouping]) tests = grouping.collapse (collapseAll groupings tests) :=
  collapseAll_append groupings [grouping] tests

/-- Only groupings that are applied fire. -/
theorem mem_of_mem_fired (hfired : grouping ∈ fired tests groupings) : grouping ∈ groupings := by
  induction groupings using List.reverseRecOn with
  | nil => cases hfired
  | append_singleton earlier last ih =>
    rw [fired_concat] at hfired
    split at hfired
    · rcases List.mem_append.mp hfired with hearlier | hlast
      · exact List.mem_append_left _ (ih hearlier)
      · exact List.mem_append_right _ hlast
    · exact List.mem_append_left _ (ih hfired)

/-- An entry that some of the given groupings takes out of a list: one of its tests or its
composite. -/
def isCovered (groupings : List Grouping) (test : String) : Bool :=
  groupings.any fun grouping ↦ grouping.covers test

theorem isCovered_concat (groupings : List Grouping) (grouping : Grouping) (test : String) :
    isCovered (groupings ++ [grouping]) test =
      (isCovered groupings test || grouping.covers test) := by
  simp [isCovered]

/-- What groupings that fired leave of a list: the entries that none of them covers, and behind
them the composites. -/
def leftBy (groupings : List Grouping) (tests : List String) : List String :=
  (tests.filter fun test ↦ !isCovered groupings test) ++ groupings.map composite

/-- A name without a comma is left exactly when it was there and is no test of the groupings. -/
theorem mem_leftBy_iff (hcommaFree : ∀ grouping ∈ groupings, grouping.IsCommaFree)
    (hdependents : ∀ grouping ∈ groupings, grouping.dependents ≠ []) (htest : CommaFree test) :
    test ∈ leftBy groupings tests ↔
      test ∈ tests ∧ ∀ grouping ∈ groupings, test ∉ grouping.tests := by
  have hcovered : isCovered groupings test = false ↔
      ∀ grouping ∈ groupings, test ∉ grouping.tests := by
    simp only [isCovered, List.any_eq_false]
    exact forall₂_congr fun grouping hgrouping ↦
      not_congr (covers_iff_of_commaFree (hcommaFree grouping hgrouping) htest)
  have hcomposite : test ∉ groupings.map composite := by
    intro hmem
    obtain ⟨grouping, hgrouping, rfl⟩ := List.mem_map.mp hmem
    exact not_commaFree_composite (hdependents grouping hgrouping) htest
  rw [leftBy, List.mem_append, or_iff_left hcomposite, List.mem_filter, Bool.not_eq_true',
    hcovered]

/-- A grouping whose primary test is not a test of another one does not cover the composite of that
one. -/
theorem not_covers_composite_of_not_mem (hgrouping : grouping.IsCommaFree)
    (hother : other.IsCommaFree) (hdependents : other.dependents ≠ [])
    (hprimary : grouping.primary ∉ other.tests) : grouping.covers other.composite = false := by
  rw [← Bool.not_eq_true, covers_iff]
  rintro (hmem | hsame)
  · exact not_commaFree_composite hdependents (hgrouping _ hmem)
  · rw [tests_eq_of_composite_eq hother hgrouping hsame] at hprimary
    exact hprimary List.mem_cons_self

/-- One more grouping that fires on what others left. -/
theorem collapse_leftBy (hgrouping : grouping.IsCommaFree)
    (hcommaFree : ∀ other ∈ groupings, other.IsCommaFree)
    (hdependents : ∀ other ∈ groupings, other.dependents ≠ [])
    (hprimary : grouping.primary ∈ tests ∧ ∀ other ∈ groupings, grouping.primary ∉ other.tests) :
    grouping.collapse (leftBy groupings tests) = leftBy (groupings ++ [grouping]) tests := by
  have hfires : grouping.primary ∈ leftBy groupings tests :=
    (mem_leftBy_iff hcommaFree hdependents (hgrouping _ List.mem_cons_self)).mpr hprimary
  have hcomposites : (groupings.map composite).filter (fun test ↦ !grouping.covers test) =
      groupings.map composite := by
    refine List.filter_eq_self.mpr fun test htest ↦ ?_
    obtain ⟨other, hother, rfl⟩ := List.mem_map.mp htest
    rw [not_covers_composite_of_not_mem hgrouping (hcommaFree other hother)
      (hdependents other hother) (hprimary.2 other hother)]
    rfl
  rw [collapse, List.contains_iff_mem.mpr hfires, if_pos rfl, leftBy, List.filter_append,
    hcomposites, List.filter_filter, leftBy, List.map_append, List.append_assoc]
  congr 2
  funext test
  rw [isCovered_concat, Bool.not_or, Bool.and_comm]

/-- Groupings leave what the ones among them leave that fire. -/
theorem collapseAll_eq_leftBy (tests : List String)
    (hcommaFree : ∀ grouping ∈ groupings, grouping.IsCommaFree)
    (hdependents : ∀ grouping ∈ groupings, grouping.dependents ≠ []) :
    collapseAll groupings tests = leftBy (fired tests groupings) tests := by
  induction groupings using List.reverseRecOn with
  | nil =>
    have hall : tests.filter (fun test ↦ !isCovered [] test) = tests :=
      List.filter_eq_self.mpr fun _ _ ↦ rfl
    rw [fired, List.foldl_nil, leftBy, hall]
    exact (List.append_nil tests).symm
  | append_singleton earlier last ih =>
    simp only [List.forall_mem_append, List.forall_mem_singleton] at hcommaFree hdependents
    have hfiredFree : ∀ other ∈ fired tests earlier, other.IsCommaFree :=
      fun other hother ↦ hcommaFree.1 other (mem_of_mem_fired hother)
    have hfiredDependents : ∀ other ∈ fired tests earlier, other.dependents ≠ [] :=
      fun other hother ↦ hdependents.1 other (mem_of_mem_fired hother)
    rw [collapseAll_concat, ih hcommaFree.1 hdependents.1, fired_concat]
    split
    · next hfires => exact collapse_leftBy hcommaFree.2 hfiredFree hfiredDependents hfires
    · next hidle =>
      refine collapse_of_not_mem fun hmem ↦ hidle ?_
      have hprimary : CommaFree last.primary := hcommaFree.2 _ List.mem_cons_self
      exact (mem_leftBy_iff hfiredFree hfiredDependents hprimary).mp hmem

/-- Let groupings have dependents, and let none of their tests have a comma in its name. Then one of
them fires on the list that the earlier ones leave exactly when its primary test is in the list as
it was at first and is not a test of an earlier one that fired. In the end, the entries that are
neither a test nor the composite of a grouping that fired stand in their first order, and behind
them the composites of the groupings that fired, in the order of these. -/
theorem collapseAll_eq_fired (tests : List String)
    (hcommaFree : ∀ grouping ∈ groupings, grouping.IsCommaFree)
    (hdependents : ∀ grouping ∈ groupings, grouping.dependents ≠ []) :
    (∀ earlier grouping later, groupings = earlier ++ grouping :: later →
      (grouping.primary ∈ collapseAll earlier tests ↔
        grouping.primary ∈ tests ∧
          ∀ other ∈ fired tests earlier, grouping.primary ∉ other.tests)) ∧
    collapseAll groupings tests =
      (tests.filter fun test ↦ ∀ grouping ∈ fired tests groupings,
        test ∉ grouping.tests ∧ test ≠ grouping.composite) ++
      (fired tests groupings).map composite := by
  constructor
  · rintro earlier grouping later rfl
    simp only [List.forall_mem_append, List.forall_mem_cons] at hcommaFree hdependents
    rw [collapseAll_eq_leftBy tests hcommaFree.1 hdependents.1]
    exact mem_leftBy_iff (fun other hother ↦ hcommaFree.1 other (mem_of_mem_fired hother))
      (fun other hother ↦ hdependents.1 other (mem_of_mem_fired hother))
      (hcommaFree.2.1 _ List.mem_cons_self)
  · rw [collapseAll_eq_leftBy tests hcommaFree hdependents, leftBy]
    congr 2
    funext test
    rw [Bool.eq_iff_iff]
    simp [isCovered, ← Bool.not_eq_true, covers_iff]

/-! ### Groupings that share tests -/

/-- The test `b` is a dependent of the first grouping and the primary test of the second one, `c`
is a dependent of the second one and the primary test of the third one, and the last grouping has
the primary test of the first one. -/
def sharingGroupings : List Grouping :=
  [⟨"a", ["b"]⟩, ⟨"b", ["c"]⟩, ⟨"c", ["d", "e"]⟩, ⟨"a", ["e"]⟩]

/-- The first grouping takes up `b`, so that the second one does not fire and leaves `c` to the
third one. The composite of the first one that stood in the list gives way to the new one. -/
theorem collapseAll_eq_fired_sharing :
    (∀ grouping ∈ sharingGroupings, grouping.IsCommaFree) ∧
    (∀ grouping ∈ sharingGroupings, grouping.dependents ≠ []) ∧
    fired ["x", "e", "a,b", "a", "y", "b", "c", "x"] sharingGroupings =
      [⟨"a", ["b"]⟩, ⟨"c", ["d", "e"]⟩] ∧
    ("b" ∉ collapseAll [⟨"a", ["b"]⟩] ["x", "e", "a,b", "a", "y", "b", "c", "x"]) ∧
    collapseAll sharingGroupings ["x", "e", "a,b", "a", "y", "b", "c", "x"] =
      ["x", "y", "x", "a,b", "c,d,e"] := by
  have hcommaFree : ∀ grouping ∈ sharingGroupings, grouping.IsCommaFree := by decide
  have hdependents : ∀ grouping ∈ sharingGroupings, grouping.dependents ≠ [] := by decide
  obtain ⟨hfires, hlist⟩ := collapseAll_eq_fired ["x", "e", "a,b", "a", "y", "b", "c", "x"]
    hcommaFree hdependents
  refine ⟨hcommaFree, hdependents, by decide, ?_, hlist.trans (by decide)⟩
  rw [hfires [⟨"a", ["b"]⟩] ⟨"b", ["c"]⟩ [⟨"c", ["d", "e"]⟩, ⟨"a", ["e"]⟩] rfl]
  decide

end Roster.Grouping
