import Mathlib.Data.List.Pairwise
import Roster.Proofs.Lists.GroupingCoverage

/-!
# Groupings that have nothing to do with each other

One grouping leaves a name without a comma where it is, unless it takes it up into its composite
(`Grouping.TakesUp`, `Grouping.mem_collapse_iff_of_commaFree`).

Groupings are independent (`Grouping.Independent`) when none of their tests has a comma in its name
and no test belongs to two of them. Then a name without a comma is covered by a grouping only if it
is one of its tests (`Grouping.covers_iff_of_commaFree`), the composite of one grouping is nothing
that another one covers (`Grouping.not_covers_composite`), and whether a grouping finds its primary
test does not depend on the groupings before it (`Grouping.Independent.primary_mem_collapse_iff`).

`Grouping.mem_collapseAll_iff` is what follows: a list holds, after independent groupings in any
order, the composites of the groupings whose primary test it had, and those of its entries that none
of them covers.
-/

set_option autoImplicit false
set_option relaxedAutoImplicit false

namespace Roster

/-! ### Names without commas -/

/-- A name without a comma. -/
def CommaFree (name : String) : Prop :=
  ',' ∉ name.toList

instance (name : String) : Decidable (CommaFree name) :=
  inferInstanceAs (Decidable (',' ∉ name.toList))

/-- A name without a comma names one test, itself. -/
theorem entryTests_of_commaFree {name : String} (hname : CommaFree name) :
    entryTests name = [name] := by
  rw [entryTests, List.splitOn_eq_singleton hname]
  simp

theorem listTests_of_commaFree {names : List String} (hnames : ∀ name ∈ names, CommaFree name) :
    listTests names = names := by
  induction names with
  | nil => rfl
  | cons first rest ih =>
    have hfirst := entryTests_of_commaFree (hnames first List.mem_cons_self)
    have hrest := ih fun name hname ↦ hnames name (List.mem_cons_of_mem _ hname)
    calc listTests (first :: rest) = entryTests first ++ listTests rest := rfl
      _ = first :: rest := by rw [hfirst, hrest, List.singleton_append]

namespace Grouping

/-- The tests of a grouping: the primary one and the dependents. -/
def tests (grouping : Grouping) : List String :=
  grouping.primary :: grouping.dependents

/-- No test of a grouping has a comma in its name. -/
def IsCommaFree (grouping : Grouping) : Prop :=
  ∀ test ∈ grouping.tests, CommaFree test

instance (grouping : Grouping) : Decidable grouping.IsCommaFree :=
  inferInstanceAs (Decidable (∀ test ∈ grouping.tests, CommaFree test))

/-- Groupings without commas, no two of which share a test. -/
structure Independent (groupings : List Grouping) : Prop where
  /-- Their tests have no commas. -/
  commaFree : ∀ grouping ∈ groupings, grouping.IsCommaFree
  /-- A test belongs to one of them. -/
  disjoint : groupings.Pairwise fun first second ↦ first.tests.Disjoint second.tests

variable {grouping other : Grouping} {groupings : List Grouping} {test : String}

/-! ### Composites -/

/-- The tests that a composite names are those of its grouping. -/
theorem entryTests_composite_of_commaFree (hgrouping : grouping.IsCommaFree) :
    entryTests grouping.composite = grouping.tests := by
  have hlist : entryTests grouping.composite = listTests grouping.tests :=
    entryTests_composite grouping
  rw [hlist, listTests_of_commaFree hgrouping]

/-- Groupings with the same composite have the same tests. -/
theorem tests_eq_of_composite_eq (hgrouping : grouping.IsCommaFree) (hother : other.IsCommaFree)
    (hsame : grouping.composite = other.composite) : grouping.tests = other.tests := by
  rw [← entryTests_composite_of_commaFree hgrouping, hsame,
    entryTests_composite_of_commaFree hother]

/-- A composite without a comma is the primary test, and there are no dependents. -/
theorem tests_eq_of_commaFree_composite (hgrouping : grouping.IsCommaFree)
    (hcomposite : CommaFree grouping.composite) : grouping.tests = [grouping.composite] := by
  rw [← entryTests_composite_of_commaFree hgrouping, entryTests_of_commaFree hcomposite]

/-- Where there are dependents, the composite has a comma. -/
theorem not_commaFree_composite (hdependents : grouping.dependents ≠ []) :
    ¬ CommaFree grouping.composite := by
  obtain ⟨first, rest, hsplit⟩ := List.exists_cons_of_ne_nil hdependents
  rw [CommaFree, not_not, composite, hsplit, String.intercalate_cons_cons]
  simp [separator]

/-- A grouping covers its tests and its composite. -/
theorem covers_iff : grouping.covers test = true ↔
    test ∈ grouping.tests ∨ test = grouping.composite := by
  simp [covers, tests]

/-- Among the names without commas, a grouping covers its tests only. -/
theorem covers_iff_of_commaFree (hgrouping : grouping.IsCommaFree) (htest : CommaFree test) :
    grouping.covers test = true ↔ test ∈ grouping.tests := by
  rw [covers_iff]
  refine or_iff_left_of_imp ?_
  rintro rfl
  rw [tests_eq_of_commaFree_composite hgrouping htest]
  exact List.mem_singleton_self _

/-- A grouping does not cover the composite of one that it shares no test with. -/
theorem not_covers_composite (hgrouping : grouping.IsCommaFree) (hother : other.IsCommaFree)
    (hdisjoint : grouping.tests.Disjoint other.tests) :
    other.covers grouping.composite = false := by
  rw [← Bool.not_eq_true, covers_iff]
  rintro (hmem | hsame)
  · have htests := tests_eq_of_commaFree_composite hgrouping (hother _ hmem)
    exact hdisjoint (htests ▸ List.mem_singleton_self _) hmem
  · have htests := tests_eq_of_composite_eq hgrouping hother hsame
    exact hdisjoint (htests ▸ List.mem_cons_self) List.mem_cons_self

/-! ### One grouping and a name without a comma -/

/-- A grouping takes a test up into its composite: the list has the primary test, the grouping has
dependents, and the test is the primary one or a dependent. -/
def TakesUp (grouping : Grouping) (list : List String) (test : String) : Prop :=
  grouping.primary ∈ list ∧ grouping.dependents ≠ [] ∧ test ∈ grouping.tests

/-- A grouping leaves a name without a comma where it is, unless it takes it up. -/
theorem mem_collapse_iff_of_commaFree (htest : CommaFree test) {list : List String} :
    test ∈ grouping.collapse list ↔ test ∈ list ∧ ¬ grouping.TakesUp list test := by
  by_cases hprimary : grouping.primary ∈ list
  · rw [mem_collapse hprimary, ← Bool.not_eq_true, covers_iff]
    by_cases hdependents : grouping.dependents = []
    · -- The composite is the primary test, so that the list does not change.
      have hcomposite : grouping.composite = grouping.primary := by simp [composite, hdependents]
      by_cases hsame : test = grouping.primary <;>
        simp [hsame, hcomposite, hdependents, hprimary, tests, TakesUp]
    · have hname : test ≠ grouping.composite := by
        rintro rfl
        exact not_commaFree_composite hdependents htest
      simp [hname, hdependents, hprimary, TakesUp]
  · rw [collapse_of_not_mem hprimary]
    exact (and_iff_left fun htaken ↦ hprimary htaken.1).symm

/-! ### Independent groupings one after the other -/

theorem Independent.tail (hindependent : Independent (grouping :: groupings)) :
    Independent groupings :=
  ⟨fun other hother ↦ hindependent.commaFree other (List.mem_cons_of_mem _ hother),
    (List.pairwise_cons.mp hindependent.disjoint).2⟩

/-- The first of independent groupings leaves the primary tests of the others where they are. -/
theorem Independent.primary_mem_collapse_iff (hindependent : Independent (grouping :: groupings))
    (hother : other ∈ groupings) {list : List String} :
    other.primary ∈ grouping.collapse list ↔ other.primary ∈ list := by
  have hprimary : CommaFree other.primary :=
    hindependent.tail.commaFree other hother _ List.mem_cons_self
  have hdisjoint : grouping.tests.Disjoint other.tests :=
    (List.pairwise_cons.mp hindependent.disjoint).1 other hother
  rw [mem_collapse_iff_of_commaFree hprimary]
  exact and_iff_left fun htaken ↦ hdisjoint htaken.2.2 List.mem_cons_self

/-- None of the others covers the composite of the first one. -/
theorem Independent.not_covers_head (hindependent : Independent (grouping :: groupings))
    (hother : other ∈ groupings) : other.covers grouping.composite = false :=
  not_covers_composite (hindependent.commaFree grouping List.mem_cons_self)
    (hindependent.tail.commaFree other hother)
    ((List.pairwise_cons.mp hindependent.disjoint).1 other hother)

/-- After independent groupings a list has the composites of those whose primary test it had, and of
its entries those that none of these groupings covers. The groupings do not see each other, so the
induction compares the primary tests of the later ones with the list before and after the first. -/
theorem mem_collapseAll_iff (hindependent : Independent groupings) {list : List String} :
    test ∈ collapseAll groupings list ↔
      (test ∈ list ∧
        ∀ grouping ∈ groupings, grouping.primary ∈ list → grouping.covers test = false) ∨
      ∃ grouping ∈ groupings, grouping.primary ∈ list ∧ test = grouping.composite := by
  induction groupings generalizing list with
  | nil => simp [collapseAll]
  | cons first rest ih =>
    have hprimaries : ∀ other ∈ rest,
        (other.primary ∈ first.collapse list ↔ other.primary ∈ list) :=
      fun other hother ↦ hindependent.primary_mem_collapse_iff hother
    rw [collapseAll_cons, ih hindependent.tail]
    by_cases hprimary : first.primary ∈ list
    · constructor
      · rintro (⟨hmem, hothers⟩ | ⟨other, hother, hpresent, rfl⟩)
        · rcases (mem_collapse hprimary).mp hmem with rfl | ⟨hold, huncovered⟩
          · exact .inr ⟨first, List.mem_cons_self, hprimary, rfl⟩
          · refine .inl ⟨hold, fun other hother hpresent ↦ ?_⟩
            rcases List.mem_cons.mp hother with rfl | hother
            · exact huncovered
            · exact hothers other hother ((hprimaries other hother).mpr hpresent)
        · exact .inr ⟨other, List.mem_cons_of_mem _ hother,
            (hprimaries other hother).mp hpresent, rfl⟩
      · rintro (⟨hold, huncovered⟩ | ⟨other, hother, hpresent, rfl⟩)
        · have hfirst := huncovered first List.mem_cons_self hprimary
          refine .inl ⟨(mem_collapse hprimary).mpr (.inr ⟨hold, hfirst⟩), ?_⟩
          intro other hother hpresent
          exact huncovered other (List.mem_cons_of_mem _ hother)
            ((hprimaries other hother).mp hpresent)
        · rcases List.mem_cons.mp hother with rfl | hother
          · exact .inl ⟨(mem_collapse hprimary).mpr (.inl rfl),
              fun later hlater _ ↦ hindependent.not_covers_head hlater⟩
          · exact .inr ⟨other, hother, (hprimaries other hother).mpr hpresent, rfl⟩
    · rw [collapse_of_not_mem hprimary]
      simp [hprimary]

/-- A test belongs to one of independent groupings only. -/
theorem Independent.eq_of_mem_tests (hindependent : Independent groupings)
    (hgrouping : grouping ∈ groupings) (hother : other ∈ groupings)
    (htest : test ∈ grouping.tests) (htest_other : test ∈ other.tests) : grouping = other := by
  by_contra hne
  have hsymm : Std.Symm fun first second : Grouping ↦ first.tests.Disjoint second.tests :=
    ⟨fun _ _ hdisjoint _ hsecond hfirst ↦ hdisjoint hfirst hsecond⟩
  exact hindependent.disjoint.forall hgrouping hother hne htest htest_other

/-- Where all groupings have dependents, a test of one of them is an entry of its own afterwards
exactly when it was one before and the list did not have the primary test. -/
theorem mem_collapseAll_iff_of_mem_tests (hindependent : Independent groupings)
    (hdependents : ∀ grouping ∈ groupings, grouping.dependents ≠ [])
    (hgrouping : grouping ∈ groupings) (htest : test ∈ grouping.tests) {list : List String} :
    test ∈ collapseAll groupings list ↔ test ∈ list ∧ grouping.primary ∉ list := by
  have hcommaFree : CommaFree test := hindependent.commaFree grouping hgrouping test htest
  rw [mem_collapseAll_iff hindependent]
  constructor
  · rintro (⟨hmem, huncovered⟩ | ⟨other, hother, _, rfl⟩)
    · refine ⟨hmem, fun hprimary ↦ ?_⟩
      have hcovers := covers_iff.mpr (.inl htest)
      rw [huncovered grouping hgrouping hprimary] at hcovers
      cases hcovers
    · exact absurd hcommaFree (not_commaFree_composite (hdependents other hother))
  · rintro ⟨hmem, habsent⟩
    refine .inl ⟨hmem, fun other hother hprimary ↦ ?_⟩
    rw [← Bool.not_eq_true,
      covers_iff_of_commaFree (hindependent.commaFree other hother) hcommaFree]
    intro htest_other
    rw [hindependent.eq_of_mem_tests hgrouping hother htest htest_other] at habsent
    exact habsent hprimary

/-- Where all groupings have dependents and no entry has a comma, a composite is in the list
afterwards exactly when the primary test was in it before. -/
theorem composite_mem_collapseAll_iff (hindependent : Independent groupings)
    (hdependents : ∀ grouping ∈ groupings, grouping.dependents ≠ [])
    (hgrouping : grouping ∈ groupings) {list : List String}
    (hlist : ∀ entry ∈ list, CommaFree entry) :
    grouping.composite ∈ collapseAll groupings list ↔ grouping.primary ∈ list := by
  have hcommaFree : grouping.IsCommaFree := hindependent.commaFree grouping hgrouping
  rw [mem_collapseAll_iff hindependent]
  constructor
  · rintro (⟨hmem, _⟩ | ⟨other, hother, hprimary, hsame⟩)
    · exact absurd (hlist _ hmem) (not_commaFree_composite (hdependents _ hgrouping))
    · have htests := tests_eq_of_composite_eq hcommaFree (hindependent.commaFree other hother) hsame
      rw [(List.cons.inj htests).1]
      exact hprimary
  · exact fun hprimary ↦ .inr ⟨grouping, hgrouping, hprimary, rfl⟩

end Grouping

end Roster
