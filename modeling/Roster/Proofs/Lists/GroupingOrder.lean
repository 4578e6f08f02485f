import Roster.Proofs.Lists.Repetition
import Roster.Proofs.Lists.StandaloneTests

/-!
# The order of independent groupings does not matter

Groupings apply one after the other, and each puts its composite at the end of a list, so that their
order shows in the lists. For independent groupings it does not show in what the lists hold:
`Grouping.mem_collapseAll_iff` tells the entries of a list after the groupings by membership among
them alone, and `Grouping.Independent` is a property of groupings in any order
(`Grouping.mem_collapseAll_iff_of_perm`).

Two tables of profiles that hold the same (`Profiles.SameMembers`) still do after the profile of all
tests was added (`Profiles.SameMembers.withAll`). What is given out of a profile is sorted, first by
name, and the sorted list does not show the order of the entries either
(`ResolvedLists.get_eq_of_perm`). `Resolver.resolve_withGroupings` puts this together: definitions
that differ in the order of independent groupings fail alike, and give the same lists to run.
-/

set_option autoImplicit false
set_option relaxedAutoImplicit false

namespace Roster

/-! ### Lists after groupings in another order -/

namespace Grouping

variable {groupings others : List Grouping} {list : List String} {test : String}

/-- Independent groupings are independent in any order. -/
theorem Independent.of_perm (hindependent : Independent groupings)
    (hperm : groupings.Perm others) : Independent others where
  commaFree := by
    intro grouping hgrouping
    exact hindependent.commaFree grouping (hperm.mem_iff.mpr hgrouping)
  disjoint := by
    have hsymm {first second : Grouping} (hdisjoint : first.tests.Disjoint second.tests) :
        second.tests.Disjoint first.tests :=
      fun _ hsecond hfirst ↦ hdisjoint hfirst hsecond
    exact (hperm.pairwise_iff hsymm).mp hindependent.disjoint

/-- Independent groupings leave the same entries in a list, in whatever order they apply. -/
theorem mem_collapseAll_iff_of_perm (hindependent : Independent groupings)
    (hperm : groupings.Perm others) :
    test ∈ collapseAll groupings list ↔ test ∈ collapseAll others list := by
  rw [mem_collapseAll_iff hindependent, mem_collapseAll_iff (hindependent.of_perm hperm)]
  simp only [hperm.mem_iff]

end Grouping

/-! ### Tables that hold the same -/

namespace Profiles

/-- Two tables have the same profiles, and each of them holds the same tests in both, in any order.
-/
structure SameMembers (first second : Profiles) : Prop where
  /-- The profiles have the same names. -/
  names : first.names = second.names
  /-- A test is in a profile of one table exactly when it is in that of the other one. -/
  members : ∀ name test, test ∈ first.membersOf name ↔ test ∈ second.membersOf name

variable {profiles first second : Profiles}

/-- Independent groupings make tables that hold the same, in whatever order they apply. -/
theorem sameMembers_collapse {groupings others : List Grouping}
    (hindependent : Grouping.Independent groupings) (hperm : groupings.Perm others) :
    (profiles.collapse groupings).SameMembers (profiles.collapse others) where
  names := by rw [names_collapse, names_collapse]
  members := by
    intro name test
    rw [membersOf_collapse, membersOf_collapse]
    cases profiles.get? name with
    | none => exact Iff.rfl
    | some tests => exact Grouping.mem_collapseAll_iff_of_perm hindependent hperm

theorem membersOf_withAll (name : String) :
    profiles.withAll.membersOf name =
      if name = allName then profiles.union profiles.namesBelowAll
      else profiles.membersOf name := by
  rw [membersOf, get?_withAll]
  split
  · rfl
  · rfl

/-- Tables that hold the same do so with the profile of all tests. -/
theorem SameMembers.withAll (hsame : first.SameMembers second) :
    first.withAll.SameMembers second.withAll where
  names := by rw [names_withAll, names_withAll, hsame.names]
  members := by
    intro name test
    rw [membersOf_withAll, membersOf_withAll]
    by_cases hall : name = allName
    · have hnames : first.namesBelowAll = second.namesBelowAll := by
        rw [namesBelowAll, namesBelowAll, hsame.names]
      rw [if_pos hall, if_pos hall, mem_union, mem_union, hnames]
      simp only [hsame.members]
    · rw [if_neg hall, if_neg hall]
      exact hsame.members name test

/-- A profile that both tables have is the same list up to order, if neither repeats a test. -/
theorem SameMembers.perm (hsame : first.SameMembers second) {name : String}
    {tests others : List String} (htests : first.get? name = some tests)
    (hothers : second.get? name = some others) (hdistinct : tests.Nodup)
    (hdistinct_others : others.Nodup) : tests.Perm others := by
  rw [List.perm_ext_iff_of_nodup hdistinct hdistinct_others]
  intro test
  have hmembers := hsame.members name test
  rwa [membersOf, membersOf, htests, hothers] at hmembers

end Profiles

/-! ### Lists that are given out -/

/-- Two lists of the same entries, with the same durations and bookends, are given out alike. -/
theorem ResolvedLists.get_eq_of_perm {first second : ResolvedLists}
    (hdurations : first.durations = second.durations) (hbookends : first.bookends = second.bookends)
    {profile : String} {tests others : List String} (hperm : tests.Perm others)
    (htests : first.members profile = some tests) (hothers : second.members profile = some others)
    (byDuration : Bool) : first.get profile byDuration = second.get profile byDuration := by
  have hsorted : first.withoutBookends tests = second.withoutBookends others := by
    rw [withoutBookends, withoutBookends, hbookends]
    exact sortNames_eq_of_perm (hperm.filter _)
  have horder : first.notShorter = second.notShorter := by
    funext left right
    rw [notShorter, notShorter, durationOf, durationOf, durationOf, durationOf, hdurations]
  rw [get, get, htests, hothers]
  simp only [sortByDuration, hsorted, horder]

/-! ### Resolutions with groupings in another order -/

/-- The definition with other groupings. -/
def ListDefinition.withGroupings (definition : ListDefinition) (groupings : List Grouping) :
    ListDefinition :=
  { definition with metadata := { definition.metadata with groupings := groupings } }

namespace Resolver

variable {resolver : Resolver} {definition : ListDefinition} {lists others : ResolvedLists}

/-- Where resolutions with the same durations hold the same, they give out the same. -/
theorem get_eq_of_sameMembers {reordered : ListDefinition}
    (hresolve : resolver.resolve definition = .ok lists)
    (hreordered : resolver.resolve reordered = .ok others)
    (hsame : lists.profiles.SameMembers others.profiles)
    (hdurations : lists.durations = others.durations) (hbookends : lists.bookends = others.bookends)
    (profile : String) (byDuration : Bool) :
    lists.get profile byDuration = others.get profile byDuration := by
  have hnames : profile ∈ lists.profiles.names ↔ profile ∈ others.profiles.names := by
    rw [hsame.names]
  cases htests : lists.members profile with
  | none =>
    have habsent : others.members profile = none := by
      rw [ResolvedLists.members, Table.get?_eq_none_iff, ← hnames]
      exact Table.get?_eq_none_iff.mp htests
    rw [ResolvedLists.get, ResolvedLists.get, htests, habsent]
  | some tests =>
    obtain ⟨again, hagain⟩ :=
      Table.mem_names_iff.mp (hnames.mp (Table.mem_names_iff.mpr ⟨tests, htests⟩))
    have hperm : tests.Perm again :=
      hsame.perm htests hagain (members_nodup hresolve htests) (members_nodup hreordered hagain)
    exact ResolvedLists.get_eq_of_perm hdurations hbookends hperm htests hagain byDuration

/-- Definitions that differ in the order of independent groupings fail alike in the same place. If
they do not fail, all profiles, `ALL` included, hold the same tests, and the lists that are given
out are the same, by name and by duration. -/
theorem resolve_withGroupings
    (hindependent : Grouping.Independent definition.metadata.groupings)
    {groupings : List Grouping} (hperm : definition.metadata.groupings.Perm groupings) :
    (∀ fault, resolver.resolve definition = .error fault ↔
      resolver.resolve (definition.withGroupings groupings) = .error fault) ∧
    ∀ lists, resolver.resolve definition = .ok lists →
      ∃ others, resolver.resolve (definition.withGroupings groupings) = .ok others ∧
        lists.profiles.SameMembers others.profiles ∧
        ∀ profile byDuration, lists.get profile byDuration = others.get profile byDuration := by
  constructor
  · intro fault
    rw [resolve_eq_error_iff, resolve_eq_error_iff]
    rfl
  · intro lists hresolve
    obtain ⟨based, reports, hplans, rfl⟩ := resolve_eq_ok_iff.mp hresolve
    have hsame : Profiles.SameMembers
        ((based.withUnions definition.unions).collapse definition.metadata.groupings).withAll
        ((based.withUnions definition.unions).collapse groupings).withAll :=
      (Profiles.sameMembers_collapse hindependent hperm).withAll
    have hreordered : resolver.resolve (definition.withGroupings groupings) = .ok _ :=
      resolve_eq_ok_iff.mpr ⟨based, reports, hplans, rfl⟩
    exact ⟨_, hreordered, hsame, get_eq_of_sameMembers hresolve hreordered hsame rfl rfl⟩

/-! ### Two groupings that change places -/

/-- Two groupings, of which the second one has no dependents and so moves its primary test to the
end. The profile `q` has the composite of the first one as it is written, and `x` took ten minutes.
-/
def orderedDefinition : ListDefinition where
  explicitProfiles := Table.ofList [("p", some ["e", "b", "x", "a"]), ("q", some ["a,b", "a", "e"])]
  unions := ∅
  metadata := ⟨[⟨"a", ["b"]⟩, ⟨"e", []⟩], [], Table.ofList [("x", ⟨0x4082c00000000000⟩)], []⟩

/-- The same groupings in the other order. -/
def swappedGroupings : List Grouping := [⟨"e", []⟩, ⟨"a", ["b"]⟩]

/-- The outcome in the first order. -/
theorem resolve_ordered :
    ∃ lists, planlessResolver.resolve orderedDefinition = .ok lists ∧
      lists.profiles.entries =
        [("ALL", ["a,b", "e", "x"]), ("p", ["x", "a,b", "e"]), ("q", ["a,b", "e"])] := by
  have hrun : (planlessResolver.resolve orderedDefinition).toOption.map
      (fun lists ↦ lists.profiles.entries) =
        some [("ALL", ["a,b", "e", "x"]), ("p", ["x", "a,b", "e"]), ("q", ["a,b", "e"])] := by
    decide +kernel
  exact exists_eq_ok_of_toOption hrun

/-- The outcome in the other order. -/
theorem resolve_swapped :
    ∃ lists, planlessResolver.resolve (orderedDefinition.withGroupings swappedGroupings) =
        .ok lists ∧
      lists.profiles.entries =
        [("ALL", ["a,b", "e", "x"]), ("p", ["x", "e", "a,b"]), ("q", ["e", "a,b"])] := by
  have hrun : (planlessResolver.resolve
      (orderedDefinition.withGroupings swappedGroupings)).toOption.map
        (fun lists ↦ lists.profiles.entries) =
          some [("ALL", ["a,b", "e", "x"]), ("p", ["x", "e", "a,b"]), ("q", ["e", "a,b"])] := by
    decide +kernel
  exact exists_eq_ok_of_toOption hrun

theorem independent_ordered : Grouping.Independent orderedDefinition.metadata.groupings where
  commaFree := by decide
  disjoint := by
    refine List.pairwise_pair.mpr fun test hfirst hsecond ↦ ?_
    have hname : test = "e" := List.mem_singleton.mp hsecond
    rw [hname] at hfirst
    exact absurd hfirst (by decide)

/-- The lists of `p` and `q` show the order of the groupings. What is given out of `p`, with the
longest test first, does not. -/
theorem resolve_withGroupings_swapped :
    ∃ lists others, planlessResolver.resolve orderedDefinition = .ok lists ∧
      planlessResolver.resolve (orderedDefinition.withGroupings swappedGroupings) = .ok others ∧
      lists.members "p" = some ["x", "a,b", "e"] ∧ others.members "p" = some ["x", "e", "a,b"] ∧
      lists.profiles.SameMembers others.profiles ∧
      lists.get "p" true = others.get "p" true := by
  obtain ⟨lists, hresolve, hentries⟩ := resolve_ordered
  obtain ⟨swapped, hswapped, hentries_swapped⟩ := resolve_swapped
  have hperm : orderedDefinition.metadata.groupings.Perm swappedGroupings := List.Perm.swap _ _ _
  obtain ⟨_, hlists⟩ := resolve_withGroupings independent_ordered hperm
  obtain ⟨others, hothers, hsame, hget⟩ := hlists lists hresolve
  have heq : swapped = others := by
    rw [hswapped] at hothers
    exact Except.ok.inj hothers
  rw [heq] at hentries_swapped
  refine ⟨lists, others, hresolve, hothers, ?_, ?_, hsame, hget "p" true⟩
  · rw [ResolvedLists.members, ← Table.mem_entries_iff, hentries]
    decide
  · rw [ResolvedLists.members, ← Table.mem_entries_iff, hentries_swapped]
    decide

end Resolver

end Roster
