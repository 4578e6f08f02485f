import Roster.Proofs.Lists.StandaloneTests

/-!
# A union runs what its constituents run

A union is made before the groupings, and what runs is decided after them. As lists, a union after
the groupings is not the union of its constituents after the groupings: a dependent that stands
alone in one constituent may be behind a composite in the union, where the primary test comes from
another one. The tests that the lists name are the same.

This needs primary tests without commas that belong to no other grouping
(`Grouping.PrimariesApart`). Then no grouping puts in or takes out the primary test of another one,
and the tests of a list after the groupings are those of the list before, and those of the
dependents of the groupings whose primary test the list has
(`Grouping.mem_listTests_collapseAll_iff`). Both parts go over to unions of lists
(`Grouping.mem_listTests_collapseAll_of_union`). `Resolver.listTests_union` says it of the profiles
of a resolution.
-/

set_option autoImplicit false
set_option relaxedAutoImplicit false

namespace Roster

/-! ### Tests of a list after groupings -/

namespace Grouping

variable {grouping other : Grouping} {groupings : List Grouping} {list : List String}
variable {test : String}

/-- Primary tests have no commas, and none of them is the primary test or a dependent of another
grouping. A grouping may be written twice. -/
structure PrimariesApart (groupings : List Grouping) : Prop where
  /-- The primary tests have no commas. -/
  commaFree : ∀ grouping ∈ groupings, CommaFree grouping.primary
  /-- A primary test belongs to its grouping only. -/
  apart : ∀ grouping ∈ groupings, ∀ other ∈ groupings, other ≠ grouping →
    grouping.primary ∉ other.tests

/-- A grouping adds the tests of its dependents where the list has its primary test, and takes none
away. -/
theorem mem_listTests_collapse_iff :
    test ∈ listTests (grouping.collapse list) ↔
      test ∈ listTests list ∨ grouping.primary ∈ list ∧ test ∈ listTests grouping.dependents := by
  constructor
  · intro htest
    have horigin := mem_listTests_or_of_collapse htest
    rwa [← mem_listTests] at horigin
  · rintro (htest | ⟨hprimary, htest⟩)
    · exact grouping.mem_listTests_collapse_of_mem htest
    · have hcomposite : grouping.composite ∈ grouping.collapse list :=
        (mem_collapse hprimary).mpr (.inl rfl)
      have hnamed : test ∈ entryTests grouping.composite := by
        rw [entryTests_composite]
        exact List.mem_append_right _ htest
      exact mem_listTests.mpr ⟨grouping.composite, hcomposite, hnamed⟩

theorem PrimariesApart.tail (hprimaries : PrimariesApart (grouping :: groupings)) :
    PrimariesApart groupings where
  commaFree := fun first hfirst ↦ hprimaries.commaFree first (List.mem_cons_of_mem _ hfirst)
  apart := fun first hfirst second hsecond ↦
    hprimaries.apart first (List.mem_cons_of_mem _ hfirst) second (List.mem_cons_of_mem _ hsecond)

/-- The first grouping leaves the primary tests of the others where they are. -/
theorem PrimariesApart.primary_mem_collapse_iff
    (hprimaries : PrimariesApart (grouping :: groupings)) (hother : other ∈ groupings)
    (hne : other ≠ grouping) : other.primary ∈ grouping.collapse list ↔ other.primary ∈ list := by
  have hmem : other ∈ grouping :: groupings := List.mem_cons_of_mem _ hother
  have habsent : other.primary ∉ grouping.tests :=
    hprimaries.apart other hmem grouping List.mem_cons_self hne.symm
  rw [mem_collapse_iff_of_commaFree (hprimaries.commaFree other hmem)]
  exact and_iff_left fun htaken ↦ habsent htaken.2.2

/-- The tests of a list after groupings are those of the list before, and those of the dependents of
the groupings whose primary test the list has before any of them applies. -/
theorem mem_listTests_collapseAll_iff (hprimaries : PrimariesApart groupings) :
    test ∈ listTests (collapseAll groupings list) ↔
      test ∈ listTests list ∨
        ∃ grouping ∈ groupings, grouping.primary ∈ list ∧
          test ∈ listTests grouping.dependents := by
  induction groupings generalizing list with
  | nil => simp [collapseAll]
  | cons first rest ih =>
    rw [collapseAll_cons, ih hprimaries.tail, mem_listTests_collapse_iff]
    constructor
    · rintro ((htest | ⟨hprimary, htest⟩) | ⟨other, hother, hprimary, htest⟩)
      · exact .inl htest
      · exact .inr ⟨first, List.mem_cons_self, hprimary, htest⟩
      · have hcommaFree : CommaFree other.primary := hprimaries.tail.commaFree other hother
        have hbefore : other.primary ∈ list :=
          ((mem_collapse_iff_of_commaFree hcommaFree).mp hprimary).1
        exact .inr ⟨other, List.mem_cons_of_mem _ hother, hbefore, htest⟩
    · rintro (htest | ⟨other, hother, hprimary, htest⟩)
      · exact .inl (.inl htest)
      · by_cases hsame : other = first
        · rw [hsame] at hprimary htest
          exact .inl (.inr ⟨hprimary, htest⟩)
        · have hrest : other ∈ rest := List.mem_of_ne_of_mem hsame hother
          have hkept : other.primary ∈ first.collapse list :=
            (hprimaries.primary_mem_collapse_iff hrest hsame).mpr hprimary
          exact .inr ⟨other, hrest, hkept, htest⟩

/-- If a list has the entries of some parts, then after groupings it names the tests that the parts
name after the groupings. -/
theorem mem_listTests_collapseAll_of_union (hprimaries : PrimariesApart groupings)
    {parts : List String → Prop} {whole : List String}
    (hwhole : ∀ entry, entry ∈ whole ↔ ∃ part, parts part ∧ entry ∈ part) :
    test ∈ listTests (collapseAll groupings whole) ↔
      ∃ part, parts part ∧ test ∈ listTests (collapseAll groupings part) := by
  simp only [mem_listTests_collapseAll_iff hprimaries, mem_listTests, hwhole]
  constructor
  · rintro (⟨entry, ⟨part, hpart, hentry⟩, htest⟩ |
      ⟨grouping, hgrouping, ⟨part, hpart, hprimary⟩, htest⟩)
    · exact ⟨part, hpart, .inl ⟨entry, hentry, htest⟩⟩
    · exact ⟨part, hpart, .inr ⟨grouping, hgrouping, hprimary, htest⟩⟩
  · rintro ⟨part, hpart, ⟨entry, hentry, htest⟩ | ⟨grouping, hgrouping, hprimary, htest⟩⟩
    · exact .inl ⟨entry, ⟨part, hpart, hentry⟩, htest⟩
    · exact .inr ⟨grouping, hgrouping, ⟨part, hpart, hprimary⟩, htest⟩

end Grouping

/-! ### Unions in a resolution -/

namespace Resolver

variable {resolver : Resolver} {definition : ListDefinition} {lists : ResolvedLists}

/-- A profile that is no union lists what the groupings make of its own list. -/
theorem members_eq_some_iff_ownList (hresolve : resolver.resolve definition = .ok lists)
    {name : String} (hunion : name ∉ definition.unions.names) (hother : name ≠ Profiles.allName)
    {tests : List String} :
    lists.members name = some tests ↔ ∃ own, resolver.OwnList definition name own ∧
      tests = Grouping.collapseAll definition.metadata.groupings own := by
  have habsent : definition.unions.get? name = none := Table.get?_eq_none_iff.mpr hunion
  rw [members_eq_some_iff hresolve hother]
  refine exists_congr fun base ↦ and_congr_left fun _ ↦ ⟨fun hbase ↦ ?_, .own habsent⟩
  cases hbase with
  | union hsome =>
    rw [habsent] at hsome
    cases hsome
  | own _ hown => exact hown

/-- A union other than `ALL` has a list in a resolution: what the groupings make of a list whose
entries are those of the own lists of its constituents. -/
theorem exists_members_of_union (hresolve : resolver.resolve definition = .ok lists)
    {name : String} {constituents : List String}
    (hunion : definition.unions.get? name = some constituents) (hother : name ≠ Profiles.allName) :
    ∃ base, lists.members name =
        some (Grouping.collapseAll definition.metadata.groupings base) ∧
      ∀ test, test ∈ base ↔ ∃ own,
        (∃ constituent ∈ constituents, resolver.OwnList definition constituent own) ∧
          test ∈ own := by
  have hname : name ∈ lists.names := by
    rw [mem_names_of_resolve hresolve]
    exact .inr (.inr (.inl (Table.mem_names_iff.mpr ⟨constituents, hunion⟩)))
  obtain ⟨tests, htests⟩ := Table.mem_names_iff.mp hname
  obtain ⟨base, hbase, rfl⟩ := (members_eq_some_iff hresolve hother).mp htests
  refine ⟨base, htests, fun test ↦ ?_⟩
  cases hbase with
  | own habsent =>
    rw [hunion] at habsent
    cases habsent
  | union hsome _ hmem =>
    rw [hunion] at hsome
    cases hsome
    rw [hmem]
    constructor
    · rintro ⟨constituent, hconstituent, own, hown, htest⟩
      exact ⟨own, ⟨constituent, hconstituent, hown⟩, htest⟩
    · rintro ⟨own, ⟨constituent, hconstituent, hown⟩, htest⟩
      exact ⟨constituent, hconstituent, own, hown, htest⟩

/-- Let primary tests have no commas and belong to no other grouping. A union other than `ALL`,
among whose constituents there are neither unions nor `ALL`, is a profile of the resolution, and it
names the tests that those of its constituents name that are profiles too. -/
theorem listTests_union (hresolve : resolver.resolve definition = .ok lists)
    (hprimaries : Grouping.PrimariesApart definition.metadata.groupings)
    {name : String} {constituents : List String}
    (hunion : definition.unions.get? name = some constituents) (hother : name ≠ Profiles.allName)
    (hconstituents : ∀ constituent ∈ constituents,
      constituent ∉ definition.unions.names ∧ constituent ≠ Profiles.allName) :
    ∃ tests, lists.members name = some tests ∧
      ∀ test, test ∈ listTests tests ↔ ∃ constituent ∈ constituents, ∃ entries,
        lists.members constituent = some entries ∧ test ∈ listTests entries := by
  obtain ⟨base, htests, hmem⟩ := exists_members_of_union hresolve hunion hother
  refine ⟨_, htests, fun test ↦ ?_⟩
  rw [Grouping.mem_listTests_collapseAll_of_union hprimaries hmem]
  constructor
  · rintro ⟨own, ⟨constituent, hconstituent, hown⟩, htest⟩
    obtain ⟨hplain, hname⟩ := hconstituents constituent hconstituent
    have hentries := (members_eq_some_iff_ownList hresolve hplain hname).mpr ⟨own, hown, rfl⟩
    exact ⟨constituent, hconstituent, _, hentries, htest⟩
  · rintro ⟨constituent, hconstituent, entries, hentries, htest⟩
    obtain ⟨hplain, hname⟩ := hconstituents constituent hconstituent
    obtain ⟨own, hown, rfl⟩ := (members_eq_some_iff_ownList hresolve hplain hname).mp hentries
    exact ⟨own, ⟨constituent, hconstituent, hown⟩, htest⟩

/-! ### A primary test and its dependent from two constituents -/

/-- A union of two profiles and a name that is none. The first profile has the primary test of a
grouping and the second one its dependent; the other grouping adds tests to the second one. -/
def scatteredDefinition : ListDefinition where
  explicitProfiles := Table.ofList [("p", some ["a"]), ("q", some ["b", "c"])]
  unions := Table.ofList [("m", ["p", "q", "missing"])]
  metadata := ⟨[⟨"a", ["b"]⟩, ⟨"c", ["d,e"]⟩], [], ∅, []⟩

/-- The outcome. -/
theorem resolve_scattered :
    ∃ lists, planlessResolver.resolve scatteredDefinition = .ok lists ∧
      lists.profiles.entries =
        [("ALL", ["a,b", "b", "c,d,e"]), ("m", ["a,b", "c,d,e"]), ("p", ["a,b"]),
          ("q", ["b", "c,d,e"])] := by
  have hrun : (planlessResolver.resolve scatteredDefinition).toOption.map
      (fun lists ↦ lists.profiles.entries) =
        some [("ALL", ["a,b", "b", "c,d,e"]), ("m", ["a,b", "c,d,e"]), ("p", ["a,b"]),
          ("q", ["b", "c,d,e"])] := by
    decide +kernel
  exact exists_eq_ok_of_toOption hrun

/-- The union `m` has `b` behind the composite `a,b` only, while `q` has it as an entry. Its tests
are those of `p` and `q`. -/
theorem listTests_union_scattered :
    ∃ lists, planlessResolver.resolve scatteredDefinition = .ok lists ∧
      lists.members "m" = some ["a,b", "c,d,e"] ∧ lists.members "q" = some ["b", "c,d,e"] ∧
      ∀ test, test ∈ listTests ["a,b", "c,d,e"] ↔ ∃ constituent ∈ ["p", "q", "missing"],
        ∃ entries, lists.members constituent = some entries ∧ test ∈ listTests entries := by
  obtain ⟨lists, hresolve, hentries⟩ := resolve_scattered
  have hfound (name : String) (tests : List String) :
      lists.members name = some tests ↔ (name, tests) ∈ lists.profiles.entries :=
    Table.mem_entries_iff.symm
  have hmembers : lists.members "m" = some ["a,b", "c,d,e"] := by simp [hfound, hentries]
  have hunion : scatteredDefinition.unions.get? "m" = some ["p", "q", "missing"] := by decide
  obtain ⟨tests, htests, hmem⟩ :=
    listTests_union hresolve ⟨by decide, by decide⟩ hunion (by decide) (by decide)
  rw [hmembers] at htests
  refine ⟨lists, hresolve, hmembers, by simp [hfound, hentries], ?_⟩
  rw [Option.some.inj htests]
  exact hmem

end Resolver

end Roster
