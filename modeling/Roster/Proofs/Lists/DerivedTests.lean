import Roster.Proofs.Lists.ProfileReference
import Roster.Proofs.Source.ScrapeBases

/-!
# What the tests of a plan are named after

The sources are read below one base after the other, and the first test of a name that is met counts
(`Source.FirstBelow`). The group of a test is the last name of the base that it was met below
(`Source.GroupOf`).

The test to run for a reference is named after the directory two levels above the declaring file.
This directory is the base (`testName?_of_standsBelow`), so that the profile of a plan lists the
groups of the references of the plan (`Resolver.derivedProfiles_groupOf`), and there is always such
a name unless the root of the file system is a base.
-/

set_option autoImplicit false
set_option relaxedAutoImplicit false

namespace Roster

namespace Source

/-! ### The reference -/

/-- The first test of a name among what is read below bases, one after the other, has this location
and was read below this base. -/
inductive FirstBelow (disk : Disk) (suffixes : List String) (key : String) :
    List Path → Path → SourceLocation → Prop
  /-- The test is declared below the first base. -/
  | here {base : Path} {rest : List Path} {declarations : List Declaration}
      {location : SourceLocation} (hread : ReadBelow disk suffixes base declarations)
      (hfirst : Inventory.firstLocation key declarations = some location) :
      FirstBelow disk suffixes key (base :: rest) base location
  /-- No test below the first base has the name. -/
  | later {other base : Path} {rest : List Path} {declarations : List Declaration}
      {location : SourceLocation} (hread : ReadBelow disk suffixes other declarations)
      (habsent : Inventory.firstLocation key declarations = none)
      (hrest : FirstBelow disk suffixes key rest base location) :
      FirstBelow disk suffixes key (other :: rest) base location

/-- The group of a test of an inventory is the last name of the base below which its definition was
read: the base of the first test of this name. -/
def GroupOf (disk : Disk) (suffixes : List String) (roots : List Path) (inventory : Inventory)
    (key group : String) : Prop :=
  ∃ bases base location, scrapedBases disk roots = .ok bases ∧
    inventory.definitions.get? key = some ⟨key, location⟩ ∧
    FirstBelow disk suffixes key bases base location ∧ base.fileName = some group

/-! ### The definitions of a scrape -/

variable {disk : Disk} {suffixes : List String} {roots bases : List Path} {base : Path}
variable {key : String} {location : SourceLocation} {inventory : Inventory}

theorem FirstBelow.mem (hfirst : FirstBelow disk suffixes key bases base location) :
    base ∈ bases := by
  induction hfirst with
  | here => exact List.mem_cons_self
  | later _ _ _ ih => exact List.mem_cons_of_mem _ ih

/-- The file of the first test of a name stands below the base of the test. -/
theorem FirstBelow.standsBelow (hformed : disk.root.WellFormed)
    (hfirst : FirstBelow disk suffixes key bases base location) :
    StandsBelow base location.file := by
  induction hfirst with
  | here hread hfirst =>
    exact hread.standsBelow hformed _ (Inventory.test_mem_of_firstLocation hfirst)
  | later _ _ _ ih => exact ih

/-- The first test of a name is declared below the first base, or else below one of the others. -/
theorem exists_firstBelow_cons_iff {declarations : List Declaration}
    (hread : ReadBelow disk suffixes base declarations) :
    (∃ found, FirstBelow disk suffixes key (base :: bases) found location) ↔
      Inventory.firstLocation key declarations = some location ∨
        Inventory.firstLocation key declarations = none ∧
          ∃ found, FirstBelow disk suffixes key bases found location := by
  constructor
  · rintro ⟨found, hfound⟩
    cases hfound with
    | here hagain hfirst =>
      cases ReadBelow.unique hread hagain
      exact .inl hfirst
    | later hagain habsent hrest =>
      cases ReadBelow.unique hread hagain
      exact .inr ⟨habsent, found, hrest⟩
  · rintro (hfirst | ⟨habsent, found, hrest⟩)
    · exact ⟨base, .here hread hfirst⟩
    · exact ⟨found, .later hread habsent hrest⟩

/-- The first test of a name in what is read below bases is the first one below some base. -/
theorem firstLocation_flatten_iff {groups : List (List Declaration)}
    (hreads : List.Forall₂ (ReadBelow disk suffixes) bases groups) :
    Inventory.firstLocation key groups.flatten = some location ↔
      ∃ base, FirstBelow disk suffixes key bases base location := by
  induction hreads with
  | nil =>
    constructor
    · intro hfirst
      cases hfirst
    · rintro ⟨base, ⟨⟩⟩
  | cons hread _ ih =>
    rw [List.flatten_cons, Inventory.firstLocation_append, Option.or_eq_some_iff, ih,
      exists_firstBelow_cons_iff hread]

/-- A scrape keeps the first test of each name below the bases of the roots. -/
theorem exists_bases_of_scrape (hscrape : scrape disk suffixes roots = .ok inventory) :
    ∃ bases, scrapedBases disk roots = .ok bases ∧ ∀ key definition,
      inventory.definitions.get? key = some definition ↔
        definition.key = key ∧
          ∃ base, FirstBelow disk suffixes key bases base definition.location := by
  obtain ⟨declarations, hread, rfl⟩ := scrape_eq_ok_iff.mp hscrape
  obtain ⟨bases, groups, hbases, rfl, hreads⟩ := exists_readBelow hread
  refine ⟨bases, hbases, fun key definition ↦ ?_⟩
  rw [Inventory.get?_ofDeclarations_eq_some_iff, firstLocation_flatten_iff hreads]

end Source

/-! ### The way back from a file -/

/-- The directory two levels above a file that stands below a base is the base. -/
theorem testName?_of_standsBelow {base file : Path} (hbase : base.IsCanonical)
    (hfile : Source.StandsBelow base file) : testName? file = base.fileName := by
  obtain ⟨target, name, htarget, hname, rfl⟩ := hfile
  rw [testName?, (hbase.join htarget).parent_join hname]
  show ((base.join target).parent.bind fun above ↦ above.fileName) = base.fileName
  rw [hbase.parent_join htarget, Option.bind_some]

section Entries

variable {disk : Disk} {suffixes : List String} {roots : List Path} {inventory : Inventory}
variable {key plan test : String} {location : SourceLocation}

/-- The file that declares a test gives the last name of some base, below which it stands. -/
theorem testName?_of_firstBelow (hformed : disk.root.WellFormed) {bases : List Path}
    (hbases : Source.scrapedBases disk roots = .ok bases) {base : Path}
    (hfirst : Source.FirstBelow disk suffixes key bases base location) :
    testName? location.file = base.fileName :=
  testName?_of_standsBelow (Source.isCanonical_of_scrapedBases hformed hbases base hfirst.mem)
    (hfirst.standsBelow hformed)

/-- The group of a test is what the file gives that declares it. -/
theorem groupOf_iff (hformed : disk.root.WellFormed)
    (hscrape : Source.scrape disk suffixes roots = .ok inventory) :
    Source.GroupOf disk suffixes roots inventory key test ↔
      ∃ definition, inventory.definitions.get? key = some definition ∧
        testName? definition.declaringFile = some test := by
  obtain ⟨bases, hbases, hdefinitions⟩ := Source.exists_bases_of_scrape hscrape
  constructor
  · rintro ⟨others, base, location, hothers, hkept, hfirst, hname⟩
    cases hbases.symm.trans hothers
    refine ⟨_, hkept, ?_⟩
    rw [TestDefinition.declaringFile, testName?_of_firstBelow hformed hbases hfirst, hname]
  · rintro ⟨definition, hkept, hname⟩
    obtain ⟨rfl, base, hfirst⟩ := (hdefinitions key definition).mp hkept
    refine ⟨bases, base, definition.location, hbases, hkept, hfirst, ?_⟩
    rw [← testName?_of_firstBelow hformed hbases hfirst, ← hname, TestDefinition.declaringFile]

/-- The test to run for an entry is the group of its reference. -/
theorem testOfEntry_eq_ok_iff (hformed : disk.root.WellFormed)
    (hscrape : Source.scrape disk suffixes roots = .ok inventory) {entry : String × Testcase} :
    testOfEntry inventory plan entry = .ok test ↔
      ∃ reference, entry.2.reference = some reference ∧
        Source.GroupOf disk suffixes roots inventory reference test := by
  simp only [groupOf_iff hformed hscrape, testOfEntry, Inventory.sourceOf]
  cases entry.2.reference with
  | none => simp
  | some reference =>
    cases hkept : inventory.definitions.get? reference with
    | none => simp [hkept]
    | some definition => cases hname : testName? definition.declaringFile <;> simp [hkept, hname]

/-- Where the root of the file system is no base, a file that declares a test has a directory to
name the test after. -/
theorem testOfEntry_ne_unnamedDirectory (hformed : disk.root.WellFormed)
    (hscrape : Source.scrape disk suffixes roots = .ok inventory)
    (hbelow : ∀ bases, Source.scrapedBases disk roots = .ok bases → ∀ base ∈ bases, base ≠ "/")
    {entry : String × Testcase} {other testcase : String} {file : Path} :
    testOfEntry inventory plan entry ≠ .error (.unnamedDirectory other testcase file) := by
  obtain ⟨bases, hbases, hdefinitions⟩ := Source.exists_bases_of_scrape hscrape
  rw [testOfEntry]
  cases entry.2.reference with
  | none => simp
  | some reference =>
    cases hkept : inventory.definitions.get? reference with
    | none => simp [Inventory.sourceOf, hkept]
    | some definition =>
      obtain ⟨_, base, hfirst⟩ := (hdefinitions reference definition).mp hkept
      obtain ⟨name, hname⟩ :=
        (Source.isCanonical_of_scrapedBases hformed hbases base hfirst.mem).exists_fileName
          (hbelow bases hbases base hfirst.mem)
      rw [← testName?_of_firstBelow hformed hbases hfirst] at hname
      simp [Inventory.sourceOf, TestDefinition.declaringFile, hkept, hname]

/-- A plan is not refused because of a file without a directory to name a test after. -/
theorem deriveProfile_ne_unnamedDirectory (hformed : disk.root.WellFormed)
    (hscrape : Source.scrape disk suffixes roots = .ok inventory)
    (hbelow : ∀ bases, Source.scrapedBases disk roots = .ok bases → ∀ base ∈ bases, base ≠ "/")
    (plans : PlanDirectory) {other testcase : String} {file : Path} :
    deriveProfile plans inventory plan ≠ .error (.unnamedDirectory other testcase file) := by
  intro hfault
  rw [deriveProfile] at hfault
  cases hentries : plans.testsOf plan with
  | error fault => simp [hentries] at hfault
  | ok entries =>
    simp only [hentries, map_eq_error_iff] at hfault
    obtain ⟨entry, _, hentry⟩ := exists_of_mapM_eq_error hfault
    exact testOfEntry_ne_unnamedDirectory hformed hscrape hbelow hentry

/-- The tests of a derived profile are the groups of the references of the plan. Each entry of the
plan has a reference with a group. -/
theorem mem_deriveProfile_iff (hformed : disk.root.WellFormed)
    (hscrape : Source.scrape disk suffixes roots = .ok inventory) {plans : PlanDirectory}
    {tests : List String} (hderive : deriveProfile plans inventory plan = .ok tests) :
    ∃ entries, plans.testsOf plan = .ok entries ∧
      (∀ entry ∈ entries, ∃ reference group, entry.2.reference = some reference ∧
        Source.GroupOf disk suffixes roots inventory reference group) ∧
      ∀ test, test ∈ tests ↔ ∃ entry ∈ entries, ∃ reference, entry.2.reference = some reference ∧
        Source.GroupOf disk suffixes roots inventory reference test := by
  obtain ⟨entries, names, hentries, hnames, rfl⟩ :=
    Resolver.deriveProfile_eq_ok_iff.mp hderive
  refine ⟨entries, hentries, fun entry hentry ↦ ?_, fun test ↦ ?_⟩
  · obtain ⟨name, _, hname⟩ := exists_mem_of_mapM_eq_ok hnames hentry
    obtain ⟨reference, hreference, hgroup⟩ := (testOfEntry_eq_ok_iff hformed hscrape).mp hname
    exact ⟨reference, name, hreference, hgroup⟩
  · rw [mem_ascending, mem_of_mapM_eq_ok hnames]
    simp only [testOfEntry_eq_ok_iff hformed hscrape]

end Entries

namespace Resolver

/-- Let a resolution succeed, and let some plan need a profile. Before the unions and the groupings,
this profile lists the groups of the references of the plan, and nothing else: each entry of the plan
has a reference, which the inventory of the sources defines, and what is listed for it is the last
name of the base below which its definition was read. The base is that of some root.

Where the root of the file system is the base of no root, no plan is refused because a declaring file
has no directory to name the test after. -/
theorem derivedProfiles_groupOf {resolver : Resolver}
    (hformed : resolver.plans.disk.root.WellFormed) :
    (∀ definition lists, resolver.resolve definition = .ok lists →
      ∃ based reports,
        resolver.withPlans (explicitProfiles definition.explicitProfiles) = .ok (based, reports) ∧
        ∀ plan, resolver.IsOpenPlan plan → definition.explicitProfiles.get? plan = none →
          ∃ tests entries inventory bases, based.get? plan = some tests ∧
            resolver.plans.testsOf plan = .ok entries ∧
            Source.scrape resolver.plans.disk resolver.suffixes resolver.roots = .ok inventory ∧
            Source.scrapedBases resolver.plans.disk resolver.roots = .ok bases ∧
            (∀ test ∈ tests, ∃ base ∈ bases, base.fileName = some test) ∧
            (∀ entry ∈ entries, ∃ reference group, entry.2.reference = some reference ∧
              Source.GroupOf resolver.plans.disk resolver.suffixes resolver.roots inventory
                reference group) ∧
            ∀ test, test ∈ tests ↔
              ∃ entry ∈ entries, ∃ reference, entry.2.reference = some reference ∧
                Source.GroupOf resolver.plans.disk resolver.suffixes resolver.roots inventory
                  reference test) ∧
    ((∀ bases, Source.scrapedBases resolver.plans.disk resolver.roots = .ok bases →
        ∀ base ∈ bases, base ≠ "/") →
      ∀ inventory,
        Source.scrape resolver.plans.disk resolver.suffixes resolver.roots = .ok inventory →
        ∀ plans plan other testcase file,
          deriveProfile plans inventory plan ≠ .error (.unnamedDirectory other testcase file)) := by
  refine ⟨fun definition lists hresolve ↦ ?_, fun hbelow inventory hscrape plans plan _ _ _ ↦
    deriveProfile_ne_unnamedDirectory hformed hscrape hbelow plans⟩
  obtain ⟨based, reports, hplans, _⟩ := resolve_eq_ok_iff.mp hresolve
  refine ⟨based, reports, hplans, fun plan hopen habsent ↦ ?_⟩
  obtain ⟨tests, hown⟩ := (exists_ownList_iff hplans).mpr (.inr hopen)
  have hbased : based.get? plan = some tests := (get?_withPlans hplans).mpr hown
  cases hown with
  | explicit hwritten =>
    rw [habsent] at hwritten
    cases hwritten
  | plan _ _ hscrape hderive =>
    obtain ⟨entries, hentries, hreferences, hmem⟩ :=
      mem_deriveProfile_iff hformed hscrape hderive
    obtain ⟨bases, hbases, _⟩ := Source.exists_bases_of_scrape hscrape
    refine ⟨tests, entries, _, bases, hbased, hentries, hscrape, hbases, ?_, hreferences, hmem⟩
    intro test htest
    obtain ⟨_, _, _, _, others, base, _, hothers, _, hfirst, hname⟩ := (hmem test).mp htest
    cases hbases.symm.trans hothers
    exact ⟨base, hfirst.mem, hname⟩

theorem wellFormed_sampleTree : sampleTree.WellFormed := by
  refine .cons (by decide) (by decide) ?plans (.cons (by decide) (by decide) ?src .empty)
  case plans =>
    exact .cons (by decide) (by decide) (.file _) (.cons (by decide) (by decide) (.file _)
      (.cons (by decide) (by decide) (.file _) .empty))
  case src =>
    exact .cons (by decide) (by decide) (.cons (by decide) (by decide)
      (.cons (by decide) (by decide) (.file _) .empty) .empty) .empty

/-- In the sample the plan `nightly` needs a profile. Its one reference leads to the one base of the
sources, so that the profile has the last name of the base. -/
theorem derivedProfiles_groupOf_sample :
    Source.scrapedBases sampleResolver.plans.disk sampleResolver.roots = .ok ["/src/io"] ∧
    ∃ based reports tests inventory,
      sampleResolver.withPlans (explicitProfiles sampleDefinition.explicitProfiles) =
        .ok (based, reports) ∧
      based.get? "nightly" = some tests ∧ (∀ test, test ∈ tests ↔ test = "io") ∧
      Source.scrape sampleResolver.plans.disk sampleResolver.suffixes sampleResolver.roots =
        .ok inventory ∧
      ∀ plans plan other testcase file,
        deriveProfile plans inventory plan ≠ .error (.unnamedDirectory other testcase file) := by
  have hformed : sampleResolver.plans.disk.root.WellFormed := wellFormed_sampleTree
  have hsample : Source.scrapedBases sampleResolver.plans.disk sampleResolver.roots =
      .ok ["/src/io"] := by
    decide +kernel
  have hopen : sampleResolver.IsOpenPlan "nightly" :=
    ⟨_, names_samplePlans, by decide, by decide⟩
  have hnightly : (sampleResolver.plans.testsOf "nightly").toOption.map List.length = some 1 := by
    decide +kernel
  obtain ⟨lists, hresolve, _⟩ := resolve_sample
  obtain ⟨hderived, hnamed⟩ := derivedProfiles_groupOf hformed
  obtain ⟨based, reports, hplans, hprofile⟩ := hderived _ _ hresolve
  obtain ⟨tests, entries, inventory, bases, hbased, hentries, hscrape, hbases, hbelow, hgroups,
    hmem⟩ := hprofile "nightly" hopen (by decide)
  cases hbases.symm.trans hsample
  have honly : ∀ test ∈ tests, test = "io" := by
    intro test htest
    obtain ⟨base, hbase, hname⟩ := hbelow test htest
    cases List.mem_singleton.mp hbase
    exact Option.some.inj (hname.symm.trans (by decide))
  refine ⟨hsample, based, reports, tests, inventory, hplans, hbased, fun test ↦ ?_, hscrape, ?_⟩
  · refine ⟨honly test, ?_⟩
    rintro rfl
    rw [hentries] at hnightly
    obtain ⟨entry, rfl⟩ := List.length_eq_one_iff.mp (Option.some.inj hnightly)
    obtain ⟨reference, group, hreference, hgroup⟩ := hgroups entry List.mem_cons_self
    have hlisted : group ∈ tests :=
      (hmem group).mpr ⟨entry, List.mem_cons_self, reference, hreference, hgroup⟩
    rwa [← honly group hlisted]
  · refine hnamed (fun others hothers ↦ ?_) inventory hscrape
    cases hothers.symm.trans hsample
    exact List.forall_mem_singleton.mpr (by decide)

end Resolver

end Roster
