import Mathlib.Data.List.Duplicate
import Mathlib.Data.List.Pairwise
import Roster.Proofs.Source.ScrapeBases
import Roster.Settings.Basic

/-!
# Declarations that are read twice

Roots may share a base: the same root listed twice, a star together with one of the directories that
it stands for, a root together with its directory of tests. The base is then read once for each of
them, and so is each declaration below it (`Source.count_declarations`).

A declaration that is read twice is reported as a duplicate of itself, and this is the only way in
which a report names one line of one file twice (`Source.duplicate_of_itself_iff`). Where the bases
are different, each report is about two declarations. The settings may list roots that share a base,
and then there may be a report about one declaration (`Source.not_forall_duplicate_apart`).
-/

set_option autoImplicit false
set_option relaxedAutoImplicit false

namespace Roster.Source

variable {disk : Disk} {suffixes : List String} {base : Path} {bases roots : List Path}
variable {groups : List (List Declaration)} {declarations : List Declaration}

/-! ### What is read below the bases -/

/-- A declaration below a base is read as often as the base is listed. -/
theorem count_declarations (hformed : disk.root.WellFormed)
    (hreads : List.Forall₂ (ReadBelow disk suffixes) bases groups)
    (hread : ReadBelow disk suffixes base declarations) {declaration : Declaration}
    (hmem : declaration ∈ declarations) : groups.flatten.count declaration = bases.count base := by
  have hnodup : declarations.Nodup := (hread.apart hformed).imp Declaration.Apart.ne
  induction hreads with
  | nil => rfl
  | @cons other group bases groups hother _ ih =>
    rw [List.flatten_cons, List.count_append, ih]
    by_cases hsame : other = base
    · subst hsame
      cases ReadBelow.unique hother hread
      rw [List.count_cons_self, List.count_eq_one_of_mem hnodup hmem, Nat.add_comm]
    · have habsent : declaration ∉ group := fun hagain ↦
        hsame (ReadBelow.base_unique hformed hother hread hagain hmem rfl)
      rw [List.count_cons_of_ne hsame, List.count_eq_zero_of_not_mem habsent, Nat.zero_add]

/-- A declaration is read twice when its file stands below a base that is listed twice. -/
theorem duplicate_declaration_iff (hformed : disk.root.WellFormed)
    (hcanonical : ∀ base ∈ bases, base.IsCanonical)
    (hreads : List.Forall₂ (ReadBelow disk suffixes) bases groups) {declaration : Declaration}
    (hmem : declaration ∈ groups.flatten) :
    List.Duplicate declaration groups.flatten ↔
      ∃ base, List.Duplicate base bases ∧ StandsBelow base declaration.location.file := by
  obtain ⟨base, _, group, hgroup, hinside⟩ := exists_readBelow_of_mem hreads hmem
  have hbelow : StandsBelow base declaration.location.file := hgroup.standsBelow hformed _ hinside
  have htwice : List.Duplicate declaration groups.flatten ↔ List.Duplicate base bases := by
    rw [List.duplicate_iff_two_le_count, List.duplicate_iff_two_le_count,
      count_declarations hformed hreads hgroup hinside]
  rw [htwice]
  constructor
  · intro hbase
    exact ⟨base, hbase, hbelow⟩
  · rintro ⟨other, hother, hbelow'⟩
    rwa [hbelow.unique (hgroup.isCanonical hformed) (hcanonical other hother.mem) hbelow']

/-- Two declarations on one line of one file are the same, below whichever bases they are read. -/
theorem eq_of_sameLine (hformed : disk.root.WellFormed)
    (hreads : List.Forall₂ (ReadBelow disk suffixes) bases groups) {first again : Declaration}
    (hfirst : first ∈ groups.flatten) (hagain : again ∈ groups.flatten)
    (hfile : first.location.file = again.location.file)
    (hline : first.location.line = again.location.line) : first = again := by
  obtain ⟨base, _, group, hread, hmem⟩ := exists_readBelow_of_mem hreads hfirst
  obtain ⟨other, _, rest, hother, hmem'⟩ := exists_readBelow_of_mem hreads hagain
  have hsame : base = other := ReadBelow.base_unique hformed hread hother hmem hmem' hfile
  subst hsame
  cases ReadBelow.unique hother hread
  by_contra hne
  have hapart : first.Apart again := (hread.apart hformed).forall hmem hmem' hne
  exact hapart.elim (· hfile) (· hline)

/-! ### Reports about one declaration -/

/-- A scrape reports a declaration as a duplicate of itself when it is the first one of its name and
its file stands below a base that two roots share. No other report names one line of one file twice,
and there is none of this kind where the bases are different. -/
theorem duplicate_of_itself_iff (hformed : disk.root.WellFormed) {inventory : Inventory}
    (hscrape : scrape disk suffixes roots = .ok inventory) :
    ∃ bases, scrapedBases disk roots = .ok bases ∧
      (bases.Nodup → ∀ key first again, .duplicate key first again ∈ inventory.diagnostics →
        first.file ≠ again.file ∨ first.line ≠ again.line) ∧
      ∀ key first again,
        (.duplicate key first again ∈ inventory.diagnostics ∧
            first.file = again.file ∧ first.line = again.line) ↔
          (again = first ∧ inventory.definitions.get? key = some ⟨key, first⟩ ∧
            ∃ base, List.Duplicate base bases ∧ StandsBelow base first.file) := by
  obtain ⟨declarations, hread, rfl⟩ := scrape_eq_ok_iff.mp hscrape
  obtain ⟨bases, groups, hbases, rfl, hreads⟩ := exists_readBelow hread
  have hcanonical := isCanonical_of_scrapedBases hformed hbases
  have htwice : ∀ key first again,
      (.duplicate key first again ∈ (Inventory.ofDeclarations groups.flatten).diagnostics ∧
          first.file = again.file ∧ first.line = again.line) ↔
        (again = first ∧
          (Inventory.ofDeclarations groups.flatten).definitions.get? key = some ⟨key, first⟩ ∧
          ∃ base, List.Duplicate base bases ∧ StandsBelow base first.file) := by
    intro key first again
    simp only [Inventory.diagnostics_ofDeclarations, Inventory.get?_ofDeclarations_eq_some_iff,
      true_and]
    constructor
    · rintro ⟨hreport, hfile, hline⟩
      have hfirst : .test key first ∈ groups.flatten :=
        Inventory.test_mem_of_firstLocation (Inventory.firstLocation_of_mem_reports hreport)
      have hagain : .test key again ∈ groups.flatten :=
        Inventory.test_mem_of_mem_reports hreport
      cases eq_of_sameLine hformed hreads hfirst hagain hfile hline
      obtain ⟨hkept, hduplicate⟩ := Inventory.duplicate_self_mem_reports_iff.mp hreport
      exact ⟨rfl, hkept,
        (duplicate_declaration_iff hformed hcanonical hreads hfirst).mp hduplicate⟩
    · rintro ⟨rfl, hkept, hshared⟩
      have hfirst := Inventory.test_mem_of_firstLocation hkept
      have hduplicate :=
        (duplicate_declaration_iff hformed hcanonical hreads hfirst).mpr hshared
      exact ⟨Inventory.duplicate_self_mem_reports_iff.mpr ⟨hkept, hduplicate⟩, rfl, rfl⟩
  refine ⟨bases, hbases, fun hnodup key first again hreport ↦ ?_, htwice⟩
  by_contra hsame
  push Not at hsame
  obtain ⟨_, _, base, hduplicate, _⟩ := (htwice key first again).mp ⟨hreport, hsame⟩
  exact hduplicate.not_nodup hnodup

theorem wellFormed_sharedDisk : sharedDisk.root.WellFormed := by
  have hio (bytes : List UInt8) :
      (FileTree.directory [("io", .directory [("io_test.go", .file bytes)])]).WellFormed :=
    .cons (by decide) (by simp) (.cons (by decide) (by simp) (.file _) .empty) .empty
  exact .cons (by decide) (by decide) (hio _) (.cons (by decide) (by decide) (hio _) .empty)

/-- Two spellings of a root share a base. The test below it is reported as a duplicate of itself,
and the one below the other root is not. -/
theorem duplicate_of_itself_iff_respelledRoot :
    ∃ inventory, scrape sharedDisk ["go"] ["src", "lib", "./src"] = .ok inventory ∧
      .duplicate "io. runs" srcLocation srcLocation ∈ inventory.diagnostics ∧
      .duplicate "io. runs" libLocation libLocation ∉ inventory.diagnostics := by
  have hread : declarationsOfRoots sharedDisk ["go"] ["src", "lib", "./src"] =
      .ok [.test "io. runs" srcLocation, .test "io. runs" libLocation,
        .test "io. runs" srcLocation] := by
    decide +kernel
  have hscrape := scrape_eq_ok_iff.mpr ⟨_, hread, rfl⟩
  obtain ⟨bases, hbases, _, htwice⟩ := duplicate_of_itself_iff wellFormed_sharedDisk hscrape
  have hshared : scrapedBases sharedDisk ["src", "lib", "./src"] = .ok ["/src", "/lib", "/src"] := by
    decide +kernel
  cases hbases.symm.trans hshared
  have htarget : IsEntryName "io" := by decide
  have hname : IsEntryName "io_test.go" := by decide
  refine ⟨_, hscrape, ((htwice _ _ _).mpr ⟨rfl, by decide, "/src", by decide, ?_⟩).1, ?_⟩
  · exact ⟨"io", "io_test.go", htarget, hname, by decide⟩
  · intro hreport
    obtain ⟨_, hkept, _⟩ := (htwice _ _ _).mp ⟨hreport, rfl, rfl⟩
    exact absurd hkept (by decide)

/-- Settings that list a root twice can be worked with. The one test in the sources is then reported
as a duplicate of itself. -/
theorem not_forall_duplicate_apart :
    ¬ ∀ (settings : Settings) (disk : Disk) (inventory : Inventory),
      disk.root.WellFormed → settings.validate = .ok () →
      settings.inventory disk = .ok inventory →
      ∀ key first again, .duplicate key first again ∈ inventory.diagnostics →
        first.file ≠ again.file ∨ first.line ≠ again.line := by
  intro hclaim
  have hread : declarationsOfRoots sharedDisk ["go"] ["./src", "./src"] =
      .ok [.test "io. runs" srcLocation, .test "io. runs" srcLocation] := by
    decide +kernel
  have hapart := hclaim { Settings.standard with scrapeRoots := ["src", "src"] } sharedDisk _
    wellFormed_sharedDisk (by decide) (scrape_eq_ok_iff.mpr ⟨_, hread, rfl⟩)
    "io. runs" srcLocation srcLocation (by decide)
  exact hapart.elim (· rfl) (· rfl)

end Roster.Source
