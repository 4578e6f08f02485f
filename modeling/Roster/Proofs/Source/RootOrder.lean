import Roster.Proofs.Source.DuplicateReports
import Roster.Proofs.Source.ScrapedDeclarations

/-!
# The order of the roots

Roots in another order give the same declarations in another order, whatever they stand for and
whether they exist or not (`Source.exists_declarationsOfRoots_of_perm`). Hence a scrape succeeds with
them as well, it defines the same names, and as many warnings come with it. Which declaration of a
name is the one that counts may change, but only if the name is declared twice
(`Source.scrape_perm`).
-/

set_option autoImplicit false
set_option relaxedAutoImplicit false

namespace Roster.Source

variable {disk : Disk} {suffixes : List String} {roots others : List Path}

/-! ### The declarations below the roots -/

/-- The roots that a list of roots stands for do not depend on its order, apart from their own. -/
theorem exists_expandRoots_of_perm (hperm : others.Perm roots) {expanded : List Path}
    (hexpanded : expandRoots disk roots = .ok expanded) :
    ∃ found, expandRoots disk others = .ok found ∧ found.Perm expanded :=
  exists_map_flatten_mapM_of_perm hperm hexpanded

/-- The declarations below roots are those below the roots that they stand for. -/
theorem declarationsOfRoots_eq_ok_iff {declarations : List Declaration} :
    declarationsOfRoots disk suffixes roots = .ok declarations ↔
      ∃ expanded, expandRoots disk roots = .ok expanded ∧
        (expanded.mapM (declarationsBelow disk suffixes)).map List.flatten = .ok declarations :=
  bind_eq_ok_iff

/-- Roots in another order have the same declarations below them, in another order. -/
theorem exists_declarationsOfRoots_of_perm (hperm : others.Perm roots)
    {declarations : List Declaration}
    (hread : declarationsOfRoots disk suffixes roots = .ok declarations) :
    ∃ found, declarationsOfRoots disk suffixes others = .ok found ∧ found.Perm declarations := by
  obtain ⟨expanded, hexpanded, hbelow⟩ := declarationsOfRoots_eq_ok_iff.mp hread
  obtain ⟨again, hagain, hsame⟩ := exists_expandRoots_of_perm hperm hexpanded
  obtain ⟨found, hfound, hdeclarations⟩ := exists_map_flatten_mapM_of_perm hsame hbelow
  exact ⟨found, declarationsOfRoots_eq_ok_iff.mpr ⟨again, hagain, hfound⟩, hdeclarations⟩

/-! ### The scrape -/

/-- A scrape succeeds when the declarations below the roots can be read. -/
theorem scrape_eq_ok_iff {inventory : Inventory} :
    scrape disk suffixes roots = .ok inventory ↔
      ∃ declarations, declarationsOfRoots disk suffixes roots = .ok declarations ∧
        Inventory.ofDeclarations declarations = inventory :=
  map_eq_ok_iff

theorem exists_scrape_of_perm (hperm : others.Perm roots)
    (hscrape : ∃ inventory, scrape disk suffixes roots = .ok inventory) :
    ∃ inventory, scrape disk suffixes others = .ok inventory := by
  obtain ⟨inventory, hinventory⟩ := hscrape
  obtain ⟨declarations, hread, _⟩ := scrape_eq_ok_iff.mp hinventory
  obtain ⟨found, hfound, _⟩ := exists_declarationsOfRoots_of_perm hperm hread
  exact ⟨_, scrape_eq_ok_iff.mpr ⟨found, hfound, rfl⟩⟩

/-- Let roots be given in two orders. Either both scrapes have a result or none of them has. If they
have, the same names are defined, and the warnings are equally many. If one of the scrapes reports no
duplicate, the definitions are the same, with the places where they stand. -/
theorem scrape_perm (disk : Disk) (suffixes : List String) (hperm : roots.Perm others) :
    ((∃ inventory, scrape disk suffixes roots = .ok inventory) ↔
      ∃ inventory, scrape disk suffixes others = .ok inventory) ∧
    ∀ first second, scrape disk suffixes roots = .ok first →
      scrape disk suffixes others = .ok second →
        first.definitions.names = second.definitions.names ∧
        Diagnostic.warningCount first.diagnostics = Diagnostic.warningCount second.diagnostics ∧
        ((∀ key kept again, .duplicate key kept again ∉ first.diagnostics) ∨
            (∀ key kept again, .duplicate key kept again ∉ second.diagnostics) →
          first.definitions = second.definitions) := by
  refine ⟨⟨exists_scrape_of_perm hperm.symm, exists_scrape_of_perm hperm⟩, ?_⟩
  intro first second hfirst hsecond
  obtain ⟨declarations, hread, rfl⟩ := scrape_eq_ok_iff.mp hfirst
  obtain ⟨again, hagain, rfl⟩ := scrape_eq_ok_iff.mp hsecond
  obtain ⟨found, hfound, hsame⟩ := exists_declarationsOfRoots_of_perm hperm.symm hread
  cases hagain.symm.trans hfound
  simp only [Diagnostic.warningCount, Inventory.diagnostics_ofDeclarations,
    Inventory.warnings_reports]
  refine ⟨Inventory.names_ofDeclarations_of_perm hsame.symm, ?_, ?_⟩
  · simpa only [Inventory.diagnostics_ofDeclarations] using
      Inventory.length_diagnostics_of_perm hsame.symm
  · rintro (hdistinct | hdistinct)
    · exact Inventory.definitions_ofDeclarations_of_perm hsame.symm hdistinct
    · exact (Inventory.definitions_ofDeclarations_of_perm hsame hdistinct).symm

/-! ### A test that two roots declare -/

/-- Two source trees with one test, which has the same name in both. -/
def sharedDisk : Disk :=
  ⟨.directory
    [("lib", .directory [("io", .directory [("io_test.go", .file (Text.Utf8.encode
      "k8stest.InitTesting(t, \"io\", \"io\")\nIt(\"runs\", func() \x7b\n"))])]),
      ("src", .directory [("io", .directory [("io_test.go", .file (Text.Utf8.encode
        "k8stest.InitTesting(t, \"io\", \"io\")\n\nIt(\"runs\", func() \x7b\n"))])])], []⟩

/-- The place of the test in the one tree. -/
def libLocation : SourceLocation :=
  ⟨"/lib/io/io_test.go", 2, "It(\"runs\", func() \x7b"⟩

/-- The place of the test in the other tree. -/
def srcLocation : SourceLocation :=
  ⟨"/src/io/io_test.go", 3, "It(\"runs\", func() \x7b"⟩

theorem declarationsOfRoots_sharedDisk :
    declarationsOfRoots sharedDisk ["go"] ["src", "gone", "lib"] =
        .ok [.test "io. runs" srcLocation, .test "io. runs" libLocation] ∧
      declarationsOfRoots sharedDisk ["go"] ["lib", "src", "gone"] =
        .ok [.test "io. runs" libLocation, .test "io. runs" srcLocation] := by
  decide +kernel

/-- The test counts where the first root declares it, so that the order of the roots decides which
place that is. It is defined in both orders, and one warning comes with it. -/
theorem scrape_perm_sharedDisk :
    ∃ first second, scrape sharedDisk ["go"] ["src", "gone", "lib"] = .ok first ∧
      scrape sharedDisk ["go"] ["lib", "src", "gone"] = .ok second ∧
      first.definitions.get? "io. runs" = some ⟨"io. runs", srcLocation⟩ ∧
      second.definitions.get? "io. runs" = some ⟨"io. runs", libLocation⟩ ∧
      first.definitions.names = second.definitions.names ∧
      Diagnostic.warningCount first.diagnostics = Diagnostic.warningCount second.diagnostics := by
  obtain ⟨hsrc, hlib⟩ := declarationsOfRoots_sharedDisk
  have hfirst := scrape_eq_ok_iff.mpr ⟨_, hsrc, rfl⟩
  have hsecond := scrape_eq_ok_iff.mpr ⟨_, hlib, rfl⟩
  have hperm : ([⟨"src"⟩, ⟨"gone"⟩, ⟨"lib"⟩] : List Path).Perm [⟨"lib"⟩, ⟨"src"⟩, ⟨"gone"⟩] := by
    decide
  obtain ⟨_, hsame⟩ := scrape_perm sharedDisk ["go"] hperm
  obtain ⟨hnames, hwarnings, _⟩ := hsame _ _ hfirst hsecond
  exact ⟨_, _, hfirst, hsecond, by decide, by decide, hnames, hwarnings⟩

end Roster.Source
