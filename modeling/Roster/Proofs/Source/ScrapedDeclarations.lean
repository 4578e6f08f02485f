import Roster.Proofs.FallibleRuns
import Roster.Proofs.Source.Recording
import Roster.Source.Scrape

/-!
# A scrape accounts for every declaration once

The declarations of a source tree are those of the expanded roots in their order, below each root
those of its targets by name, and in each target with a class name those of its source files by name
and line by line. `Source.DeclaredIn`, `Source.DeclaredBelow` and `Source.Declared` say this of a
target, of a root and of all roots, and `Disk.Lists` what it means that entries stand by name.

A scrape that succeeds has read these declarations and recorded them in this order
(`Source.scrape_eq_ok`). Hence `Source.scrape_accounts`: each name is defined where its first test
stands, every other test and every case without a literal is reported, in order, and the definitions
and reports together are as many as the declarations.
-/

set_option autoImplicit false
set_option relaxedAutoImplicit false

namespace Roster

/-! ### Entries by name -/

/-- The entries of a directory, in the order of their names. -/
structure Disk.Lists (disk : Disk) (path : Path) (entries : List (String × FileTree)) : Prop where
  /-- They are the entries that the directory has. -/
  located : ∃ inside, disk.locate path = .ok (.directory inside) ∧ entries.Perm inside
  /-- No name comes after a greater one. -/
  ordered : entries.Pairwise fun first second ↦ first.1 ≤ second.1

theorem Disk.lists_of_listDirectory {disk : Disk} {path : Path}
    {entries : List (String × FileTree)} (hlist : disk.listDirectory path = .ok entries) :
    disk.Lists path entries := by
  rw [listDirectory] at hlist
  split at hlist
  · next inside hlocate =>
    cases hlist
    refine ⟨⟨inside, hlocate, List.mergeSort_perm _ _⟩, ?_⟩
    refine (List.pairwise_mergeSort ?_ ?_ inside).imp fun hle ↦ of_decide_eq_true hle
    · intro first second third hfirst hsecond
      exact decide_eq_true
        (String.le_trans (of_decide_eq_true hfirst) (of_decide_eq_true hsecond))
    · intro first second
      simpa using String.le_total first.1 second.1
  · cases hlist
  · cases hlist

namespace Source

/-! ### The declarations of a source tree -/

/-- The declarations in a target: those of its source files, if it has a class name. -/
inductive DeclaredIn (disk : Disk) (suffixes : List String) (path : Path) :
    List Declaration → Prop
  /-- No file gives a class name. -/
  | unnamed {entries : List (String × FileTree)} (hlists : disk.Lists path entries)
      (hclassname : Target.classname ⟨path, sourceFiles suffixes path entries⟩ = .ok none) :
      DeclaredIn disk suffixes path []
  /-- The files give a class name. -/
  | named {entries : List (String × FileTree)} {classname : String}
      (hlists : disk.Lists path entries)
      (hclassname : Target.classname ⟨path, sourceFiles suffixes path entries⟩ =
        .ok (some classname)) :
      DeclaredIn disk suffixes path
        ((sourceFiles suffixes path entries).flatMap fun file ↦
          declarationsOf file.content file.path classname)

/-- The declarations below a root: those of the targets right below its base, one after the other.
-/
inductive DeclaredBelow (disk : Disk) (suffixes : List String) (root : Path) :
    List Declaration → Prop
  /-- The root does not exist. -/
  | missing (habsent : disk.exists? root = false) : DeclaredBelow disk suffixes root []
  /-- The root has a base. -/
  | present {base : Path} {entries : List (String × FileTree)} {found : List (List Declaration)}
      (hbase : baseOf disk root = .ok (some base)) (hlists : disk.Lists base entries)
      (htargets : List.Forall₂
        (fun entry declarations ↦ DeclaredIn disk suffixes (base.join entry.1) declarations)
        (entries.filter fun entry ↦ entry.2.isDirectory) found) :
      DeclaredBelow disk suffixes root found.flatten

/-- The declarations below all that a list of roots stands for. -/
inductive Declared (disk : Disk) (suffixes : List String) (roots : List Path) :
    List Declaration → Prop
  /-- The roots stand for others, or for themselves. -/
  | below {expanded : List Path} {found : List (List Declaration)}
      (hexpanded : expandRoots disk roots = .ok expanded)
      (hfound : List.Forall₂ (DeclaredBelow disk suffixes) expanded found) :
      Declared disk suffixes roots found.flatten

variable {disk : Disk} {suffixes : List String}

/-! ### What is read -/

/-- A target is made of the entries of its directory. -/
theorem exists_lists_of_targetAt {path : Path} {target : Target}
    (htarget : targetAt disk suffixes path = .ok target) :
    ∃ entries, disk.Lists path entries ∧ target = ⟨path, sourceFiles suffixes path entries⟩ := by
  rw [targetAt] at htarget
  split at htarget
  · next entries hentries =>
    cases htarget
    exact ⟨entries, Disk.lists_of_listDirectory hentries, rfl⟩
  · cases htarget

/-- The declarations read from a directory are those of the target that it is. -/
theorem declaredIn_of_read {path : Path} {declarations : List Declaration}
    (hread : (do let target ← targetAt disk suffixes path; target.declarations) =
      .ok declarations) :
    DeclaredIn disk suffixes path declarations := by
  obtain ⟨target, htarget, hdeclarations⟩ := bind_eq_ok_iff.mp hread
  obtain ⟨entries, hlists, rfl⟩ := exists_lists_of_targetAt htarget
  rw [Target.declarations] at hdeclarations
  split at hdeclarations
  · next classname hclassname =>
    cases hdeclarations
    exact .named hlists hclassname
  · next hclassname =>
    cases hdeclarations
    exact .unnamed hlists hclassname
  · cases hdeclarations

/-- Only a root that does not exist has no base. -/
theorem exists?_of_baseOf_eq_none {root : Path} (hbase : baseOf disk root = .ok none) :
    disk.exists? root = false := by
  rw [baseOf] at hbase
  split at hbase
  · split at hbase <;> cases hbase
  · next habsent => exact Bool.not_eq_true _ ▸ habsent

/-- The subdirectories of a directory stand by name. -/
theorem subdirectories_eq_ok {path : Path} {paths : List Path}
    (hpaths : subdirectories disk path = .ok paths) :
    ∃ entries, disk.Lists path entries ∧
      paths = (entries.filter fun entry ↦ entry.2.isDirectory).map fun entry ↦
        path.join entry.1 := by
  rw [subdirectories] at hpaths
  split at hpaths
  · next entries hentries =>
    cases hpaths
    exact ⟨entries, Disk.lists_of_listDirectory hentries, rfl⟩
  · cases hpaths

theorem declaredBelow_of_declarationsBelow {root : Path} {declarations : List Declaration}
    (hread : declarationsBelow disk suffixes root = .ok declarations) :
    DeclaredBelow disk suffixes root declarations := by
  obtain ⟨base?, hbase, hbelow⟩ := bind_eq_ok_iff.mp hread
  cases base? with
  | none =>
    cases hbelow
    exact .missing (exists?_of_baseOf_eq_none hbase)
  | some base =>
    obtain ⟨paths, hpaths, htargets⟩ := bind_eq_ok_iff.mp hbelow
    obtain ⟨found, hfound, hflatten⟩ := bind_eq_ok_iff.mp htargets
    cases hflatten
    obtain ⟨entries, hlists, rfl⟩ := subdirectories_eq_ok hpaths
    have hpairs := List.forall₂_map_left_iff.mp (mapM_eq_ok_iff.mp hfound)
    exact .present hbase hlists (hpairs.imp fun _ _ ↦ declaredIn_of_read)

/-- A scrape that succeeds has recorded the declarations of the source tree. -/
theorem scrape_eq_ok {roots : List Path} {inventory : Inventory}
    (hscrape : scrape disk suffixes roots = .ok inventory) :
    ∃ declarations, Declared disk suffixes roots declarations ∧
      inventory = Inventory.ofDeclarations declarations := by
  rw [scrape] at hscrape
  cases hread : declarationsOfRoots disk suffixes roots with
  | error fault =>
    rw [hread] at hscrape
    cases hscrape
  | ok declarations =>
    rw [hread] at hscrape
    cases hscrape
    refine ⟨declarations, ?_, rfl⟩
    obtain ⟨expanded, hexpanded, hroots⟩ := bind_eq_ok_iff.mp hread
    obtain ⟨found, hfound, hflatten⟩ := bind_eq_ok_iff.mp hroots
    cases hflatten
    have hpairs := mapM_eq_ok_iff.mp hfound
    exact .below hexpanded (hpairs.imp fun _ _ ↦ declaredBelow_of_declarationsBelow)

/-- The inventory of a scrape defines the names of the tests that are declared, each where its first
test stands and with the name as its own key. It reports, in the order of the declarations, each case without a literal and each test
behind another one of its name, and nothing else. A report about a name tells where it is defined.
The definitions and the reports together are as many as the declarations. -/
theorem scrape_accounts {roots : List Path} {inventory : Inventory}
    (hscrape : scrape disk suffixes roots = .ok inventory) :
    ∃ declarations, Declared disk suffixes roots declarations ∧
      (∀ key, inventory.definitions.get? key =
        (Inventory.firstLocation key declarations).map (TestDefinition.mk key)) ∧
      inventory.diagnostics = Inventory.reports declarations ∧
      (∀ key first again, .duplicate key first again ∈ inventory.diagnostics →
        inventory.definitions.get? key = some ⟨key, first⟩) ∧
      inventory.definitions.entries.length + inventory.diagnostics.length =
        declarations.length := by
  obtain ⟨declarations, hdeclared, rfl⟩ := scrape_eq_ok hscrape
  have hdefinitions := Inventory.get?_ofDeclarations declarations
  have hdiagnostics := Inventory.diagnostics_ofDeclarations declarations
  refine ⟨declarations, hdeclared, hdefinitions, hdiagnostics, fun key first again hreport ↦ ?_,
    Inventory.length_ofDeclarations declarations⟩
  rw [hdiagnostics] at hreport
  rw [hdefinitions, Inventory.firstLocation_of_mem_reports hreport, Option.map_some]

/-! ### A root that is given twice -/

/-- A target with a test that is declared twice and a case whose description is computed. -/
def repeatingDisk : Disk :=
  ⟨.directory [("src", .directory [("io", .directory [("io_test.go", .file (Text.Utf8.encode
    ("k8stest.InitTesting(t, \"io\", \"io\")\n" ++ "It(\"runs\", func() \x7b\n" ++
      "It(\"runs\", func() \x7b\n" ++ "It(name, func() \x7b\n")))])])], []⟩

/-- The place where the test is defined. -/
def repeatingLocation : SourceLocation :=
  ⟨⟨"/src/io/io_test.go"⟩, 2, "It(\"runs\", func() \x7b"⟩

theorem scrape_repeatingDisk :
    ∃ inventory, scrape repeatingDisk ["go"] ["src", "src"] = .ok inventory ∧
      inventory.definitions.entries = [("io. runs", ⟨"io. runs", repeatingLocation⟩)] ∧
      inventory.diagnostics.length = 5 := by
  have hrun : (scrape repeatingDisk ["go"] ["src", "src"]).toOption.map
      (fun inventory ↦ (inventory.definitions.entries, inventory.diagnostics.length)) =
        some ([("io. runs", ⟨"io. runs", repeatingLocation⟩)], 5) := by
    decide +kernel
  obtain ⟨inventory, hscrape, hshown⟩ := exists_eq_ok_of_toOption hrun
  exact ⟨inventory, hscrape, (Prod.mk.inj hshown).1, (Prod.mk.inj hshown).2⟩

/-- Below a root that is given twice, six declarations make one definition, which is the first of
them, and five reports. -/
theorem scrape_accounts_repeatingDisk :
    ∃ declarations, Declared repeatingDisk ["go"] ["src", "src"] declarations ∧
      declarations.length = 6 ∧
      Inventory.firstLocation "io. runs" declarations = some repeatingLocation ∧
      (Inventory.reports declarations).length = 5 := by
  obtain ⟨inventory, hscrape, hentries, hlength⟩ := scrape_repeatingDisk
  obtain ⟨declarations, hdeclared, hdefinitions, hdiagnostics, _, hcount⟩ := scrape_accounts hscrape
  refine ⟨declarations, hdeclared, ?_, ?_, ?_⟩
  · rw [← hcount, hentries, hlength, List.length_singleton]
  · have hkept := hdefinitions "io. runs"
    rw [Table.get?, hentries] at hkept
    obtain ⟨location, hfirst, hsame⟩ := Option.map_eq_some_iff.mp hkept.symm
    rw [hfirst]
    exact congrArg some (TestDefinition.mk.inj hsame).2
  · rw [← hdiagnostics, hlength]

end Source

end Roster
