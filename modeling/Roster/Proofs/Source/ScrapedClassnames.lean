import Roster.Proofs.Source.SharedClassnames

/-!
# A scrape goes by the class names of its targets

Below roots that are directories a scrape reads one list of targets
(`Source.exists_targets`). `Source.scrape_classnames` says what becomes of them. The scrape succeeds
exactly when the files of no target give two class names. Then every declaration stands in a target
that has a name, and is keyed with it, whatever file gives the name. Otherwise the fault is the first
clash of the first target that has one.

The run that keeps one table of class names and records as it goes is `Source.recordRoots` for all
roots, and `Source.Target.recordInto` for target after target. It is the same as the passes over the
single targets (`Source.scrape_eq_recordRoots`, `Source.map_foldlM_recordInto`).
-/

set_option autoImplicit false
set_option relaxedAutoImplicit false

namespace Roster

/-! ### Keys under a class name -/

/-- A declaration in a file that is keyed with a class name. A case without a literal has no key. -/
def Declaration.KeyedWith (classname : String) (file : Path) : Declaration → Prop
  | .test key location =>
    location.file = file ∧ ∃ suite case, key = Source.definitionKey classname suite case
  | .unresolved location => location.file = file

namespace Source

variable {disk : Disk} {suffixes : List String} {roots : List Path}
variable {target : Target}

theorem declarationOn_keyedWith {file : Path} {classname : String} {suite : List Char}
    {line : NumberedLine} {declaration : Declaration}
    (hfound : declarationOn file classname suite line = some declaration) :
    declaration.KeyedWith classname file := by
  rw [declarationOn] at hfound
  split at hfound
  · cases hfound
    exact ⟨rfl, _, _, rfl⟩
  · split at hfound
    · cases hfound
      rfl
    · cases hfound

/-- All that is declared in a file under a class name is keyed with it. -/
theorem declarationsFrom_keyedWith {file : Path} {classname : String} {lines : List NumberedLine}
    {suite : List Char} : ∀ declaration ∈ declarationsFrom file classname suite lines,
      declaration.KeyedWith classname file := by
  induction lines generalizing suite with
  | nil => exact List.forall_mem_nil _
  | cons line rest ih =>
    intro declaration hdeclaration
    rw [declarationsFrom] at hdeclaration
    rcases List.mem_append.mp hdeclaration with hline | hrest
    · exact declarationOn_keyedWith (Option.mem_toList.mp hline)
    · exact ih declaration hrest

/-- All that a target declares is keyed with its class name. -/
theorem Target.Declares.keyedWith {found : List Declaration} (hdeclares : target.Declares found) :
    ∀ declaration ∈ found, ∃ classname, target.IsNamed classname ∧
      ∃ file ∈ target.files, declaration.KeyedWith classname file.path := by
  cases hdeclares with
  | unnamed => exact List.forall_mem_nil _
  | @named classname hnamed =>
    intro declaration hdeclaration
    obtain ⟨file, hfile, hmem⟩ := List.mem_flatMap.mp hdeclaration
    exact ⟨classname, hnamed, file, hfile, declarationsFrom_keyedWith declaration hmem⟩

/-! ### The outcome of a scrape -/

/-- Targets that are read stand on the disk. -/
theorem IsTarget.isOn (hformed : disk.root.WellFormed)
    (htarget : IsTarget disk suffixes target.path target) : IsOn disk suffixes target := by
  have ⟨entries, hlists, _⟩ := htarget
  obtain ⟨inside, hlocate, _⟩ := hlists.located
  obtain ⟨found, hfound⟩ :=
    exists_targetAt suffixes (Disk.isDirectory_iff.mpr ⟨inside, hlocate⟩)
  rw [IsOn, hfound, IsTarget.unique hformed (isTarget_of_targetAt hfound) htarget]

/-- A scrape is the run that keeps one table of class names for all roots. It reads one list of
targets: with one table for all of them, it records what they declare. It has a result exactly when
the files of each target give no two names. Then the declarations of each target are those of all its
files under its one name, and none if it has no name. Otherwise the fault is the first clash of the
first target in which there is one. -/
theorem scrape_classnames (hformed : disk.root.WellFormed) (suffixes : List String)
    (hroots : ∀ root ∈ roots, IsRoot disk root) :
    ∃ targets, (∀ others, Targets disk suffixes roots others ↔ others = targets) ∧
      scrape disk suffixes roots =
        (recordRoots disk suffixes roots (.empty, .empty)).map Prod.snd ∧
      scrape disk suffixes roots =
        (targets.foldlM Target.recordInto (.empty, .empty)).map Prod.snd ∧
      ((∃ inventory, scrape disk suffixes roots = .ok inventory) ↔
        ∀ target ∈ targets, target.Agrees) ∧
      (∀ inventory, scrape disk suffixes roots = .ok inventory →
        ∃ found, inventory = Inventory.ofDeclarations found.flatten ∧
          List.Forall₂ (fun target declarations ↦ target.Declares declarations ∧
            ∀ declaration ∈ declarations, ∃ classname, target.IsNamed classname ∧
              ∃ file ∈ target.files, declaration.KeyedWith classname file.path) targets found) ∧
      ∀ fault, scrape disk suffixes roots = .error fault →
        ∃ earlier target later clash, targets = earlier ++ target :: later ∧
          (∀ other ∈ earlier, other.Agrees) ∧ target.FirstClash clash ∧ fault = .clash clash := by
  obtain ⟨targets, htargets, hread⟩ := exists_targets hformed suffixes hroots
  have hscrape : scrape disk suffixes roots =
      (targets.mapM Target.declarations).map fun found ↦ Inventory.ofDeclarations found.flatten := by
    rw [scrape, hread]
    cases targets.mapM Target.declarations <;> rfl
  refine ⟨targets, ?_, scrape_eq_recordRoots disk suffixes roots, ?_, ?_, ?_, ?_⟩
  · intro others
    refine ⟨fun hothers ↦ hothers.unique hformed htargets, ?_⟩
    rintro rfl
    exact htargets
  · have hon : ∀ target ∈ targets, IsOn disk suffixes target := fun target htarget ↦
      (htargets.isTarget target htarget).isOn hformed
    have hnames : AlikeNames (· ∈ targets) := fun target other htarget hother ↦
      alikeNames_isOn disk suffixes target other (hon target htarget) (hon other hother)
    rw [hscrape, map_foldlM_recordInto hnames]
  · constructor
    · rintro ⟨inventory, hinventory⟩ target htarget
      obtain ⟨found, hfound, _⟩ := map_eq_ok_iff.mp (hscrape.symm.trans hinventory)
      obtain ⟨declarations, _, hrun⟩ := exists_mem_of_mapM_eq_ok hfound htarget
      exact Target.exists_declarations_iff.mp ⟨declarations, hrun⟩
    · intro hagrees
      have hruns : ∀ target ∈ targets, ∃ found, target.declarations = .ok found :=
        fun target htarget ↦ Target.exists_declarations_iff.mpr (hagrees target htarget)
      obtain ⟨found, hfound⟩ := exists_mapM_eq_ok hruns
      exact ⟨_, hscrape.trans (map_eq_ok_iff.mpr ⟨found, hfound, rfl⟩)⟩
  · intro inventory hinventory
    obtain ⟨found, hfound, hrecorded⟩ := map_eq_ok_iff.mp (hscrape.symm.trans hinventory)
    refine ⟨found, hrecorded.symm, (mapM_eq_ok_iff.mp hfound).imp fun target declarations hrun ↦ ?_⟩
    have hdeclares : target.Declares declarations := Target.declarations_eq_ok_iff.mp hrun
    exact ⟨hdeclares, hdeclares.keyedWith⟩
  · intro fault hfault
    obtain ⟨earlier, target, later, hsplit, hearlier, htarget⟩ :=
      mapM_eq_error_iff.mp (map_eq_error_iff.mp (hscrape.symm.trans hfault))
    obtain ⟨clash, hclash, hsame⟩ := Target.declarations_eq_error_iff.mp htarget
    exact ⟨earlier, target, later, clash, hsplit, fun other hother ↦
      Target.exists_declarations_iff.mp (hearlier other hother), hclash, hsame⟩

/-! ### A name that comes late, and a clash -/

/-- Two source files with these texts. -/
def sourcesOf (first second : String) : List (String × FileTree) :=
  [("a_test.go", .file (Text.Utf8.encode first)), ("b_test.go", .file (Text.Utf8.encode second))]

/-- A line that gives a class name. -/
def namingLine (classname : String) : String :=
  "k8stest.InitTesting(t, \"" ++ classname ++ "\", \"report\")\n"

/-- Below one root the second file of a target gives the class name for a case in the first one. Below
the other root the files of a target give two class names. -/
def twoTreesDisk : Disk :=
  ⟨.directory
    [("lib", .directory [("lvm", .directory (sourcesOf (namingLine "lvm") (namingLine "zfs")))]),
      ("src", .directory
        [("io", .directory (sourcesOf "It(\"runs\", func() \x7b\n" (namingLine "io")))])], []⟩

/-- The target with two source files. -/
def targetOf (path : Path) (first second : String) : Target :=
  ⟨path, sourceFiles ["go"] path (sourcesOf first second)⟩

/-- The target with a case. -/
def ioTarget : Target :=
  targetOf "/src/io" "It(\"runs\", func() \x7b\n" (namingLine "io")

/-- The case. -/
def ioDeclaration : Declaration :=
  .test "io. runs" ⟨"/src/io/a_test.go", 1, "It(\"runs\", func() \x7b"⟩

/-- The target with two class names. -/
def lvmTarget : Target :=
  targetOf "/lib/lvm" (namingLine "lvm") (namingLine "zfs")

/-- The two class names. -/
def lvmClash : ClassnameClash :=
  ⟨"/lib/lvm", "/lib/lvm/b_test.go", "lvm", "zfs"⟩

theorem wellFormed_sourcesOf (first second : String) :
    (FileTree.directory (sourcesOf first second)).WellFormed :=
  .cons (by decide) (by simp) (.file _) (.cons (by decide) (by simp) (.file _) .empty)

theorem wellFormed_twoTreesDisk : twoTreesDisk.root.WellFormed := by
  refine .cons (by decide) (by decide) ?lib (.cons (by decide) (by decide) ?src .empty)
  case lib => exact .cons (by decide) (by decide) (wellFormed_sourcesOf _ _) .empty
  case src => exact .cons (by decide) (by decide) (wellFormed_sourcesOf _ _) .empty

theorem isRoot_twoTreesDisk : ∀ root ∈ ([⟨"src"⟩, ⟨"lib"⟩] : List Path), IsRoot twoTreesDisk root := by
  have hsrc : twoTreesDisk.isDirectory "src" = true := by rfl
  have hlib : twoTreesDisk.isDirectory "lib" = true := by rfl
  exact List.forall_mem_cons.mpr ⟨fun _ ↦ hsrc, List.forall_mem_singleton.mpr fun _ ↦ hlib⟩

/-- A root with one directory, which has two source files, has one target. -/
theorem targetsBelow_of_locate {disk : Disk} {root base : Path} {name first second : String}
    (hbase : baseOf disk root = .ok (some base))
    (hhere : disk.locate base = .ok (.directory [(name, .directory (sourcesOf first second))]))
    (hthere : disk.locate (base.join name) = .ok (.directory (sourcesOf first second))) :
    TargetsBelow disk ["go"] root [targetOf (base.join name) first second] := by
  have hle : "a_test.go" ≤ "b_test.go" := by decide
  have hlists : disk.Lists base [(name, .directory (sourcesOf first second))] :=
    ⟨⟨_, hhere, .refl _⟩, List.pairwise_singleton _ _⟩
  have hfiles : disk.Lists (base.join name) (sourcesOf first second) :=
    ⟨⟨_, hthere, .refl _⟩, List.pairwise_pair.mpr hle⟩
  exact .present hbase hlists (.cons ⟨_, hfiles, rfl⟩ .nil)

theorem targetsBelow_src : TargetsBelow twoTreesDisk ["go"] "src" [ioTarget] := by
  have hbase : baseOf twoTreesDisk "src" = .ok (some "/src") := by rfl
  exact targetsBelow_of_locate hbase (by rfl) (by rfl)

theorem targetsBelow_lib : TargetsBelow twoTreesDisk ["go"] "lib" [lvmTarget] := by
  have hbase : baseOf twoTreesDisk "lib" = .ok (some "/lib") := by rfl
  exact targetsBelow_of_locate hbase (by rfl) (by rfl)

theorem declares_ioTarget : ioTarget.Declares [ioDeclaration] := by
  have hnamed : ioTarget.IsNamed "io" := by decide +kernel
  have hfound : (ioTarget.files.flatMap fun file ↦
      declarationsOf file.content file.path "io") = [ioDeclaration] := by
    decide +kernel
  exact hfound ▸ .named hnamed

theorem firstClash_lvmTarget : lvmTarget.FirstClash lvmClash := by
  have hsplit : lvmTarget.namings =
      ⟨"/lib/lvm/a_test.go", "lvm"⟩ :: ([] ++ ⟨"/lib/lvm/b_test.go", "zfs"⟩ :: []) := by
    decide +kernel
  have hne : "zfs" ≠ "lvm" := by decide
  exact ⟨_, _, _, _, hsplit, List.forall_mem_nil _, hne, rfl⟩

/-- The name that the second file gives counts for the case in the first one. The other tree has a
clash, which is found behind the first tree. -/
theorem scrape_classnames_twoTrees :
    scrape twoTreesDisk ["go"] ["src"] = .ok (Inventory.ofDeclarations [ioDeclaration]) ∧
      scrape twoTreesDisk ["go"] ["src", "lib"] = .error (.clash lvmClash) := by
  have hsrc : ∀ root ∈ ([⟨"src"⟩] : List Path), IsRoot twoTreesDisk root :=
    List.forall_mem_singleton.mpr (isRoot_twoTreesDisk _ List.mem_cons_self)
  constructor
  · have hexpanded : expandRoots twoTreesDisk ["src"] = .ok ["src"] := by decide +kernel
    have htargets : Targets twoTreesDisk ["go"] ["src"] [ioTarget] :=
      .below hexpanded (.cons targetsBelow_src .nil)
    obtain ⟨targets, hunique, _, _, hok, hfound, _⟩ :=
      scrape_classnames wellFormed_twoTreesDisk ["go"] hsrc
    cases (hunique _).mp htargets
    obtain ⟨inventory, hscrape⟩ :=
      hok.mpr (List.forall_mem_singleton.mpr declares_ioTarget.agrees)
    obtain ⟨found, hinventory, hpairs⟩ := hfound inventory hscrape
    cases hpairs with
    | cons hfirst hrest =>
      cases hrest
      cases hfirst.1.unique declares_ioTarget
      rw [hscrape, hinventory]
      rfl
  · have hexpanded : expandRoots twoTreesDisk ["src", "lib"] = .ok ["src", "lib"] := by
      decide +kernel
    have htargets : Targets twoTreesDisk ["go"] ["src", "lib"] [ioTarget, lvmTarget] :=
      .below hexpanded (.cons targetsBelow_src (.cons targetsBelow_lib .nil))
    obtain ⟨targets, hunique, _, _, hok, _, hfault⟩ :=
      scrape_classnames wellFormed_twoTreesDisk ["go"] isRoot_twoTreesDisk
    cases (hunique _).mp htargets
    cases hscrape : scrape twoTreesDisk ["go"] ["src", "lib"] with
    | ok inventory =>
      have hagrees : lvmTarget.Agrees :=
        hok.mp ⟨inventory, hscrape⟩ lvmTarget (List.mem_cons_of_mem _ List.mem_cons_self)
      exact (firstClash_lvmTarget.not_agrees hagrees).elim
    | error fault =>
      obtain ⟨earlier, target, later, clash, hsplit, _, hclash, rfl⟩ := hfault fault hscrape
      have htarget : target ∈ [ioTarget, lvmTarget] :=
        hsplit ▸ List.mem_append_right _ List.mem_cons_self
      rcases List.mem_pair.mp htarget with rfl | rfl
      · exact (hclash.not_agrees declares_ioTarget.agrees).elim
      · rw [hclash.unique firstClash_lvmTarget]

end Source

end Roster
