import Roster.Plan.Load
import Roster.Proofs.File.FileNames
import Roster.Proofs.Source.ScrapedTargets

/-!
# The files of plans

A plan is listed under the name of its file without the suffix, and read from the file that has its
name with the suffix (`PlanDirectory.fileOf`). The suffix is taken off at the last dot of a file
name, so that the dots in the name of a plan stay where they are, and the two ways are inverse to
each other on the files that have the suffix (`PlanDirectory.cutAtLastDot_fileOf`,
`PlanDirectory.fileOf_stem`).

The names of the plans of a directory are read off the names of its files
(`PlanDirectory.exists_names_eq_ok`). They are the names under which a plan is found, each once and
in order (`PlanDirectory.names_iff_isFile_pathOf`).
-/

set_option autoImplicit false
set_option relaxedAutoImplicit false

namespace Roster

namespace PlanDirectory

/-! ### The names of plan files -/

/-- A file right inside the directory that holds the document of a plan. -/
def HasPlanFile (plans : PlanDirectory) (file : String) : Prop :=
  ∃ entries bytes, plans.disk.locate plans.path = .ok (.directory entries) ∧
    (file, .file bytes) ∈ entries ∧ Path.suffix file = some fileSuffix

/-- The name of an entry of a directory that is a plan file. -/
def planFile : String × FileTree → Option String
  | (name, .file _) => if Path.suffix name = some fileSuffix then some name else none
  | (_, .directory _) => none

theorem planFile_eq_some_iff {entry : String × FileTree} {file : String} :
    planFile entry = some file ↔
      ∃ bytes, entry = (file, .file bytes) ∧ Path.suffix file = some fileSuffix := by
  obtain ⟨name, tree⟩ := entry
  cases tree with
  | directory entries => simp [planFile]
  | file bytes =>
    simp only [planFile, Option.ite_none_right_eq_some, Option.some.injEq, Prod.mk.injEq,
      FileTree.file.injEq]
    constructor
    · rintro ⟨hsuffix, rfl⟩
      exact ⟨bytes, ⟨rfl, rfl⟩, hsuffix⟩
    · rintro ⟨_, ⟨rfl, _⟩, hsuffix⟩
      exact ⟨hsuffix, rfl⟩

/-- A plan has the name of its file without the suffix. -/
theorem nameOfEntry_eq_map_stem (entry : String × FileTree) :
    nameOfEntry entry = (planFile entry).map Path.stem := by
  obtain ⟨name, tree⟩ := entry
  cases tree with
  | directory entries => rfl
  | file bytes =>
    rw [nameOfEntry, planFile]
    split <;> rfl

/-- The names of the plans of a directory are those of its plan files, in order. -/
theorem exists_names_eq_ok (plans : PlanDirectory) (hformed : plans.disk.root.WellFormed)
    (hdirectory : plans.disk.isDirectory plans.path = true) :
    ∃ files : List String, files.Nodup ∧ (∀ file, file ∈ files ↔ plans.HasPlanFile file) ∧
      plans.names = .ok (sortNames (files.map Path.stem)) := by
  obtain ⟨listed, hlisted⟩ := Disk.exists_listDirectory hdirectory
  obtain ⟨entries, hlocate, hperm⟩ := (Disk.lists_of_listDirectory hlisted).located
  obtain ⟨hdistinct, _⟩ := (Disk.lists_of_listDirectory hlisted).names hformed
  refine ⟨listed.filterMap planFile, ?_, fun file ↦ ?_, ?_⟩
  · refine (List.pairwise_map.mp hdistinct).filterMap planFile ?_
    intro first second hne file hfile other hother
    obtain ⟨_, rfl, _⟩ := planFile_eq_some_iff.mp hfile
    obtain ⟨_, rfl, _⟩ := planFile_eq_some_iff.mp hother
    exact hne
  · simp only [List.mem_filterMap, planFile_eq_some_iff, hperm.mem_iff]
    constructor
    · rintro ⟨entry, hentry, bytes, rfl, hsuffix⟩
      exact ⟨entries, bytes, hlocate, hentry, hsuffix⟩
    · rintro ⟨others, bytes, hothers, hentry, hsuffix⟩
      cases hlocate.symm.trans hothers
      exact ⟨_, hentry, bytes, rfl, hsuffix⟩
  · rw [names, hlisted, List.map_filterMap]
    simp only [nameOfEntry_eq_map_stem]

/-- Where the entries of a directory stand by name, and the plans as well, the plans are listed in
this order. -/
theorem names_of_pairwise {plans : PlanDirectory} {entries : List (String × FileTree)}
    (hlocate : plans.disk.locate plans.path = .ok (.directory entries))
    (hsorted : entries.Pairwise fun first second ↦ first.1 ≤ second.1)
    (hnames : (entries.filterMap nameOfEntry).Pairwise (· ≤ ·)) :
    plans.names = .ok (entries.filterMap nameOfEntry) := by
  rw [names, Disk.listDirectory_of_pairwise hlocate hsorted]
  exact congrArg Except.ok (sortNames_of_pairwise hnames)

/-- Plan directories with the same plan files have the same plans. -/
theorem exists_names_eq_ok_of_hasPlanFile {plans others : PlanDirectory}
    (hformed : plans.disk.root.WellFormed) (hformed' : others.disk.root.WellFormed)
    (hdirectory : plans.disk.isDirectory plans.path = true)
    (hdirectory' : others.disk.isDirectory others.path = true)
    (hfiles : ∀ file, plans.HasPlanFile file ↔ others.HasPlanFile file) :
    ∃ names, plans.names = .ok names ∧ others.names = .ok names ∧
      ∀ name ∈ names, ∃ file, plans.HasPlanFile file ∧ name = Path.stem file := by
  obtain ⟨files, hdistinct, hmem, hnames⟩ := exists_names_eq_ok plans hformed hdirectory
  obtain ⟨found, hdistinct', hmem', hnames'⟩ := exists_names_eq_ok others hformed' hdirectory'
  have hperm : found.Perm files :=
    (List.perm_ext_iff_of_nodup hdistinct' hdistinct).mpr fun file ↦ by
      rw [hmem', hmem, hfiles]
  rw [sortNames_eq_of_perm (hperm.map Path.stem)] at hnames'
  refine ⟨_, hnames, hnames', fun name hname ↦ ?_⟩
  obtain ⟨file, hfile, hstem⟩ := List.mem_map.mp (mem_sortNames.mp hname)
  exact ⟨file, (hmem file).mp hfile, hstem.symm⟩

/-! ### Listing plans and reading them -/

variable {plans : PlanDirectory} {name file : String} {names : List String}
variable {listed : List (String × FileTree)}

/-- The name of the file of a plan. -/
def fileOf (name : String) : String :=
  name ++ "." ++ fileSuffix

theorem fileOf_eq (name : String) : fileOf name = name ++ ".yaml" :=
  String.append_assoc

theorem toList_fileOf (name : String) :
    (fileOf name).toList = name.toList ++ ['.', 'y', 'a', 'm', 'l'] := by
  rw [fileOf_eq, String.toList_append]
  rfl

/-- The name of a plan's file is longer than those that stand for directories on a path. -/
theorem toList_fileOf_ne {piece : List Char} (hshort : piece.length < 5) :
    (fileOf name).toList ≠ piece := by
  rintro rfl
  rw [toList_fileOf, List.length_append] at hshort
  exact absurd hshort (Nat.not_lt_of_le (Nat.le_add_left 5 _))

/-- The file of a plan can be an entry of a directory. -/
theorem isEntryName_fileOf (hslash : '/' ∉ name.toList) : IsEntryName (fileOf name) := by
  refine ⟨?_, ?_, fun habove ↦ toList_fileOf_ne (by decide) (congrArg String.toList habove)⟩
  · rw [toList_fileOf, List.mem_append]
    exact not_or.mpr ⟨hslash, by decide⟩
  · rw [Path.isSilent, Bool.or_eq_false_iff, decide_eq_false_iff_not, decide_eq_false_iff_not]
    exact ⟨toList_fileOf_ne (by decide), toList_fileOf_ne (by decide)⟩

/-- Only the plans of a directory are listed. -/
theorem isDirectory_of_names (hnames : plans.names = .ok names) :
    plans.disk.isDirectory plans.path = true := by
  rw [PlanDirectory.names] at hnames
  split at hnames
  · cases hnames
  · next listed hlisted =>
    obtain ⟨entries, hlocate, _⟩ := (Disk.lists_of_listDirectory hlisted).located
    exact Disk.isDirectory_iff.mpr ⟨entries, hlocate⟩

/-- The file of a plan with a name is cut into the name and the suffix, whatever dots the name
has. -/
theorem cutAtLastDot_fileOf (hname : name ≠ "") :
    Path.cutAtLastDot (fileOf name) = (name, some fileSuffix) := by
  have habove : fileOf name ≠ ".." := fun habove ↦
    toList_fileOf_ne (by decide) (congrArg String.toList habove)
  exact Path.cutAtLastDot_eq_some_iff.mpr ⟨hname, by decide, habove, rfl⟩

/-- A file with the suffix is that of the plan that it is listed under, and the name of this plan is
not empty. -/
theorem fileOf_stem (hsuffix : Path.suffix file = some fileSuffix) :
    Path.stem file ≠ "" ∧ fileOf (Path.stem file) = file := by
  obtain ⟨hstem, _, _, hfile⟩ :=
    Path.cutAtLastDot_eq_some_iff.mp (Path.suffix_and_stem_iff.mp ⟨hsuffix, rfl⟩)
  exact ⟨hstem, hfile.symm⟩

theorem stem_fileOf (hname : name ≠ "") : Path.stem (fileOf name) = name :=
  congrArg Prod.fst (cutAtLastDot_fileOf hname)

/-- The plan files of a directory are the files in it whose names are made of the name of a plan,
which is not empty, and the suffix. -/
theorem hasPlanFile_iff (hlists : plans.disk.Lists plans.path listed) :
    plans.HasPlanFile file ↔
      ∃ name bytes, name ≠ "" ∧ file = fileOf name ∧ (file, .file bytes) ∈ listed := by
  obtain ⟨entries, hlocate, hperm⟩ := hlists.located
  simp only [hperm.mem_iff]
  constructor
  · rintro ⟨others, bytes, hothers, hentry, hsuffix⟩
    cases hlocate.symm.trans hothers
    obtain ⟨hstem, hfile⟩ := fileOf_stem hsuffix
    exact ⟨Path.stem file, bytes, hstem, hfile.symm, hentry⟩
  · rintro ⟨name, bytes, hname, rfl, hentry⟩
    exact ⟨entries, bytes, hlocate, hentry, congrArg Prod.snd (cutAtLastDot_fileOf hname)⟩

/-- The plans of a directory are those with a name and a file, each listed once and in order. -/
theorem ascending_and_mem_names_iff (hformed : plans.disk.root.WellFormed)
    (hnames : plans.names = .ok names) :
    Ascending names ∧ ∀ name, name ∈ names ↔ name ≠ "" ∧ plans.HasPlanFile (fileOf name) := by
  obtain ⟨files, hdistinct, hfiles, hsorted⟩ :=
    exists_names_eq_ok plans hformed (isDirectory_of_names hnames)
  cases hnames.symm.trans hsorted
  have hcut : ∀ file ∈ files, Path.stem file ≠ "" ∧ fileOf (Path.stem file) = file := by
    intro file hfile
    obtain ⟨_, _, _, _, hsuffix⟩ := (hfiles file).mp hfile
    exact fileOf_stem hsuffix
  constructor
  · have hstems : (files.map Path.stem).Nodup := by
      refine hdistinct.map_on fun first hfirst second hsecond hsame ↦ ?_
      rw [← (hcut first hfirst).2, hsame, (hcut second hsecond).2]
    exact ascending_of_nodup (pairwise_sortNames _) ((List.mergeSort_perm _ _).nodup_iff.mpr hstems)
  · intro name
    rw [mem_sortNames, List.mem_map]
    constructor
    · rintro ⟨file, hfile, rfl⟩
      obtain ⟨hstem, hwhole⟩ := hcut file hfile
      exact ⟨hstem, hwhole.symm ▸ (hfiles file).mp hfile⟩
    · rintro ⟨hname, hfile⟩
      exact ⟨fileOf name, (hfiles _).mpr hfile, stem_fileOf hname⟩

/-- Without a slash in its name, a plan has the path of the file of this name in the directory. -/
theorem isFile_pathOf_iff (hformed : plans.disk.root.WellFormed)
    (hlists : plans.disk.Lists plans.path listed) (hslash : '/' ∉ name.toList) :
    plans.disk.isFile (plans.pathOf name) = true ↔
      ∃ bytes, (fileOf name, .file bytes) ∈ listed := by
  obtain ⟨entries, hlocate, hperm⟩ := hlists.located
  simp only [Disk.isFile_iff, hperm.mem_iff]
  exact exists_congr fun bytes ↦
    Disk.locate_join_eq_ok_iff hformed hlocate (isEntryName_fileOf hslash)

/-- The file of a plan stands right inside the directory when the path of the plan is that of a
file, unless a slash in the name leads further down. -/
theorem hasPlanFile_fileOf_iff (hformed : plans.disk.root.WellFormed)
    (hlists : plans.disk.Lists plans.path listed) (hname : name ≠ "") :
    plans.HasPlanFile (fileOf name) ↔
      '/' ∉ name.toList ∧ plans.disk.isFile (plans.pathOf name) = true := by
  rw [hasPlanFile_iff hlists]
  constructor
  · rintro ⟨_, bytes, _, _, hentry⟩
    have hslash : '/' ∉ name.toList := by
      have hwhole : '/' ∉ (fileOf name).toList := ((hlists.names hformed).2 _ hentry).1
      rw [toList_fileOf, List.mem_append] at hwhole
      exact fun hmem ↦ hwhole (.inl hmem)
    exact ⟨hslash, (isFile_pathOf_iff hformed hlists hslash).mpr ⟨bytes, hentry⟩⟩
  · rintro ⟨hslash, hfile⟩
    obtain ⟨bytes, hentry⟩ := (isFile_pathOf_iff hformed hlists hslash).mp hfile
    exact ⟨name, bytes, hname, rfl, hentry⟩

/-- A plan whose path is that of a file is found. -/
theorem read_ne_notFound (hfile : plans.disk.isFile (plans.pathOf name) = true) (missing : String)
    (path : Path) : plans.read name ≠ .error (.notFound missing path) := by
  intro hread
  simp only [read, hfile, if_true] at hread
  split at hread
  · cases hread
  · split at hread <;> cases hread

/-- Of the entries of a directory, those that the listed plans have their names from are the files
with the suffix behind a name that is not empty. -/
theorem listed_iff (hformed : plans.disk.root.WellFormed)
    (hlists : plans.disk.Lists plans.path listed) (hnames : plans.names = .ok names)
    {entry : String × FileTree} (hentry : entry ∈ listed) :
    (∃ name ∈ names, entry.1 = fileOf name) ↔
      ∃ name bytes, name ≠ "" ∧ entry = (fileOf name, .file bytes) := by
  obtain ⟨_, hmem⟩ := ascending_and_mem_names_iff hformed hnames
  constructor
  · rintro ⟨name, hname, hfile⟩
    obtain ⟨hsome, hplan⟩ := (hmem name).mp hname
    obtain ⟨_, bytes, _, _, hfound⟩ := (hasPlanFile_iff hlists).mp hplan
    -- no two entries have the same name
    have hsame : entry = (fileOf name, .file bytes) :=
      List.inj_on_of_nodup_map (hlists.names hformed).1 hentry hfound hfile
    exact ⟨name, bytes, hsome, hsame⟩
  · rintro ⟨name, bytes, hsome, rfl⟩
    have hplan : plans.HasPlanFile (fileOf name) :=
      (hasPlanFile_iff hlists).mpr ⟨name, bytes, hsome, rfl, hentry⟩
    exact ⟨name, (hmem name).mpr ⟨hsome, hplan⟩, rfl⟩

/-- The plans of a directory that can be listed have names in ascending order. A name is listed
exactly when it is not empty, has no slash in it, and the path of the plan of this name is that of a
file, so that no listed plan is reported as not found, whatever dots its name has. The entries of
the directory that listed plans have their names from are the files with the suffix behind a name
that is not empty, and no others. -/
theorem names_iff_isFile_pathOf (plans : PlanDirectory) (hformed : plans.disk.root.WellFormed)
    {listed : List (String × FileTree)}
    (hlisted : plans.disk.listDirectory plans.path = .ok listed) :
    ∃ names, plans.names = .ok names ∧ Ascending names ∧
      (∀ name, name ∈ names ↔
        name ≠ "" ∧ '/' ∉ name.toList ∧ plans.disk.isFile (plans.pathOf name) = true) ∧
      (∀ name ∈ names, ∀ missing path, plans.read name ≠ .error (.notFound missing path)) ∧
      ∀ entry ∈ listed, (∃ name ∈ names, entry.1 = name ++ ".yaml") ↔
        ∃ name bytes, name ≠ "" ∧ entry = (name ++ ".yaml", .file bytes) := by
  have hlists : plans.disk.Lists plans.path listed := Disk.lists_of_listDirectory hlisted
  have hnames : plans.names = .ok (sortNames (listed.filterMap nameOfEntry)) := by
    rw [PlanDirectory.names, hlisted]
  obtain ⟨hascending, hmem⟩ := ascending_and_mem_names_iff hformed hnames
  have hfound (name : String) : name ∈ sortNames (listed.filterMap nameOfEntry) ↔
      name ≠ "" ∧ '/' ∉ name.toList ∧ plans.disk.isFile (plans.pathOf name) = true := by
    rw [hmem]
    exact and_congr_right fun hname ↦ hasPlanFile_fileOf_iff hformed hlists hname
  refine ⟨_, hnames, hascending, hfound, fun name hname ↦ ?_, fun entry hentry ↦ ?_⟩
  · exact read_ne_notFound ((hfound name).mp hname).2.2
  · have hiff := listed_iff hformed hlists hnames hentry
    simpa only [fileOf_eq] using hiff

/-! ### Plans with dots in their names -/

/-- The entries of a directory with three plans, whose names are made of dots, begin with one, or
have one inside. The other entries are files with nothing before the suffix, with another suffix or
with more behind it, and directories. -/
def dottedEntries : List (String × FileTree) :=
  [("..yaml", .file []), (".x.yaml", .file []), (".yaml", .file []), ("a.YAML", .file []),
    ("a.b.yaml", .file []), ("a.yaml.bak", .file []),
    ("sub", .directory [("c.yaml", .file [])]), ("x.yaml", .directory [])]

/-- That directory, below the root. -/
def dottedPlans : PlanDirectory :=
  ⟨⟨.directory [("plans", .directory dottedEntries)], []⟩, "plans"⟩

theorem wellFormed_dottedPlans : dottedPlans.disk.root.WellFormed := by
  refine .cons (by decide) (by decide) (.directory (by decide) (by decide) ?_) .empty
  simp only [dottedEntries, List.forall_mem_cons]
  exact ⟨.file _, .file _, .file _, .file _, .file _, .file _,
    .cons (by decide) (by decide) (.file _) .empty, .empty, List.forall_mem_nil _⟩

/-- Three plans are listed, and all of them are found. The file in the directory below has the path
of a plan, but its name has a slash. -/
theorem names_iff_isFile_pathOf_dottedPlans :
    dottedPlans.names = .ok [".", ".x", "a.b"] ∧
      (∀ name ∈ [".", ".x", "a.b"], ∀ missing path,
        dottedPlans.read name ≠ .error (.notFound missing path)) ∧
      dottedPlans.disk.isFile (dottedPlans.pathOf "sub/c") = true := by
  have hlocate : dottedPlans.disk.locate dottedPlans.path = .ok (.directory dottedEntries) := rfl
  have hsorted : dottedEntries.Pairwise fun first second ↦ first.1 ≤ second.1 := by decide
  have hfound : dottedEntries.filterMap nameOfEntry = [".", ".x", "a.b"] := by decide
  have hthree : dottedPlans.names = .ok [".", ".x", "a.b"] :=
    hfound ▸ names_of_pairwise hlocate hsorted (by decide)
  obtain ⟨names, hnames, _, _, hread, _⟩ := names_iff_isFile_pathOf dottedPlans
    wellFormed_dottedPlans (Disk.listDirectory_of_pairwise hlocate hsorted)
  cases hnames.symm.trans hthree
  exact ⟨hthree, hread, by rfl⟩

end PlanDirectory

end Roster
