import Mathlib.Data.List.Nodup
import Roster.Proofs.File.Walks
import Roster.Proofs.Source.ScrapedDeclarations

/-!
# The targets of a scrape

The targets of a source tree are those of the expanded roots in their order, and below each root the
directories right inside its base, by name. `Source.IsTarget`, `Source.TargetsBelow` and
`Source.Targets` say this of a directory, of a root and of all roots, each target with its source
files by name.

In a tree as file systems have them, in which each root that exists is a directory, the file system
refuses nothing: there are targets, and reading the declarations below the roots is one pass over
them (`Source.exists_targets`). There is only one list of them (`Source.Targets.unique`).
-/

set_option autoImplicit false
set_option relaxedAutoImplicit false

namespace Roster

/-! ### Listing directories -/

namespace Disk

variable {disk : Disk} {path : Path} {entries others : List (String × FileTree)}

theorem isDirectory_iff :
    disk.isDirectory path = true ↔ ∃ entries, disk.locate path = .ok (.directory entries) := by
  rw [isDirectory]
  split
  · next entries hlocate => exact ⟨fun _ ↦ ⟨entries, hlocate⟩, fun _ ↦ rfl⟩
  · next hother =>
    refine ⟨fun hdirectory ↦ (Bool.false_ne_true hdirectory).elim, ?_⟩
    rintro ⟨entries, hlocate⟩
    exact (hother entries hlocate).elim

theorem isFile_iff :
    disk.isFile path = true ↔ ∃ bytes, disk.locate path = .ok (.file bytes) := by
  rw [isFile]
  split
  · next bytes hlocate => exact ⟨fun _ ↦ ⟨bytes, hlocate⟩, fun _ ↦ rfl⟩
  · next hother =>
    refine ⟨fun hfile ↦ (Bool.false_ne_true hfile).elim, ?_⟩
    rintro ⟨bytes, hlocate⟩
    exact (hother bytes hlocate).elim

theorem exists?_iff : disk.exists? path = true ↔ ∃ tree, disk.locate path = .ok tree := by
  rw [exists?]
  cases disk.locate path <;> simp

/-- A directory can be listed. -/
theorem exists_listDirectory (hdirectory : disk.isDirectory path = true) :
    ∃ entries, disk.listDirectory path = .ok entries := by
  obtain ⟨entries, hlocate⟩ := isDirectory_iff.mp hdirectory
  rw [listDirectory, hlocate]
  exact ⟨_, rfl⟩

/-- The entries of a directory that stand by name are listed as they stand. -/
theorem listDirectory_of_pairwise (hlocate : disk.locate path = .ok (.directory entries))
    (hsorted : entries.Pairwise fun first second ↦ first.1 ≤ second.1) :
    disk.listDirectory path = .ok entries := by
  rw [listDirectory, hlocate]
  exact congrArg Except.ok
    (List.mergeSort_of_pairwise (hsorted.imp fun hle ↦ decide_eq_true hle))

/-- The entries of a directory have different names, all of which are names of entries. -/
theorem Lists.names (hformed : disk.root.WellFormed) (hlists : disk.Lists path entries) :
    (entries.map Prod.fst).Nodup ∧ ∀ entry ∈ entries, IsEntryName entry.1 := by
  obtain ⟨inside, hlocate, hperm⟩ := hlists.located
  obtain ⟨place, _, hget⟩ := locate_eq_ok_iff.mp hlocate
  cases hformed.of_get? hget with
  | directory hdistinct hnames =>
    exact ⟨(hperm.map Prod.fst).nodup_iff.mpr hdistinct,
      fun entry hentry ↦ hnames entry (hperm.subset hentry)⟩

/-- The entries of a directory, whatever the spelling of its path, stand by name in one way, because
their names are different. -/
theorem Lists.unique (hformed : disk.root.WellFormed) {other : Path} (hpath : path.SameAs other)
    (hlists : disk.Lists path entries) (hothers : disk.Lists other others) : entries = others := by
  obtain ⟨inside, hlocate, hperm⟩ := hlists.located
  obtain ⟨inside', hlocate', hperm'⟩ := hothers.located
  cases locate_eq_of_sameAs hpath hlocate hlocate'
  obtain ⟨hdistinct, _⟩ := hlists.names hformed
  have htogether : entries.Perm others := hperm.trans hperm'.symm
  refine htogether.eq_of_pairwise ?_ hlists.ordered hothers.ordered
  intro first second hfirst hsecond hle hge
  exact List.inj_on_of_nodup_map hdistinct hfirst (htogether.symm.subset hsecond)
    (String.le_antisymm hle hge)

end Disk

namespace Source

/-! ### The targets of a source tree -/

/-- A directory with its source files, by name. -/
def IsTarget (disk : Disk) (suffixes : List String) (path : Path) (target : Target) : Prop :=
  ∃ entries, disk.Lists path entries ∧ target = ⟨path, sourceFiles suffixes path entries⟩

/-- The paths of the directories among the entries of a directory. -/
def directoriesAmong (path : Path) (entries : List (String × FileTree)) : List Path :=
  (entries.filter fun entry ↦ entry.2.isDirectory).map fun entry ↦ path.join entry.1

/-- The targets below a root: the directories right inside its base, by name. -/
inductive TargetsBelow (disk : Disk) (suffixes : List String) (root : Path) : List Target → Prop
  /-- The root does not exist. -/
  | missing (habsent : disk.exists? root = false) : TargetsBelow disk suffixes root []
  /-- The root has a base. -/
  | present {base : Path} {entries : List (String × FileTree)} {targets : List Target}
      (hbase : baseOf disk root = .ok (some base)) (hlists : disk.Lists base entries)
      (htargets : List.Forall₂ (IsTarget disk suffixes) (directoriesAmong base entries) targets) :
      TargetsBelow disk suffixes root targets

/-- The targets below all that a list of roots stands for, in the order in which they are read. -/
inductive Targets (disk : Disk) (suffixes : List String) (roots : List Path) : List Target → Prop
  /-- The roots stand for others, or for themselves. -/
  | below {expanded : List Path} {found : List (List Target)}
      (hexpanded : expandRoots disk roots = .ok expanded)
      (hfound : List.Forall₂ (TargetsBelow disk suffixes) expanded found) :
      Targets disk suffixes roots found.flatten

variable {disk : Disk} {suffixes : List String} {path root : Path} {target : Target}

theorem IsTarget.self (htarget : IsTarget disk suffixes path target) :
    IsTarget disk suffixes target.path target := by
  obtain ⟨entries, hlists, rfl⟩ := htarget
  exact ⟨entries, hlists, rfl⟩

theorem TargetsBelow.isTarget {targets : List Target}
    (htargets : TargetsBelow disk suffixes root targets) :
    ∀ target ∈ targets, IsTarget disk suffixes target.path target := by
  cases htargets with
  | missing => exact List.forall_mem_nil _
  | present _ _ htargets => exact forall_mem_of_forall₂ (fun _ _ ↦ IsTarget.self) htargets

/-- Each target is what its path says. -/
theorem Targets.isTarget {roots : List Path} {targets : List Target}
    (htargets : Targets disk suffixes roots targets) :
    ∀ target ∈ targets, IsTarget disk suffixes target.path target := by
  cases htargets with
  | @below _ found _ hfound =>
    have hgroups : ∀ group ∈ found, ∀ target ∈ group, IsTarget disk suffixes target.path target :=
      forall_mem_of_forall₂ (fun _ _ hbelow ↦ hbelow.isTarget) hfound
    intro target htarget
    obtain ⟨group, hgroup, hmem⟩ := List.mem_flatten.mp htarget
    exact hgroups group hgroup target hmem

/-! ### There is one list of targets -/

theorem IsTarget.unique (hformed : disk.root.WellFormed) :
    Relator.RightUnique (IsTarget disk suffixes) := by
  intro path target other htarget hother
  obtain ⟨entries, hlists, rfl⟩ := htarget
  obtain ⟨others, hothers, rfl⟩ := hother
  rw [hlists.unique hformed rfl hothers]

/-- A root that has a base exists. -/
theorem exists?_of_baseOf_eq_some {base : Path} (hbase : baseOf disk root = .ok (some base)) :
    disk.exists? root = true := by
  rw [baseOf] at hbase
  split at hbase
  · assumption
  · cases hbase

theorem TargetsBelow.unique (hformed : disk.root.WellFormed) :
    Relator.RightUnique (TargetsBelow disk suffixes) := by
  intro root targets others htargets hothers
  cases htargets with
  | missing habsent =>
    cases hothers with
    | missing => rfl
    | present hbase =>
      rw [exists?_of_baseOf_eq_some hbase] at habsent
      cases habsent
  | present hbase hlists htargets =>
    cases hothers with
    | missing habsent =>
      rw [exists?_of_baseOf_eq_some hbase] at habsent
      cases habsent
    | present hbase' hlists' hothers =>
      cases hbase.symm.trans hbase'
      cases hlists.unique hformed rfl hlists'
      exact List.right_unique_forall₂' (IsTarget.unique hformed) htargets hothers

theorem Targets.unique (hformed : disk.root.WellFormed) {roots : List Path}
    {targets others : List Target} (htargets : Targets disk suffixes roots targets)
    (hothers : Targets disk suffixes roots others) : targets = others := by
  cases htargets with
  | below hexpanded hfound =>
    cases hothers with
    | below hexpanded' hfound' =>
      cases hexpanded.symm.trans hexpanded'
      rw [List.right_unique_forall₂' (TargetsBelow.unique hformed) hfound hfound']

/-! ### The file system refuses nothing -/

/-- The directories among the entries of a directory are found. -/
theorem isDirectory_of_mem_directoriesAmong (hformed : disk.root.WellFormed)
    {entries : List (String × FileTree)} (hlists : disk.Lists path entries) {other : Path}
    (hother : other ∈ directoriesAmong path entries) : disk.isDirectory other = true := by
  obtain ⟨⟨name, tree⟩, hentry, rfl⟩ := List.mem_map.mp hother
  obtain ⟨hmem, htree⟩ := List.mem_filter.mp hentry
  obtain ⟨inside, hlocate, hperm⟩ := hlists.located
  cases tree with
  | file => cases htree
  | directory below =>
    exact Disk.isDirectory_iff.mpr ⟨below, Disk.locate_join hformed hlocate (hperm.subset hmem)⟩

/-- The subdirectories of a directory are those among its entries, by name. -/
theorem exists_subdirectories (hdirectory : disk.isDirectory path = true) :
    ∃ entries, disk.Lists path entries ∧
      subdirectories disk path = .ok (directoriesAmong path entries) := by
  obtain ⟨entries, hentries⟩ := Disk.exists_listDirectory hdirectory
  refine ⟨entries, Disk.lists_of_listDirectory hentries, ?_⟩
  rw [subdirectories, hentries, directoriesAmong]

/-- A path that leads to a directory if it leads anywhere. -/
def IsRoot (disk : Disk) (root : Path) : Prop :=
  disk.exists? root = true → disk.isDirectory root = true

/-- A root stands for roots. -/
theorem exists_expandRoot (hformed : disk.root.WellFormed) (hroot : IsRoot disk root) :
    ∃ expanded, expandRoot disk root = .ok expanded ∧ ∀ other ∈ expanded, IsRoot disk other := by
  have hitself : ∀ other ∈ [root], IsRoot disk other := List.forall_mem_singleton.mpr hroot
  rw [expandRoot]
  split
  · split
    · next parent _ =>
      split
      · next hdirectory =>
        obtain ⟨entries, hlists, hsubdirectories⟩ := exists_subdirectories hdirectory
        exact ⟨_, hsubdirectories, fun other hother _ ↦
          isDirectory_of_mem_directoriesAmong hformed hlists hother⟩
      · exact ⟨[], rfl, List.forall_mem_nil _⟩
    · exact ⟨[root], rfl, hitself⟩
  · exact ⟨[root], rfl, hitself⟩

theorem exists_expandRoots (hformed : disk.root.WellFormed) {roots : List Path}
    (hroots : ∀ root ∈ roots, IsRoot disk root) :
    ∃ expanded, expandRoots disk roots = .ok expanded ∧ ∀ root ∈ expanded, IsRoot disk root := by
  have hruns : ∀ root ∈ roots, ∃ expanded, expandRoot disk root = .ok expanded := fun root hroot ↦
    (exists_expandRoot hformed (hroots root hroot)).imp fun _ hexpanded ↦ hexpanded.1
  obtain ⟨expanded, hexpanded⟩ := exists_mapM_eq_ok hruns
  refine ⟨expanded.flatten, by rw [expandRoots, hexpanded]; rfl, ?_⟩
  intro other hother
  obtain ⟨group, hgroup, hmem⟩ := List.mem_flatten.mp hother
  obtain ⟨root, hroot, hrun⟩ := (mem_of_mapM_eq_ok hexpanded group).mp hgroup
  obtain ⟨group', hrun', hroots'⟩ := exists_expandRoot hformed (hroots root hroot)
  cases hrun.symm.trans hrun'
  exact hroots' other hmem

/-- A directory has a base, which is a directory. -/
theorem exists_baseOf (hformed : disk.root.WellFormed) (hdirectory : disk.isDirectory root = true) :
    ∃ base, baseOf disk root = .ok (some base) ∧ disk.isDirectory base = true := by
  obtain ⟨entries, hlocate⟩ := Disk.isDirectory_iff.mp hdirectory
  have hexists : disk.exists? root = true := Disk.exists?_iff.mpr ⟨_, hlocate⟩
  obtain ⟨absolute, habsolute, hthere⟩ := Disk.exists_absolutePath hformed hlocate
  rw [baseOf, if_pos hexists, habsolute]
  by_cases htests : disk.isDirectory (absolute.join testsDirectory) = true
  · exact ⟨absolute.join testsDirectory, by simp only [htests, if_true], htests⟩
  · exact ⟨absolute, by simp only [htests, if_false, Bool.false_eq_true],
      Disk.isDirectory_iff.mpr ⟨entries, hthere⟩⟩

/-- A directory is a target. -/
theorem exists_targetAt (suffixes : List String) (hdirectory : disk.isDirectory path = true) :
    ∃ target, targetAt disk suffixes path = .ok target := by
  obtain ⟨entries, hentries⟩ := Disk.exists_listDirectory hdirectory
  rw [targetAt, hentries]
  exact ⟨_, rfl⟩

theorem isTarget_of_targetAt (htarget : targetAt disk suffixes path = .ok target) :
    IsTarget disk suffixes path target :=
  exists_lists_of_targetAt htarget

/-! ### One pass over the targets -/

/-- Reading the declarations below a root is a pass over its targets. -/
theorem exists_targetsBelow (hformed : disk.root.WellFormed) (suffixes : List String)
    (hroot : IsRoot disk root) :
    ∃ targets, TargetsBelow disk suffixes root targets ∧
      declarationsBelow disk suffixes root =
        (targets.mapM Target.declarations).map List.flatten := by
  by_cases hexists : disk.exists? root = true
  · obtain ⟨base, hbase, hdirectory⟩ := exists_baseOf hformed (hroot hexists)
    obtain ⟨entries, hlists, hpaths⟩ := exists_subdirectories hdirectory
    have hruns : ∀ other ∈ directoriesAmong base entries,
        ∃ target, targetAt disk suffixes other = .ok target := fun other hother ↦
      exists_targetAt suffixes (isDirectory_of_mem_directoriesAmong hformed hlists hother)
    obtain ⟨targets, htargets⟩ := exists_mapM_eq_ok hruns
    have hpairs := mapM_eq_ok_iff.mp htargets
    refine ⟨targets, .present hbase hlists (hpairs.imp fun _ _ ↦ isTarget_of_targetAt), ?_⟩
    rw [declarationsBelow, hbase]
    show (subdirectories disk base >>= fun paths ↦
      (paths.mapM fun path ↦ targetAt disk suffixes path >>= Target.declarations) >>=
        fun found ↦ pure found.flatten) = _
    rw [hpaths]
    show ((directoriesAmong base entries).mapM
      (fun path ↦ targetAt disk suffixes path >>= Target.declarations) >>=
        fun found ↦ pure found.flatten) = _
    rw [mapM_bind_of_forall₂ hpairs]
    cases targets.mapM Target.declarations <;> rfl
  · have habsent : disk.exists? root = false := Bool.not_eq_true _ ▸ hexists
    refine ⟨[], .missing habsent, ?_⟩
    rw [declarationsBelow, baseOf, if_neg hexists]
    rfl

/-- There are targets, and reading the declarations below the roots is one pass over them. -/
theorem exists_targets (hformed : disk.root.WellFormed) (suffixes : List String)
    {roots : List Path} (hroots : ∀ root ∈ roots, IsRoot disk root) :
    ∃ targets, Targets disk suffixes roots targets ∧
      declarationsOfRoots disk suffixes roots =
        (targets.mapM Target.declarations).map List.flatten := by
  obtain ⟨expanded, hexpanded, hbelow⟩ := exists_expandRoots hformed hroots
  have hruns : ∀ root ∈ expanded, ∃ targets, TargetsBelow disk suffixes root targets ∧
      declarationsBelow disk suffixes root = (targets.mapM Target.declarations).map List.flatten :=
    fun root hroot ↦ exists_targetsBelow hformed suffixes (hbelow root hroot)
  obtain ⟨found, hfound⟩ := exists_forall₂ hruns
  refine ⟨found.flatten, .below hexpanded (hfound.imp fun _ _ hboth ↦ hboth.1), ?_⟩
  rw [declarationsOfRoots, hexpanded,
    ← map_flatten_mapM_of_forall₂ (hfound.imp fun _ _ hboth ↦ hboth.2)]
  show (expanded.mapM (declarationsBelow disk suffixes) >>= fun found ↦ pure found.flatten) = _
  cases expanded.mapM (declarationsBelow disk suffixes) <;> rfl

end Source

end Roster
