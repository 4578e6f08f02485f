import Mathlib.Data.List.ReduceOption
import Roster.Proofs.File.CanonicalPaths
import Roster.Proofs.Source.LineScanner
import Roster.Proofs.Source.RootOrder
import Roster.Proofs.Source.ScrapedClassnames

/-!
# Where declarations stand

The roots of a scrape have bases, which are canonical paths (`Source.isCanonical_of_baseOf`). What
is declared below a root stands in files two levels below its base
(`Source.DeclaredBelow.standsBelow`), so that a file tells the base that it stands below
(`Source.StandsBelow.unique`).

Below one base no two declarations stand on one line of one file (`Source.DeclaredBelow.apart`). The
lines of a file are numbered, and a line gives one declaration at most; the files of a target have
different names, and so have the targets of a base.
-/

set_option autoImplicit false
set_option relaxedAutoImplicit false

namespace Roster

/-! ### Entries of canonical directories -/

namespace Disk.Lists

variable {disk : Disk} {path : Path} {entries : List (String × FileTree)}

/-- The entries of a canonical directory have different paths. -/
theorem pairwise_join_ne (hformed : disk.root.WellFormed) (hlists : disk.Lists path entries)
    (hpath : path.IsCanonical) :
    entries.Pairwise fun first second ↦ path.join first.1 ≠ path.join second.1 := by
  obtain ⟨hdistinct, hnames⟩ := hlists.names hformed
  refine (List.pairwise_map.mp hdistinct).imp_of_mem fun {first second} hfirst hsecond hne ↦ ?_
  exact fun hsame ↦
    hne (hpath.join_inj hpath (hnames first hfirst) (hnames second hsecond) hsame).2

end Disk.Lists

/-! ### Declarations that stand apart -/

/-- Two declarations that stand in different files, or on different lines. -/
def Declaration.Apart (first second : Declaration) : Prop :=
  first.location.file ≠ second.location.file ∨ first.location.line ≠ second.location.line

instance : Std.Symm Declaration.Apart :=
  ⟨fun _ _ hapart ↦ hapart.imp Ne.symm Ne.symm⟩

/-- Declarations that stand apart are different. -/
theorem Declaration.Apart.ne {first second : Declaration} (hapart : first.Apart second) :
    first ≠ second := by
  rintro rfl
  rcases hapart with hfile | hline
  · exact hfile rfl
  · exact hline rfl

namespace Source

theorem file_of_mem_declarationsOf {content : String} {file : Path} {classname : String} :
    ∀ declaration ∈ declarationsOf content file classname, declaration.location.file = file := by
  intro declaration hdeclaration
  have hkeyed := declarationsFrom_keyedWith declaration hdeclaration
  cases declaration with
  | test key location => exact hkeyed.1
  | unresolved location => exact hkeyed

/-- The declarations of a file stand on different lines. -/
theorem pairwise_apart_declarationsOf (content : String) (file : Path) (classname : String) :
    (declarationsOf content file classname).Pairwise Declaration.Apart := by
  have hlines := pairwise_line_declarationsOf content file classname
  exact (List.pairwise_map.mp hlines).imp fun hbefore ↦ .inr (Nat.ne_of_lt hbefore)

/-! ### The files of a target -/

variable {disk : Disk} {suffixes : List String} {path root base : Path}
variable {declarations : List Declaration}

/-- The source files of a directory are some of its entries. -/
theorem map_path_sourceFiles_sublist (suffixes : List String) (directory : Path)
    (entries : List (String × FileTree)) :
    ((sourceFiles suffixes directory entries).map SourceFile.path).Sublist
      (entries.map fun entry ↦ directory.join entry.1) := by
  induction entries with
  | nil => exact .slnil
  | cons entry rest ih =>
    obtain ⟨name, tree⟩ := entry
    cases tree with
    | directory => exact ih.cons _
    | file bytes =>
      rw [sourceFiles]
      split
      · exact ih.cons_cons _
      · exact ih.cons _

/-- What is declared in a target stands in files right inside it. -/
theorem DeclaredIn.exists_name (hformed : disk.root.WellFormed)
    (hdeclared : DeclaredIn disk suffixes path declarations) :
    ∀ declaration ∈ declarations,
      ∃ name, IsEntryName name ∧ declaration.location.file = path.join name := by
  cases hdeclared with
  | unnamed => exact List.forall_mem_nil _
  | @named entries classname hlists _ =>
    intro declaration hdeclaration
    obtain ⟨file, hfile, hmem⟩ := List.mem_flatMap.mp hdeclaration
    have hpath := (map_path_sourceFiles_sublist suffixes path entries).subset
      (List.mem_map_of_mem hfile)
    obtain ⟨entry, hentry, hjoin⟩ := List.mem_map.mp hpath
    exact ⟨entry.1, (hlists.names hformed).2 entry hentry,
      (file_of_mem_declarationsOf declaration hmem).trans hjoin.symm⟩

/-- The declarations in a target stand apart. -/
theorem DeclaredIn.apart (hformed : disk.root.WellFormed) (hpath : path.IsCanonical)
    (hdeclared : DeclaredIn disk suffixes path declarations) :
    declarations.Pairwise Declaration.Apart := by
  cases hdeclared with
  | unnamed => exact .nil
  | @named entries classname hlists _ =>
    have hpaths : ((sourceFiles suffixes path entries).map SourceFile.path).Nodup :=
      (map_path_sourceFiles_sublist suffixes path entries).nodup
        (List.pairwise_map.mpr (hlists.pairwise_join_ne hformed hpath))
    refine List.pairwise_flatMap.mpr ⟨fun file _ ↦ pairwise_apart_declarationsOf _ _ _, ?_⟩
    refine (List.pairwise_map.mp hpaths).imp fun {file other} hne first hfirst second hsecond ↦ ?_
    left
    rwa [file_of_mem_declarationsOf first hfirst, file_of_mem_declarationsOf second hsecond]

/-! ### The targets of a base -/

/-- A file right inside a directory that is right inside a base. -/
def StandsBelow (base file : Path) : Prop :=
  ∃ target name, IsEntryName target ∧ IsEntryName name ∧ file = (base.join target).join name

/-- A file tells the base that it stands below. -/
theorem StandsBelow.unique {other file : Path} (hbase : base.IsCanonical)
    (hother : other.IsCanonical) (hfile : StandsBelow base file) (hfile' : StandsBelow other file) :
    base = other := by
  obtain ⟨target, name, htarget, hname, rfl⟩ := hfile
  obtain ⟨target', name', htarget', hname', hsame⟩ := hfile'
  obtain ⟨hinside, _⟩ := (hbase.join htarget).join_inj (hother.join htarget') hname hname' hsame
  exact (hbase.join_inj hother htarget htarget' hinside).1

/-- A root that leads to a place has the path of the place as its base, or the one of the directory
of tests there. -/
theorem baseOf_of_place {place : List String} (hexists : disk.exists? root = true)
    (hplace : disk.place root = .ok place) :
    baseOf disk root = .ok (some
      (if disk.isDirectory ((Disk.pathOfPlace place).join testsDirectory) then
        (Disk.pathOfPlace place).join testsDirectory
      else Disk.pathOfPlace place)) := by
  rw [baseOf, if_pos hexists, Disk.absolutePath, hplace]
  rfl

/-- The base of a root is a canonical path. -/
theorem isCanonical_of_baseOf (hformed : disk.root.WellFormed)
    (hbase : baseOf disk root = .ok (some base)) : base.IsCanonical := by
  have hexists : disk.exists? root = true := exists?_of_baseOf_eq_some hbase
  obtain ⟨tree, hlocate⟩ := Disk.exists?_iff.mp hexists
  obtain ⟨place, hplace, hget⟩ := Disk.locate_eq_ok_iff.mp hlocate
  have habsolute : (Disk.pathOfPlace place).IsCanonical := .of_place (hformed.isEntryName hget)
  have htests : IsEntryName "tests" := by decide
  rw [baseOf_of_place hexists hplace] at hbase
  split at hbase
  · cases hbase
    exact habsolute.join htests
  · cases hbase
    exact habsolute

/-- The declarations below a root with a base are those of the targets right inside the base, one
after the other. -/
theorem DeclaredBelow.exists_groups (hformed : disk.root.WellFormed)
    (hdeclared : DeclaredBelow disk suffixes root declarations)
    (hbase : baseOf disk root = .ok (some base)) :
    ∃ (entries : List (String × FileTree)) (groups : List (List Declaration)),
      declarations = groups.flatten ∧
      entries.Pairwise (fun first second ↦ base.join first.1 ≠ base.join second.1) ∧
      List.Forall₂ (fun entry group ↦ IsEntryName entry.1 ∧
        DeclaredIn disk suffixes (base.join entry.1) group) entries groups := by
  cases hdeclared with
  | missing habsent =>
    rw [exists?_of_baseOf_eq_some hbase] at habsent
    cases habsent
  | @present _ entries groups hbase' hlists htargets =>
    cases hbase.symm.trans hbase'
    have hcanonical : base.IsCanonical := isCanonical_of_baseOf hformed hbase
    have hnames : ∀ entry ∈ entries.filter fun entry ↦ entry.2.isDirectory,
        IsEntryName entry.1 := fun entry hentry ↦
      (hlists.names hformed).2 entry (List.mem_filter.mp hentry).1
    exact ⟨_, groups, rfl, (hlists.pairwise_join_ne hformed hcanonical).filter _,
      (List.forall₂_and_left _ _).mpr ⟨hnames, htargets⟩⟩

/-- What is declared below a root with a base stands below the base. -/
theorem DeclaredBelow.standsBelow (hformed : disk.root.WellFormed)
    (hdeclared : DeclaredBelow disk suffixes root declarations)
    (hbase : baseOf disk root = .ok (some base)) :
    ∀ declaration ∈ declarations, StandsBelow base declaration.location.file := by
  obtain ⟨entries, groups, rfl, _, hgroups⟩ := hdeclared.exists_groups hformed hbase
  have hbelow : ∀ group ∈ groups, ∀ declaration ∈ group,
      StandsBelow base declaration.location.file := by
    refine forall_mem_of_forall₂ (fun entry group hentry declaration hmem ↦ ?_) hgroups
    obtain ⟨name, hname, hfile⟩ := hentry.2.exists_name hformed declaration hmem
    exact ⟨entry.1, name, hentry.1, hname, hfile⟩
  intro declaration hdeclaration
  obtain ⟨group, hgroup, hmem⟩ := List.mem_flatten.mp hdeclaration
  exact hbelow group hgroup declaration hmem

/-- The declarations below a root with a base stand apart. -/
theorem DeclaredBelow.apart (hformed : disk.root.WellFormed)
    (hdeclared : DeclaredBelow disk suffixes root declarations)
    (hbase : baseOf disk root = .ok (some base)) : declarations.Pairwise Declaration.Apart := by
  have hcanonical : base.IsCanonical := isCanonical_of_baseOf hformed hbase
  obtain ⟨entries, groups, rfl, hpaths, hgroups⟩ := hdeclared.exists_groups hformed hbase
  refine List.pairwise_flatten.mpr ⟨?_, pairwise_of_forall₂ ?_ hgroups hpaths⟩
  · exact forall_mem_of_forall₂ (fun entry group hentry ↦
      hentry.2.apart hformed (hcanonical.join hentry.1)) hgroups
  · intro entry group other rest hentry hother hne first hfirst second hsecond
    obtain ⟨name, hname, hfile⟩ := hentry.2.exists_name hformed first hfirst
    obtain ⟨last, hlast, hfile'⟩ := hother.2.exists_name hformed second hsecond
    left
    rw [hfile, hfile']
    intro hsame
    exact hne ((hcanonical.join hentry.1).join_inj (hcanonical.join hother.1) hname hlast hsame).1

/-! ### All roots -/

/-- The bases of the roots that a list of roots stands for, in their order. A root that does not
exist has none. -/
def scrapedBases (disk : Disk) (roots : List Path) : Except ScrapeError (List Path) := do
  let expanded ← expandRoots disk roots
  let found ← expanded.mapM (baseOf disk)
  return found.reduceOption

/-- The bases of roots are canonical paths. -/
theorem isCanonical_of_scrapedBases (hformed : disk.root.WellFormed) {roots bases : List Path}
    (hbases : scrapedBases disk roots = .ok bases) : ∀ base ∈ bases, base.IsCanonical := by
  obtain ⟨expanded, _, hrest⟩ := bind_eq_ok_iff.mp hbases
  obtain ⟨found, hfound, hreduced⟩ := bind_eq_ok_iff.mp hrest
  cases hreduced
  intro base hbase
  obtain ⟨root, _, hroot⟩ :=
    (mem_of_mapM_eq_ok hfound _).mp (List.reduceOption_mem_iff.mp hbase)
  exact isCanonical_of_baseOf hformed hroot

/-- The declarations that are read below a root with this base. -/
def ReadBelow (disk : Disk) (suffixes : List String) (base : Path)
    (declarations : List Declaration) : Prop :=
  ∃ root, baseOf disk root = .ok (some base) ∧
    declarationsBelow disk suffixes root = .ok declarations

/-- The base of a root decides what is read below it. -/
theorem ReadBelow.unique : Relator.RightUnique (ReadBelow disk suffixes) := by
  rintro base declarations others ⟨root, hbase, hread⟩ ⟨other, hbase', hread'⟩
  rw [declarationsBelow, hbase] at hread
  rw [declarationsBelow, hbase'] at hread'
  exact Except.ok.inj (hread.symm.trans hread')

theorem ReadBelow.standsBelow (hformed : disk.root.WellFormed)
    (hread : ReadBelow disk suffixes base declarations) :
    ∀ declaration ∈ declarations, StandsBelow base declaration.location.file := by
  obtain ⟨root, hbase, hread⟩ := hread
  exact (declaredBelow_of_declarationsBelow hread).standsBelow hformed hbase

theorem ReadBelow.apart (hformed : disk.root.WellFormed)
    (hread : ReadBelow disk suffixes base declarations) :
    declarations.Pairwise Declaration.Apart := by
  obtain ⟨root, hbase, hread⟩ := hread
  exact (declaredBelow_of_declarationsBelow hread).apart hformed hbase

theorem ReadBelow.isCanonical (hformed : disk.root.WellFormed)
    (hread : ReadBelow disk suffixes base declarations) : base.IsCanonical := by
  obtain ⟨root, hbase, _⟩ := hread
  exact isCanonical_of_baseOf hformed hbase

/-- A file that declares something is read below one base only. -/
theorem ReadBelow.base_unique (hformed : disk.root.WellFormed) {other : Path}
    {others : List Declaration} {first again : Declaration}
    (hread : ReadBelow disk suffixes base declarations)
    (hother : ReadBelow disk suffixes other others) (hfirst : first ∈ declarations)
    (hagain : again ∈ others) (hfile : first.location.file = again.location.file) :
    base = other := by
  have hbelow : StandsBelow base first.location.file := hread.standsBelow hformed first hfirst
  have hbelow' : StandsBelow other again.location.file := hother.standsBelow hformed again hagain
  rw [← hfile] at hbelow'
  exact hbelow.unique (hread.isCanonical hformed) (hother.isCanonical hformed) hbelow'

/-- What is read below roots one by one is read below their bases. A root without a base adds
nothing. -/
theorem exists_readBelow_of_forall₂ {roots : List Path} {groups : List (List Declaration)}
    (hgroups : List.Forall₂ (fun root group ↦ declarationsBelow disk suffixes root = .ok group)
      roots groups) :
    ∃ (found : List (Option Path)) (below : List (List Declaration)),
      roots.mapM (baseOf disk) = .ok found ∧ groups.flatten = below.flatten ∧
        List.Forall₂ (ReadBelow disk suffixes) found.reduceOption below := by
  induction hgroups with
  | nil => exact ⟨[], [], rfl, rfl, .nil⟩
  | @cons root group roots groups hgroup _ ih =>
    obtain ⟨found, below, hfound, hflatten, hreads⟩ := ih
    obtain ⟨base?, hbase, hread⟩ := bind_eq_ok_iff.mp hgroup
    have hbases : (root :: roots).mapM (baseOf disk) = .ok (base? :: found) := by
      rw [mapM_cons_of_eq_ok hbase, hfound]
      rfl
    cases base? with
    | none =>
      cases hread
      exact ⟨_, below, hbases, hflatten, hreads⟩
    | some base =>
      refine ⟨_, group :: below, hbases, ?_, .cons ⟨root, hbase, hgroup⟩ hreads⟩
      rw [List.flatten_cons, List.flatten_cons, hflatten]

/-- What is declared below roots is read below their bases, one after the other. -/
theorem exists_readBelow {roots : List Path}
    (hread : declarationsOfRoots disk suffixes roots = .ok declarations) :
    ∃ (bases : List Path) (groups : List (List Declaration)),
      scrapedBases disk roots = .ok bases ∧ declarations = groups.flatten ∧
        List.Forall₂ (ReadBelow disk suffixes) bases groups := by
  obtain ⟨expanded, hexpanded, hbelow⟩ := declarationsOfRoots_eq_ok_iff.mp hread
  obtain ⟨groups, hgroups, rfl⟩ := map_eq_ok_iff.mp hbelow
  obtain ⟨found, below, hfound, hflatten, hreads⟩ :=
    exists_readBelow_of_forall₂ (mapM_eq_ok_iff.mp hgroups)
  refine ⟨found.reduceOption, below, ?_, hflatten, hreads⟩
  exact bind_eq_ok_iff.mpr ⟨expanded, hexpanded, bind_eq_ok_iff.mpr ⟨found, hfound, rfl⟩⟩

/-- A declaration below the roots is read below some base. -/
theorem exists_readBelow_of_mem {bases : List Path} {groups : List (List Declaration)}
    (hreads : List.Forall₂ (ReadBelow disk suffixes) bases groups) {declaration : Declaration}
    (hmem : declaration ∈ groups.flatten) :
    ∃ base ∈ bases, ∃ group, ReadBelow disk suffixes base group ∧ declaration ∈ group := by
  obtain ⟨group, hgroup, hdeclaration⟩ := List.mem_flatten.mp hmem
  obtain ⟨base, hbase, hread⟩ := exists_mem_of_forall₂ hreads group hgroup
  exact ⟨base, hbase, group, hread, hdeclaration⟩

end Source

end Roster
