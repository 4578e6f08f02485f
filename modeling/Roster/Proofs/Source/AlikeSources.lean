import Roster.Proofs.File.AlikeTrees
import Roster.Source.Scrape

/-!
# Trees whose sources read the same

A scrape takes two things from the text of a source file: the class name that it gives, and its
declarations. Texts that give the same in both respects read the same (`Source.ReadsAs`), and two
disks that are alike but for such texts are scraped with the same result
(`Source.scrape_eq_of_alike`).
-/

set_option autoImplicit false
set_option relaxedAutoImplicit false

namespace Roster.Source

/-- Two texts of a source file give the same class name and declare the same. -/
structure ReadsAs (first second : String) : Prop where
  classnameOf_eq : classnameOf first = classnameOf second
  declarationsOf_eq : ∀ file classname,
    declarationsOf first file classname = declarationsOf second file classname

/-- The bytes of two files decode to texts that read the same. -/
def BytesReadAs (bytes others : List UInt8) : Prop :=
  ReadsAs (Text.Utf8.decodeLossy bytes) (Text.Utf8.decodeLossy others)

theorem BytesReadAs.refl (bytes : List UInt8) : BytesReadAs bytes bytes :=
  ⟨rfl, fun _ _ ↦ rfl⟩

/-- Two lists of source files on the same paths, with texts that read the same. -/
abbrev FilesReadAs : List SourceFile → List SourceFile → Prop :=
  List.Forall₂ fun file other ↦ file.path = other.path ∧ ReadsAs file.content other.content

variable {disk other : Disk} {entries others : List (String × FileTree)}

/-! ### Entries of directories -/

/-- The directories among alike entries have the same names. -/
theorem map_join_filter_isDirectory (path : Path)
    (halike : FileTree.AlikeEntries BytesReadAs entries others) :
    (entries.filter fun entry ↦ entry.2.isDirectory).map (fun entry ↦ path.join entry.1) =
      (others.filter fun entry ↦ entry.2.isDirectory).map (fun entry ↦ path.join entry.1) := by
  induction entries generalizing others with
  | nil => cases halike; rfl
  | cons entry rest ih =>
    cases halike with
    | @cons name tree second rest others htree hrest =>
      rw [List.filter_cons, List.filter_cons]
      dsimp only
      rw [htree.isDirectory_eq]
      split
      · rw [List.map_cons, List.map_cons, ih hrest]
      · exact ih hrest

/-- The source files among alike entries read the same. -/
theorem filesReadAs_sourceFiles (suffixes : List String) (directory : Path)
    (halike : FileTree.AlikeEntries BytesReadAs entries others) :
    FilesReadAs (sourceFiles suffixes directory entries)
      (sourceFiles suffixes directory others) := by
  induction entries generalizing others with
  | nil => cases halike; exact .nil
  | cons entry rest ih =>
    cases halike with
    | cons htree hrest =>
      cases htree with
      | file hsame =>
        rw [sourceFiles, sourceFiles]
        split
        · exact .cons ⟨rfl, hsame⟩ (ih hrest)
        · exact ih hrest
      | directory hentries =>
        rw [sourceFiles, sourceFiles]
        exact ih hrest

/-! ### Targets -/

/-- Files that read the same bind the same class names. -/
theorem bindFiles_eq {files seconds : List SourceFile} (hfiles : FilesReadAs files seconds)
    (directory : Path) (classnames : Classnames) :
    bindFiles directory classnames files = bindFiles directory classnames seconds := by
  induction hfiles generalizing classnames with
  | nil => rfl
  | cons hfile hrest ih =>
    rw [bindFiles, bindFiles, hfile.1, hfile.2.classnameOf_eq]
    split
    · split
      · exact ih classnames
      · split
        · exact ih _
        · rfl
    · exact ih classnames

/-- Files that read the same declare the same. -/
theorem flatMap_declarationsOf_eq {files seconds : List SourceFile}
    (hfiles : FilesReadAs files seconds) (classname : String) :
    (files.flatMap fun file ↦ declarationsOf file.content file.path classname) =
      seconds.flatMap fun file ↦ declarationsOf file.content file.path classname := by
  induction hfiles with
  | nil => rfl
  | cons hfile hrest ih =>
    rw [List.flatMap_cons, List.flatMap_cons, ih, hfile.1, hfile.2.declarationsOf_eq]

/-- Targets whose files read the same have the same outcome. -/
theorem declarations_eq_of_filesReadAs {files seconds : List SourceFile}
    (hfiles : FilesReadAs files seconds) (path : Path) :
    (Target.mk path files).declarations = (Target.mk path seconds).declarations := by
  have hclassname : (Target.mk path files).classname = (Target.mk path seconds).classname := by
    rw [Target.classname, Target.classname, bindFiles_eq hfiles]
  rw [Target.declarations, Target.declarations, hclassname]
  cases (Target.mk path seconds).classname with
  | error clash => rfl
  | ok classname? =>
    cases classname? with
    | none => rfl
    | some classname => exact congrArg Except.ok (flatMap_declarationsOf_eq hfiles classname)

/-! ### The whole scrape -/

theorem subdirectories_eq (halike : Disk.Alike BytesReadAs disk other) :
    subdirectories disk = subdirectories other := by
  funext path
  rw [subdirectories, subdirectories]
  rcases halike.listDirectory path with
    ⟨_, hfirst, hsecond⟩ | ⟨entries, others, hfirst, hsecond, hentries⟩
  · rw [hfirst, hsecond]
  · rw [hfirst, hsecond]
    exact congrArg Except.ok (map_join_filter_isDirectory path hentries)

theorem expandRoots_eq (halike : Disk.Alike BytesReadAs disk other) (roots : List Path) :
    expandRoots disk roots = expandRoots other roots := by
  have hroot : expandRoot disk = expandRoot other := by
    funext root
    simp only [expandRoot, halike.isDirectory_eq, subdirectories_eq halike]
  rw [expandRoots, expandRoots, hroot]

theorem baseOf_eq (halike : Disk.Alike BytesReadAs disk other) (root : Path) :
    baseOf disk root = baseOf other root := by
  simp only [baseOf, halike.exists?_eq, halike.absolutePath_eq, halike.isDirectory_eq]

/-- A path is a target with the same outcome on both disks. -/
theorem declarationsAt_eq (halike : Disk.Alike BytesReadAs disk other) (suffixes : List String)
    (path : Path) :
    (do (← targetAt disk suffixes path).declarations) =
      (do (← targetAt other suffixes path).declarations) := by
  rw [targetAt, targetAt]
  rcases halike.listDirectory path with
    ⟨_, hfirst, hsecond⟩ | ⟨entries, others, hfirst, hsecond, hentries⟩
  · rw [hfirst, hsecond]
  · rw [hfirst, hsecond]
    exact declarations_eq_of_filesReadAs (filesReadAs_sourceFiles suffixes path hentries) path

/-- Disks that are alike but for texts that read the same are scraped with the same result. -/
theorem scrape_eq_of_alike (halike : Disk.Alike BytesReadAs disk other) (suffixes : List String)
    (roots : List Path) : scrape disk suffixes roots = scrape other suffixes roots := by
  have hbelow : declarationsBelow disk suffixes = declarationsBelow other suffixes := by
    funext root
    simp only [declarationsBelow, baseOf_eq halike, subdirectories_eq halike,
      declarationsAt_eq halike]
  rw [scrape, scrape, declarationsOfRoots, declarationsOfRoots, expandRoots_eq halike, hbelow]

end Roster.Source
