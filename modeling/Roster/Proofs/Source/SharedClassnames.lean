import Roster.Proofs.Source.TargetClassnames

/-!
# One table of class names for a whole scrape

A scrape can keep one table of class names and one inventory for all its targets
(`Source.recordRoots`): root after root and target after target, it binds the names of the target in
the table, and records the declarations of the target under the name that the table then has for it.
`Source.scrape_eq_recordRoots` says that this run has the same outcome as reading each target with a
table of its own, with the same inventory or the same fault, for any roots of any disk.

A step of the run does two things that belong together (`Source.Recorded`). It records what the
reading finds, and the table goes on fitting all targets of the disk, also those that are reached
again from another root or by another spelling of their path. Steps one behind the other do so as
well (`Source.Records.append`, `Source.Records.foldlM`).
-/

set_option autoImplicit false
set_option relaxedAutoImplicit false

namespace Roster

/-- A directory is listed in one way, whatever the spelling of its path. -/
theorem Disk.listDirectory_unique {disk : Disk} {path other : Path}
    {entries others : List (String × FileTree)} (hsame : path.SameAs other)
    (hentries : disk.listDirectory path = .ok entries)
    (hothers : disk.listDirectory other = .ok others) : entries = others := by
  rw [listDirectory] at hentries hothers
  split at hentries
  · next inside hlocate =>
    split at hothers
    · next inside' hlocate' =>
      cases locate_eq_of_sameAs hsame hlocate hlocate'
      exact (Except.ok.inj hentries).symm.trans (Except.ok.inj hothers)
    · cases hothers
    · cases hothers
  · cases hentries
  · cases hentries

namespace Source

/-! ### Steps that record what is found -/

/-- What a step leads to where it records what a reading finds: a table of a kind and an inventory
with the declarations, or else the fault of the reading. -/
inductive Recorded (Keeps : Classnames → Prop) (inventory : Inventory) :
    Except ScrapeError (List Declaration) → Except ScrapeError (Classnames × Inventory) → Prop
  | ok {after : Classnames} (declarations : List Declaration) (hafter : Keeps after) :
      Recorded Keeps inventory (.ok declarations)
        (.ok (after, declarations.foldl Inventory.record inventory))
  | error (fault : ScrapeError) : Recorded Keeps inventory (.error fault) (.error fault)

/-- A step records what a reading finds, from any inventory and any table of a kind on. -/
def Records (Keeps : Classnames → Prop) (found : Except ScrapeError (List Declaration))
    (run : Classnames × Inventory → Except ScrapeError (Classnames × Inventory)) : Prop :=
  ∀ classnames inventory, Keeps classnames →
    Recorded Keeps inventory found (run (classnames, inventory))

namespace Records

variable {Item : Type} {Keeps : Classnames → Prop}
variable {found others : Except ScrapeError (List Declaration)}
variable {run next : Classnames × Inventory → Except ScrapeError (Classnames × Inventory)}

/-- Where nothing is found, nothing changes. -/
theorem nothing : Records Keeps (pure []) pure :=
  fun _ _ hkeeps ↦ .ok [] hkeeps

/-- What is looked up before both leaves them as they are. -/
theorem bind {lookup : Except ScrapeError Item}
    {read : Item → Except ScrapeError (List Declaration)}
    {step : Item → Classnames × Inventory → Except ScrapeError (Classnames × Inventory)}
    (hrecords : ∀ item, lookup = .ok item → Records Keeps (read item) (step item)) :
    Records Keeps (lookup >>= read) fun state ↦ lookup >>= fun item ↦ step item state := by
  cases lookup with
  | error fault => exact fun _ _ _ ↦ .error fault
  | ok item => exact hrecords item rfl

/-- One run behind the other records what is found by both readings. -/
theorem append (hrun : Records Keeps found run) (hnext : Records Keeps others next) :
    Records Keeps (do let first ← found; let rest ← others; return first ++ rest)
      fun state ↦ run state >>= next := by
  intro classnames inventory hkeeps
  have hfirst := hrun classnames inventory hkeeps
  beta_reduce
  generalize run (classnames, inventory) = outcome at hfirst ⊢
  cases hfirst with
  | error fault => exact .error fault
  | ok first hafter =>
    have hrest := hnext _ (first.foldl Inventory.record inventory) hafter
    change Recorded Keeps inventory (do let rest ← others; return first ++ rest) (next _)
    generalize next _ = outcome at hrest ⊢
    cases hrest with
    | error fault => exact .error fault
    | ok rest hlast =>
      have hboth : Recorded Keeps inventory (.ok (first ++ rest)) _ := .ok (first ++ rest) hlast
      rwa [List.foldl_append] at hboth

/-- A run over items records what a pass over them finds. -/
theorem foldlM {read : Item → Except ScrapeError (List Declaration)}
    {step : Classnames × Inventory → Item → Except ScrapeError (Classnames × Inventory)}
    {items : List Item}
    (hitems : ∀ item ∈ items, Records Keeps (read item) fun state ↦ step state item) :
    Records Keeps (do let found ← items.mapM read; return found.flatten)
      fun state ↦ items.foldlM step state := by
  induction items with
  | nil => exact nothing
  | cons item rest ih =>
    obtain ⟨hfirst, hrest⟩ := List.forall_mem_cons.mp hitems
    have hjoin : (do let found ← (item :: rest).mapM read; return found.flatten) =
        (do
          let first ← read item
          let others ← (do let found ← rest.mapM read; return found.flatten)
          return first ++ others) := by
      rw [List.mapM_cons]
      cases read item with
      | error fault => rfl
      | ok first => cases rest.mapM read <;> rfl
    rw [hjoin]
    exact append hfirst (ih hrest)

/-- From an empty table and inventory on, a run makes the inventory of what is found. -/
theorem map_snd_eq (hrecords : Records Keeps found run) (hstart : Keeps .empty) :
    (run (.empty, .empty)).map Prod.snd = found.map Inventory.ofDeclarations := by
  have hrun := hrecords .empty .empty hstart
  generalize run (.empty, .empty) = outcome at hrun ⊢
  cases hrun <;> rfl

end Records

/-! ### Targets -/

variable {disk : Disk} {suffixes : List String} {roots : List Path} {path : Path}
variable {target other : Target} {classnames : Classnames} {Among : Target → Prop}

/-- The table of class names and the inventory after one more target. Its names are bound first, and
its declarations are recorded under the name that it then has. -/
def Target.recordInto (state : Classnames × Inventory) (target : Target) :
    Except ScrapeError (Classnames × Inventory) :=
  match bindFiles target.path state.1 target.files with
  | .ok classnames =>
    .ok (classnames,
      (target.declarationsUnder (classnames.get? target.path)).foldl Inventory.record state.2)
  | .error clash => .error (.clash clash)

/-- The declarations of a target are those under the name that a table has once the names of the
target are bound in it, if the table fits the target. -/
theorem Target.declarations_eq_of_fits (hfits : classnames.Fits target) :
    target.declarations =
      match bindFiles target.path classnames target.files with
      | .ok after => .ok (target.declarationsUnder (after.get? target.path))
      | .error clash => .error (.clash clash) := by
  have hclassname := classname_eq_of_fits hfits
  cases hbind : bindFiles target.path classnames target.files with
  | error clash =>
    rw [hbind] at hclassname
    rw [declarations, hclassname]
    rfl
  | ok after =>
    rw [hbind] at hclassname
    exact declarations_of_classname hclassname

/-- A table fits all targets of a kind. -/
def FitsAll (Among : Target → Prop) (classnames : Classnames) : Prop :=
  ∀ target, Among target → classnames.Fits target

theorem fitsAll_empty (Among : Target → Prop) : FitsAll Among .empty :=
  fun target _ ↦ Classnames.fits_empty target

/-- Targets of a kind whose paths are spellings of one path are given the same names. -/
def AlikeNames (Among : Target → Prop) : Prop :=
  ∀ target other, Among target → Among other → other.path.SameAs target.path →
    other.classnames = target.classnames

/-- Recording a target records its declarations, and the table goes on fitting. -/
theorem records_recordInto (hnames : AlikeNames Among) (htarget : Among target) :
    Records (FitsAll Among) target.declarations fun state ↦ target.recordInto state := by
  intro classnames inventory hfits
  have hfitsTarget := hfits target htarget
  simp only [Target.declarations_eq_of_fits hfitsTarget, Target.recordInto]
  cases hbind : bindFiles target.path classnames target.files with
  | error clash => exact .error (.clash clash)
  | ok after =>
    exact .ok _ fun other hother ↦ fits_of_bindFiles hfitsTarget hbind (hfits other hother)
      (hnames target other htarget hother)

/-- A run over targets with one table is a pass over the single targets. -/
theorem map_foldlM_recordInto {targets : List Target} (hnames : AlikeNames (· ∈ targets)) :
    (targets.foldlM Target.recordInto (.empty, .empty)).map Prod.snd =
      (targets.mapM Target.declarations).map fun found ↦
        Inventory.ofDeclarations found.flatten := by
  have hrecords : ∀ target ∈ targets,
      Records (FitsAll (· ∈ targets)) target.declarations fun state ↦ target.recordInto state :=
    fun _ htarget ↦ records_recordInto hnames htarget
  rw [(Records.foldlM hrecords).map_snd_eq (fitsAll_empty _)]
  cases targets.mapM Target.declarations <;> rfl

/-! ### Targets of a disk -/

/-- What the source files of a directory hold does not depend on the spelling of its path. -/
theorem map_content_sourceFiles (suffixes : List String) (first second : Path)
    (entries : List (String × FileTree)) :
    (sourceFiles suffixes first entries).map SourceFile.content =
      (sourceFiles suffixes second entries).map SourceFile.content := by
  induction entries with
  | nil => rfl
  | cons entry rest ih =>
    obtain ⟨name, tree⟩ := entry
    cases tree with
    | directory => exact ih
    | file bytes =>
      rw [sourceFiles, sourceFiles]
      split
      · rw [List.map_cons, List.map_cons, ih]
      · exact ih

/-- The class names of a target are those that its files hold. -/
theorem Target.classnames_eq_filterMap (target : Target) :
    target.classnames = (target.files.map SourceFile.content).filterMap fun content ↦
      (classnameOf content).filter (· ≠ "") := by
  rw [classnames, namings, List.map_filterMap, List.filterMap_map]
  refine List.filterMap_congr fun file _ ↦ ?_
  rw [SourceFile.naming?, Option.map_map]
  exact Option.map_id'

/-- A target that the disk has at its own path. -/
def IsOn (disk : Disk) (suffixes : List String) (target : Target) : Prop :=
  targetAt disk suffixes target.path = .ok target

theorem isOn_of_targetAt (htarget : targetAt disk suffixes path = .ok target) :
    IsOn disk suffixes target := by
  obtain ⟨entries, _, hsame⟩ := exists_lists_of_targetAt htarget
  have hpath : target.path = path := congrArg Target.path hsame
  rwa [IsOn, hpath]

/-- Spellings of one path lead to the same entries, so that the targets are given the same names. -/
theorem alikeNames_isOn (disk : Disk) (suffixes : List String) :
    AlikeNames (IsOn disk suffixes) := by
  have hread {target : Target} (htarget : IsOn disk suffixes target) :
      ∃ entries, disk.listDirectory target.path = .ok entries ∧
        target.files = sourceFiles suffixes target.path entries := by
    rw [IsOn, targetAt] at htarget
    split at htarget
    · next entries hentries =>
      exact ⟨entries, hentries, (congrArg Target.files (Except.ok.inj htarget)).symm⟩
    · cases htarget
  intro target other htarget hother hsame
  obtain ⟨entries, hentries, hfiles⟩ := hread htarget
  obtain ⟨others, hothers, hfiles'⟩ := hread hother
  rw [Target.classnames_eq_filterMap, Target.classnames_eq_filterMap, hfiles, hfiles',
    Disk.listDirectory_unique hsame hothers hentries, map_content_sourceFiles]

/-! ### The run over all roots -/

/-- The table and the inventory after the target that a directory is. -/
def recordTarget (disk : Disk) (suffixes : List String) (state : Classnames × Inventory)
    (path : Path) : Except ScrapeError (Classnames × Inventory) := do
  let target ← targetAt disk suffixes path
  target.recordInto state

/-- The table and the inventory after the targets of a root. -/
def recordBelow (disk : Disk) (suffixes : List String) (state : Classnames × Inventory)
    (root : Path) : Except ScrapeError (Classnames × Inventory) := do
  match ← baseOf disk root with
  | none => return state
  | some base =>
    let paths ← subdirectories disk base
    paths.foldlM (recordTarget disk suffixes) state

/-- The table and the inventory after all roots. -/
def recordRoots (disk : Disk) (suffixes : List String) (roots : List Path)
    (state : Classnames × Inventory) : Except ScrapeError (Classnames × Inventory) := do
  let roots ← expandRoots disk roots
  roots.foldlM (recordBelow disk suffixes) state

theorem records_recordTarget (disk : Disk) (suffixes : List String) (path : Path) :
    Records (FitsAll (IsOn disk suffixes))
      (do let target ← targetAt disk suffixes path; target.declarations)
      fun state ↦ recordTarget disk suffixes state path :=
  .bind fun _ htarget ↦ records_recordInto (alikeNames_isOn disk suffixes) (isOn_of_targetAt htarget)

theorem records_recordBelow (disk : Disk) (suffixes : List String) (root : Path) :
    Records (FitsAll (IsOn disk suffixes)) (declarationsBelow disk suffixes root)
      fun state ↦ recordBelow disk suffixes state root := by
  refine .bind fun base? hbase ↦ ?_
  cases base? with
  | none => exact .nothing
  | some base =>
    exact .bind fun paths hpaths ↦ .foldlM fun path hpath ↦ records_recordTarget disk suffixes path

theorem records_recordRoots (disk : Disk) (suffixes : List String) (roots : List Path) :
    Records (FitsAll (IsOn disk suffixes)) (declarationsOfRoots disk suffixes roots)
      (recordRoots disk suffixes roots) :=
  .bind fun _ _ ↦ .foldlM fun root _ ↦ records_recordBelow disk suffixes root

/-- A scrape makes the inventory of the run that keeps one table of class names for all targets of
all roots, and fails as that run does. -/
theorem scrape_eq_recordRoots (disk : Disk) (suffixes : List String) (roots : List Path) :
    scrape disk suffixes roots =
      (recordRoots disk suffixes roots (.empty, .empty)).map Prod.snd :=
  ((records_recordRoots disk suffixes roots).map_snd_eq (fitsAll_empty _)).symm

end Source

end Roster
