import Roster.Proofs.Source.ScrapedTargets

/-!
# The class name of a directory

The source files of a target give it class names (`Source.Target.namings`). Either all of them are
one name (`Source.Target.Agrees`), or some file is the first one to give another name than the first
file that gives any (`Source.Target.FirstClash`). In the first case every declaration of the target
is keyed with that name, in whatever file it stands (`Source.Target.Declares`), and in the second
one there is a clash (`Source.Target.declarations_eq_ok_iff`,
`Source.Target.declarations_eq_error_iff`).

The names are bound in a table of directories. As long as the table fits the targets
(`Classnames.Fits`), it does not matter what else has been bound in it: a run that keeps one table
for all targets finds the same as one that begins each target with an empty table
(`Source.classname_eq_of_fits`). The table keeps fitting (`Source.fits_of_bindFiles`).
-/

set_option autoImplicit false
set_option relaxedAutoImplicit false

namespace Roster

namespace Source

/-! ### Class names that files give -/

/-- A class name with the file that gives it. -/
structure Naming where
  /-- The file. -/
  file : Path
  /-- The class name. -/
  classname : String
deriving DecidableEq

/-- The class name that a source file gives, unless it is empty. -/
def SourceFile.naming? (file : SourceFile) : Option Naming :=
  ((classnameOf file.content).filter (· ≠ "")).map (Naming.mk file.path)

namespace Target

/-- The class names that the files of a target give, in the order of the files. -/
def namings (target : Target) : List Naming :=
  target.files.filterMap SourceFile.naming?

/-- The class names among the namings of a target. -/
def classnames (target : Target) : List String :=
  target.namings.map Naming.classname

/-- The files of a target give no two class names. -/
def Agrees (target : Target) : Prop :=
  ∀ first ∈ target.classnames, ∀ second ∈ target.classnames, first = second

/-- The files of a target give this class name and no other. -/
def IsNamed (target : Target) (classname : String) : Prop :=
  target.classnames ≠ [] ∧ ∀ other ∈ target.classnames, other = classname

instance (target : Target) : Decidable target.Agrees :=
  inferInstanceAs (Decidable (∀ first ∈ target.classnames, _))

instance (target : Target) (classname : String) : Decidable (target.IsNamed classname) :=
  inferInstanceAs (Decidable (_ ∧ _))

/-- The clash of the first file that gives a class name with the first one behind it that gives
another one. The files between the two give the name of the first one, or none. -/
def FirstClash (target : Target) (clash : ClassnameClash) : Prop :=
  ∃ first between second later,
    target.namings = first :: (between ++ second :: later) ∧
      (∀ naming ∈ between, naming.classname = first.classname) ∧
      second.classname ≠ first.classname ∧
      clash = ⟨target.path, second.file, first.classname, second.classname⟩

/-- The declarations of a target under its class name. -/
inductive Declares (target : Target) : List Declaration → Prop
  /-- Without a class name there are none. -/
  | unnamed (hnone : target.classnames = []) : Declares target []
  /-- The class name counts for all files. -/
  | named {classname : String} (hnamed : target.IsNamed classname) :
      Declares target (target.files.flatMap fun file ↦
        declarationsOf file.content file.path classname)

/-- The declarations of a target under the name that a table has for it, if there is one. -/
def declarationsUnder (target : Target) : Option String → List Declaration
  | some classname => target.files.flatMap fun file ↦
      declarationsOf file.content file.path classname
  | none => []

variable {target : Target} {clash : ClassnameClash} {classname : String}

theorem IsNamed.agrees (hnamed : target.IsNamed classname) : target.Agrees :=
  fun first hfirst second hsecond ↦
    (hnamed.2 first hfirst).trans (hnamed.2 second hsecond).symm

theorem IsNamed.unique {other : String} (hnamed : target.IsNamed classname)
    (hother : target.IsNamed other) : other = classname := by
  obtain ⟨name, hname⟩ := List.exists_mem_of_ne_nil _ hnamed.1
  exact (hother.2 name hname).symm.trans (hnamed.2 name hname)

/-- Where the names are first different, they are different. -/
theorem FirstClash.not_agrees (hclash : target.FirstClash clash) : ¬ target.Agrees := by
  obtain ⟨first, between, second, later, hsplit, _, hne, _⟩ := hclash
  intro hagrees
  have hfirst : first.classname ∈ target.classnames := by
    rw [classnames, hsplit]
    exact List.mem_cons_self
  have hsecond : second.classname ∈ target.classnames := by
    rw [classnames, hsplit, List.map_cons, List.map_append, List.map_cons]
    exact List.mem_cons_of_mem _ (List.mem_append_right _ List.mem_cons_self)
  exact hne (hagrees _ hsecond _ hfirst)

/-- The names of a target are none, or one, or there is a first clash. -/
theorem classnames_cases (target : Target) :
    target.classnames = [] ∨ (∃ classname, target.IsNamed classname) ∨
      ∃ clash, target.FirstClash clash := by
  cases hnamings : target.namings with
  | nil => exact .inl (by rw [classnames, hnamings, List.map_nil])
  | cons first rest =>
    right
    cases hother : rest.find? fun naming ↦ naming.classname ≠ first.classname with
    | none =>
      refine .inl ⟨first.classname, ?_, ?_⟩
      · rw [classnames, hnamings]
        exact List.cons_ne_nil _ _
      · rw [classnames, hnamings, List.map_cons, List.forall_mem_cons, List.forall_mem_map]
        refine ⟨rfl, fun naming hnaming ↦ ?_⟩
        simpa using List.find?_eq_none.mp hother naming hnaming
    | some second =>
      obtain ⟨hne, between, later, hsplit, hbetween⟩ :=
        List.find?_eq_some_iff_append.mp hother
      refine .inr ⟨_, first, between, second, later, ?_, ?_, of_decide_eq_true hne, rfl⟩
      · rw [hnamings, hsplit]
      · intro naming hnaming
        simpa using hbetween naming hnaming

/-- A target declares something, if only nothing, or there is a first clash. -/
theorem declares_or_firstClash (target : Target) :
    (∃ found, target.Declares found) ∨ ∃ clash, target.FirstClash clash := by
  obtain hnone | ⟨classname, hnamed⟩ | hclash := target.classnames_cases
  · exact .inl ⟨[], .unnamed hnone⟩
  · exact .inl ⟨_, .named hnamed⟩
  · exact .inr hclash

theorem Declares.agrees {found : List Declaration} (hdeclares : target.Declares found) :
    target.Agrees := by
  cases hdeclares with
  | unnamed hnone =>
    intro first hfirst
    rw [hnone] at hfirst
    cases hfirst
  | named hnamed => exact hnamed.agrees

end Target

/-! ### Binding the names of a target -/

/-- The class names with one more given by a file. -/
def bindNaming (directory : Path) (classnames : Classnames) (naming : Naming) :
    Except ClassnameClash Classnames :=
  classnames.bind directory naming.file naming.classname

/-- Binding the names of files is a pass over the names that they give. -/
theorem bindFiles_eq_foldlM (directory : Path) (classnames : Classnames) (files : List SourceFile) :
    bindFiles directory classnames files =
      (files.filterMap SourceFile.naming?).foldlM (bindNaming directory) classnames := by
  induction files generalizing classnames with
  | nil => rfl
  | cons file rest ih =>
    rw [bindFiles, List.filterMap_cons, SourceFile.naming?]
    cases hclassname : classnameOf file.content with
    | none => exact ih classnames
    | some classname =>
      by_cases hempty : classname = ""
      · simp only [hempty, if_true]
        exact ih classnames
      · simp only [hempty, if_false]
        rw [Option.filter_some, if_pos (decide_eq_true hempty), Option.map_some]
        show _ = bindNaming directory classnames ⟨file.path, classname⟩ >>= _
        rw [bindNaming]
        cases classnames.bind directory file.path classname with
        | error clash => rfl
        | ok after => exact ih after

end Source

namespace Classnames

open Source

variable {classnames after : Classnames} {directory : Path} {classname : String}

/-- A name can be bound where there is none, or the same one. Nothing else is bound with it. -/
theorem exists_bind (file : Path)
    (hfree : ∀ existing, classnames.get? directory = some existing → existing = classname) :
    ∃ after, classnames.bind directory file classname = .ok after ∧
      after.get? directory = some classname ∧
      ∀ other found, after.get? other = some found →
        classnames.get? other = some found ∨ (other.SameAs directory ∧ found = classname) := by
  cases hget : classnames.get? directory with
  | none =>
    have hbind : classnames.bind directory file classname =
        .ok ⟨classnames.bindings ++ [(directory.components, classname)]⟩ := by
      rw [bind, hget]
    refine ⟨_, hbind, get?_of_bind hbind, fun other found hfound ↦ ?_⟩
    rw [get?, List.find?_append, Option.map_or] at hfound
    cases hold : classnames.get? other with
    | some existing =>
      rw [← get?, hold, Option.some_or] at hfound
      exact .inl hfound
    | none =>
      rw [← get?, hold, Option.none_or, List.find?_singleton] at hfound
      by_cases hsame : directory.components = other.components
      · simp only [hsame, decide_true, if_true] at hfound
        cases hfound
        exact .inr ⟨hsame.symm, rfl⟩
      · simp only [hsame, decide_false, Bool.false_eq_true, if_false] at hfound
        cases hfound
  | some existing =>
    have hexisting : existing = classname := hfree existing hget
    refine ⟨classnames, ?_, hexisting ▸ hget, fun _ _ hfound ↦ .inl hfound⟩
    rw [bind, hget]
    simp only [hexisting, if_true]

/-- A table has no name for a target but the one that its files give. -/
def Fits (classnames : Classnames) (target : Target) : Prop :=
  ∀ classname, classnames.get? target.path = some classname → target.IsNamed classname

theorem fits_empty (target : Target) : empty.Fits target := by
  intro classname hfound
  cases hfound

end Classnames

namespace Source

variable {target : Target} {classnames after : Classnames} {classname : String}
variable {clash : ClassnameClash} {directory : Path} {namings : List Naming}

/-- Binding a name once more changes nothing. -/
theorem foldlM_bindNaming_same (hname : classnames.get? directory = some classname)
    (hsame : ∀ naming ∈ namings, naming.classname = classname) :
    namings.foldlM (bindNaming directory) classnames = .ok classnames := by
  induction namings with
  | nil => rfl
  | cons naming rest ih =>
    obtain ⟨hfirst, hrest⟩ := List.forall_mem_cons.mp hsame
    rw [List.foldlM_cons, bindNaming, Classnames.bind, hname, hfirst]
    simp only [if_true]
    exact ih hrest

/-- Without names nothing is bound. -/
theorem bindFiles_of_unnamed (hnone : target.classnames = []) (classnames : Classnames) :
    bindFiles target.path classnames target.files = .ok classnames := by
  have hnamings : target.namings = [] := List.map_eq_nil_iff.mp hnone
  rw [bindFiles_eq_foldlM, ← Target.namings, hnamings]
  rfl

/-- The one name of a target is bound to it, and nothing else. -/
theorem exists_bindFiles_of_isNamed (hfits : classnames.Fits target)
    (hnamed : target.IsNamed classname) :
    ∃ after, bindFiles target.path classnames target.files = .ok after ∧
      after.get? target.path = some classname ∧
      ∀ other found, after.get? other = some found →
        classnames.get? other = some found ∨ (other.SameAs target.path ∧ found = classname) := by
  have hfree : ∀ existing, classnames.get? target.path = some existing → existing = classname :=
    fun existing hexisting ↦ hnamed.unique (hfits existing hexisting)
  obtain ⟨hsome, hall⟩ := hnamed
  rw [bindFiles_eq_foldlM, ← Target.namings]
  cases hnamings : target.namings with
  | nil => exact (hsome (by rw [Target.classnames, hnamings, List.map_nil])).elim
  | cons first rest =>
    rw [Target.classnames, hnamings, List.map_cons, List.forall_mem_cons, List.forall_mem_map]
      at hall
    obtain ⟨hfirst, hrest⟩ := hall
    obtain ⟨after, hbind, hname, hothers⟩ := Classnames.exists_bind first.file hfree
    refine ⟨after, ?_, hname, hothers⟩
    rw [List.foldlM_cons, bindNaming, hfirst, hbind]
    exact foldlM_bindNaming_same hname hrest

/-- The first clash of a target stops the binding of its names. -/
theorem bindFiles_of_firstClash (hfits : classnames.Fits target)
    (hclash : target.FirstClash clash) :
    bindFiles target.path classnames target.files = .error clash := by
  -- a name in the table would be the only one that the files give
  have hfresh : ∀ existing, classnames.get? target.path ≠ some existing :=
    fun existing hexisting ↦ hclash.not_agrees (hfits existing hexisting).agrees
  obtain ⟨first, between, second, later, hsplit, hbetween, hne, rfl⟩ := hclash
  have hfree : ∀ existing, classnames.get? target.path = some existing →
      existing = first.classname :=
    fun existing hexisting ↦ (hfresh existing hexisting).elim
  obtain ⟨after, hbind, hname, _⟩ := Classnames.exists_bind first.file hfree
  rw [bindFiles_eq_foldlM, ← Target.namings, hsplit, List.foldlM_cons, bindNaming, hbind]
  show (between ++ second :: later).foldlM (bindNaming target.path) after = _
  rw [List.foldlM_append, foldlM_bindNaming_same hname hbetween]
  show (second :: later).foldlM (bindNaming target.path) after = _
  rw [List.foldlM_cons, bindNaming, Classnames.bind, hname]
  simp only [hne.symm, if_false]
  rfl

/-- It does not matter for a target what else is in a table that fits it. -/
theorem classname_eq_of_fits (hfits : classnames.Fits target) :
    target.classname =
      (bindFiles target.path classnames target.files).map fun after ↦ after.get? target.path := by
  have hempty : Classnames.empty.Fits target := Classnames.fits_empty target
  rw [Target.classname]
  obtain hnone | ⟨classname, hnamed⟩ | ⟨clash, hclash⟩ := target.classnames_cases
  · rw [bindFiles_of_unnamed hnone, bindFiles_of_unnamed hnone]
    cases hname : classnames.get? target.path with
    | none => exact congrArg Except.ok hname.symm
    | some classname => exact ((hfits classname hname).1 hnone).elim
  · obtain ⟨first, hfirst, hname, _⟩ := exists_bindFiles_of_isNamed hempty hnamed
    obtain ⟨second, hsecond, hname', _⟩ := exists_bindFiles_of_isNamed hfits hnamed
    rw [hfirst, hsecond]
    exact congrArg Except.ok (hname.trans hname'.symm)
  · rw [bindFiles_of_firstClash hempty hclash, bindFiles_of_firstClash hfits hclash]

/-- A table that fits targets goes on fitting them, as long as the targets whose paths are spellings
of one path are given the same names. -/
theorem fits_of_bindFiles (hfits : classnames.Fits target)
    (hbind : bindFiles target.path classnames target.files = .ok after) {other : Target}
    (hother : classnames.Fits other)
    (hsame : other.path.SameAs target.path → other.classnames = target.classnames) :
    after.Fits other := by
  intro found hfound
  obtain hnone | ⟨classname, hnamed⟩ | ⟨clash, hclash⟩ := target.classnames_cases
  · rw [bindFiles_of_unnamed hnone] at hbind
    cases hbind
    exact hother found hfound
  · obtain ⟨after', hbind', _, hothers⟩ := exists_bindFiles_of_isNamed hfits hnamed
    cases hbind.symm.trans hbind'
    obtain hold | ⟨hpath, rfl⟩ := hothers other.path found hfound
    · exact hother found hold
    · rwa [Target.IsNamed, hsame hpath]
  · rw [bindFiles_of_firstClash hfits hclash] at hbind
    cases hbind

/-! ### The declarations of a target -/

namespace Target

/-- The declarations of a target are those under its class name. -/
theorem declarations_of_classname {classname? : Option String}
    (hclassname : target.classname = .ok classname?) :
    target.declarations = .ok (target.declarationsUnder classname?) := by
  rw [declarations, hclassname]
  cases classname? <;> rfl

theorem declarations_of_declares {found : List Declaration} (hdeclares : target.Declares found) :
    target.declarations = .ok found := by
  cases hdeclares with
  | unnamed hnone =>
    have hclassname : target.classname = .ok none := by
      rw [classname, bindFiles_of_unnamed hnone]
      rfl
    exact declarations_of_classname hclassname
  | @named name hnamed =>
    obtain ⟨after, hbind, hname, _⟩ :=
      exists_bindFiles_of_isNamed (Classnames.fits_empty target) hnamed
    have hclassname : target.classname = .ok (some name) := by
      rw [classname, hbind]
      exact congrArg Except.ok hname
    exact declarations_of_classname hclassname

theorem declarations_of_firstClash (hclash : target.FirstClash clash) :
    target.declarations = .error (.clash clash) := by
  have hclassname : target.classname = .error clash := by
    rw [classname, bindFiles_of_firstClash (Classnames.fits_empty target) hclash]
    rfl
  rw [declarations, hclassname]

/-- The declarations of a target are read under its class name. -/
theorem declarations_eq_ok_iff {found : List Declaration} :
    target.declarations = .ok found ↔ target.Declares found := by
  refine ⟨fun hfound ↦ ?_, declarations_of_declares⟩
  obtain ⟨found', hdeclares⟩ | ⟨clash, hclash⟩ := target.declares_or_firstClash
  · cases hfound.symm.trans (declarations_of_declares hdeclares)
    exact hdeclares
  · cases hfound.symm.trans (declarations_of_firstClash hclash)

theorem Declares.unique {found others : List Declaration} (hfound : target.Declares found)
    (hothers : target.Declares others) : found = others :=
  Except.ok.inj ((declarations_of_declares hfound).symm.trans (declarations_of_declares hothers))

theorem FirstClash.unique {other : ClassnameClash} (hclash : target.FirstClash clash)
    (hother : target.FirstClash other) : clash = other :=
  ScrapeError.clash.inj (Except.error.inj
    ((declarations_of_firstClash hclash).symm.trans (declarations_of_firstClash hother)))

/-- The first clash of a target is its fault. -/
theorem declarations_eq_error_iff {fault : ScrapeError} :
    target.declarations = .error fault ↔ ∃ clash, target.FirstClash clash ∧ fault = .clash clash := by
  constructor
  · intro hfault
    obtain ⟨found, hdeclares⟩ | ⟨clash, hclash⟩ := target.declares_or_firstClash
    · cases hfault.symm.trans (declarations_of_declares hdeclares)
    · cases hfault.symm.trans (declarations_of_firstClash hclash)
      exact ⟨clash, hclash, rfl⟩
  · rintro ⟨clash, hclash, rfl⟩
    exact declarations_of_firstClash hclash

/-- A target has declarations when its files give no two class names. -/
theorem exists_declarations_iff :
    (∃ found, target.declarations = .ok found) ↔ target.Agrees := by
  constructor
  · rintro ⟨found, hfound⟩
    exact (declarations_eq_ok_iff.mp hfound).agrees
  · intro hagrees
    obtain ⟨found, hdeclares⟩ | ⟨clash, hclash⟩ := target.declares_or_firstClash
    · exact ⟨found, declarations_of_declares hdeclares⟩
    · exact (hclash.not_agrees hagrees).elim

end Target

end Source

end Roster
