import Roster.File.Path
import Roster.Text.Quoted

/-!
# Class names of directories

All source files of a directory share one class name. `Classnames` records the name of each
directory, and binding a second name to a directory is a clash. Directories are told apart by their
components, so that each has one name whatever its spelling.
-/

set_option autoImplicit false
set_option relaxedAutoImplicit false

namespace Roster

/-- Two files of a directory give different class names. -/
structure ClassnameClash where
  /-- The directory. -/
  directory : Path
  /-- The file that gives the second name. -/
  file : Path
  /-- The name that the directory had. -/
  existing : String
  /-- The name that the file gives. -/
  found : String
deriving DecidableEq

/-- The wording of a clash. -/
def ClassnameClash.message (clash : ClassnameClash) : String :=
  clash.directory.text ++ " already has classname " ++ Text.quoted clash.existing ++ ", " ++
    clash.file.text ++ " declares " ++ Text.quoted clash.found

/-- The class names of directories, by the components of their paths. -/
structure Classnames where
  /-- The directories with their names. -/
  bindings : List (List Path.Component × String)
deriving Inhabited

namespace Classnames

/-- No directory has a name. -/
def empty : Classnames := ⟨[]⟩

/-- The name of a directory. -/
def get? (classnames : Classnames) (directory : Path) : Option String :=
  (classnames.bindings.find? fun binding ↦ binding.1 = directory.components).map Prod.snd

/-- The class names with one more given by a file. Giving a directory the name that it has changes
nothing. -/
def bind (classnames : Classnames) (directory file : Path) (classname : String) :
    Except ClassnameClash Classnames :=
  match classnames.get? directory with
  | none => .ok ⟨classnames.bindings ++ [(directory.components, classname)]⟩
  | some existing =>
    if existing = classname then .ok classnames
    else .error ⟨directory, file, existing, classname⟩

/-- After a binding the directory has that name. -/
theorem get?_of_bind {classnames after : Classnames} {directory file : Path} {classname : String}
    (bound : classnames.bind directory file classname = .ok after) :
    after.get? directory = some classname := by
  rw [bind] at bound
  split at bound
  · next absent =>
    cases bound
    have none_found : classnames.bindings.find?
        (fun binding ↦ binding.1 = directory.components) = none := by
      simpa [get?] using absent
    simp [get?, List.find?_append, none_found]
  · next existing present =>
    split at bound
    · next same =>
      cases bound
      rw [present, same]
    · cases bound

end Classnames

end Roster
