import Roster.File.Path
import Roster.Names
import Roster.Text.Utf8

/-!
# File trees

A `FileTree` is a file with its bytes or a directory with named entries. A `Disk` is a tree with the
directory that relative paths start in. `Disk.locate` walks along the pieces of a path: it finds the
entry and its place, which is the list of names that leads to it from the root, or tells why there
is none. All questions to a disk go through it.

A disk is a value. Writing a file gives another disk (`Disk.writeFile`).

What is found lies in the tree: the files below an entry are files of the tree
(`FileTree.contents_get?`), and so the bytes read from a path are those of some file of it
(`Disk.bytes_mem_contents`).
-/

set_option autoImplicit false
set_option relaxedAutoImplicit false

namespace Roster

/-- A file or a directory. -/
inductive FileTree
  /-- A file with its bytes. -/
  | file (bytes : List UInt8)
  /-- A directory with its entries by name. -/
  | directory (entries : List (String × FileTree))
deriving Inhabited

/-- Why the file system refuses a request. -/
inductive FileFault
  /-- No entry has this path. -/
  | notFound
  /-- A path goes on behind a file. -/
  | notADirectory
  /-- A directory was to be read or written as a file. -/
  | isADirectory
  /-- The bytes of a file are no text. -/
  | notText
deriving DecidableEq

/-- The wording of a refusal. -/
def FileFault.message : FileFault → String
  | .notFound => "No such file or directory (os error 2)"
  | .notADirectory => "Not a directory (os error 20)"
  | .isADirectory => "Is a directory (os error 21)"
  | .notText => "stream did not contain valid UTF-8"

namespace FileTree

/-- The entry of a name in a list of entries. -/
def findEntry (name : String) : List (String × FileTree) → Option FileTree
  | [] => none
  | (first, tree) :: rest => if name = first then some tree else findEntry name rest

/-- The entry that a list of names leads to. -/
def get? : FileTree → List String → Option FileTree
  | tree, [] => some tree
  | .file _, _ :: _ => none
  | .directory entries, name :: rest =>
    match findEntry name entries with
    | some tree => tree.get? rest
    | none => none

/-- Whether this is a directory. -/
def isDirectory : FileTree → Bool
  | .directory _ => true
  | .file _ => false

/-- Entries with the one of a name replaced, or added at the end. -/
def setEntry (name : String) (tree : FileTree) :
    List (String × FileTree) → List (String × FileTree)
  | [] => [(name, tree)]
  | (first, old) :: rest =>
    if name = first then (name, tree) :: rest else (first, old) :: setEntry name tree rest

/-- The tree with another entry at a place. Missing directories on the way are made. -/
def set : FileTree → List String → FileTree → FileTree
  | _, [], tree => tree
  | .directory entries, name :: rest, tree =>
    .directory (setEntry name (((findEntry name entries).getD (.directory [])).set rest tree)
      entries)
  | .file _, name :: rest, tree =>
    .directory [(name, (FileTree.directory []).set rest tree)]

mutual

/-- The bytes of all files of a tree. -/
def contents : FileTree → List (List UInt8)
  | .file bytes => [bytes]
  | .directory entries => contentsOfEntries entries

/-- The bytes of all files of a list of entries. -/
def contentsOfEntries : List (String × FileTree) → List (List UInt8)
  | [] => []
  | (_, tree) :: rest => tree.contents ++ contentsOfEntries rest

end

theorem contents_findEntry {name : String} {entries : List (String × FileTree)} {tree : FileTree}
    (found : findEntry name entries = some tree) :
    ∀ bytes ∈ tree.contents, bytes ∈ contentsOfEntries entries := by
  induction entries with
  | nil => simp [findEntry] at found
  | cons entry rest ih =>
    obtain ⟨first, other⟩ := entry
    intro bytes mem
    rw [contentsOfEntries, List.mem_append]
    rw [findEntry] at found
    split at found
    · cases found
      exact .inl mem
    · exact .inr (ih found bytes mem)

/-- The files below an entry of a tree are files of the tree. -/
theorem contents_get? {tree found : FileTree} {place : List String}
    (at_place : tree.get? place = some found) :
    ∀ bytes ∈ found.contents, bytes ∈ tree.contents := by
  induction place generalizing tree with
  | nil =>
    cases at_place
    exact fun _ mem ↦ mem
  | cons name rest ih =>
    cases tree with
    | file => simp [get?] at at_place
    | directory entries =>
      rw [get?] at at_place
      split at at_place
      · next next_tree entry =>
        intro bytes mem
        rw [contents]
        exact contents_findEntry entry bytes (ih at_place bytes mem)
      · simp at at_place

end FileTree

/-- A file tree with the place that relative paths start from. -/
structure Disk where
  /-- Everything below the root. -/
  root : FileTree
  /-- The names that lead from the root to the working directory. -/
  workingDirectory : List String

namespace Disk

/-- One piece of a path, taken from a place. An empty piece and a dot ask for a directory and stay
in it, two dots go up, and the root is above itself. -/
def step (disk : Disk) (place : List String) (piece : List Char) :
    Except FileFault (List String) :=
  match disk.root.get? place with
  | none => .error .notFound
  | some (.file _) => .error .notADirectory
  | some (.directory entries) =>
    if Path.isSilent piece then .ok place
    else if piece = ['.', '.'] then .ok place.dropLast
    else
      match FileTree.findEntry (String.ofList piece) entries with
      | some _ => .ok (place ++ [String.ofList piece])
      | none => .error .notFound

/-- The place that a path leads to. -/
def place (disk : Disk) (path : Path) : Except FileFault (List String) :=
  if path.text = "" then .error .notFound
  else
    path.pieces.foldlM disk.step (if path.isAbsolute then [] else disk.workingDirectory)

/-- The entry that a path leads to. -/
def locate (disk : Disk) (path : Path) : Except FileFault FileTree := do
  let place ← disk.place path
  match disk.root.get? place with
  | some tree => .ok tree
  | none => .error .notFound

/-- Some entry has this path. -/
def exists? (disk : Disk) (path : Path) : Bool :=
  match disk.locate path with
  | .ok _ => true
  | .error _ => false

/-- The path of a directory. -/
def isDirectory (disk : Disk) (path : Path) : Bool :=
  match disk.locate path with
  | .ok (.directory _) => true
  | _ => false

/-- The path of a file. -/
def isFile (disk : Disk) (path : Path) : Bool :=
  match disk.locate path with
  | .ok (.file _) => true
  | _ => false

/-- The bytes of the file that a path leads to. -/
def readBytes (disk : Disk) (path : Path) : Except FileFault (List UInt8) :=
  match disk.locate path with
  | .ok (.file bytes) => .ok bytes
  | .ok (.directory _) => .error .isADirectory
  | .error fault => .error fault

/-- The text of the file that a path leads to. -/
def readText (disk : Disk) (path : Path) : Except FileFault String :=
  match disk.readBytes path with
  | .ok bytes =>
    match Text.Utf8.decode bytes with
    | some text => .ok text
    | none => .error .notText
  | .error fault => .error fault

/-- The entries of the directory that a path leads to, by name. -/
def listDirectory (disk : Disk) (path : Path) : Except FileFault (List (String × FileTree)) :=
  match disk.locate path with
  | .ok (.directory entries) =>
    .ok (entries.mergeSort fun first second ↦ decide (first.1 ≤ second.1))
  | .ok (.file _) => .error .notADirectory
  | .error fault => .error fault

/-- The path that leads to a place from the root. -/
def pathOfPlace (place : List String) : Path :=
  ⟨"/" ++ String.intercalate "/" place⟩

/-- The absolute path without detours of what a path leads to. -/
def absolutePath (disk : Disk) (path : Path) : Except FileFault Path :=
  (disk.place path).map pathOfPlace

/-- The disk with a new file: the directory above it must be there, and a path that ends with a
slash asks for a directory. -/
def createFile (disk : Disk) (path : Path) (bytes : List UInt8) : Except FileFault Disk := do
  let named := (path.pieces.reverse.dropWhile (·.isEmpty)).reverse
  let base := if path.isAbsolute then [] else disk.workingDirectory
  let place ← named.dropLast.foldlM disk.step base
  match disk.root.get? place, named.getLast? with
  | some (.directory _), some last =>
    if named.length < path.pieces.length then .error .isADirectory
    else .ok { disk with root := disk.root.set (place ++ [String.ofList last]) (.file bytes) }
  | some (.file _), _ => .error .notADirectory
  | _, _ => .error .notFound

/-- The disk after a text was written to the file of a path, which replaces what the file held. -/
def writeFile (disk : Disk) (path : Path) (text : String) : Except FileFault Disk :=
  let bytes := Text.Utf8.encode text
  match disk.place path with
  | .ok place =>
    match disk.root.get? place with
    | some (.file _) => .ok { disk with root := disk.root.set place (.file bytes) }
    | _ => .error .isADirectory
  | .error .notFound => disk.createFile path bytes
  | .error fault => .error fault

theorem readBytes_eq_ok_iff {disk : Disk} {path : Path} {bytes : List UInt8} :
    disk.readBytes path = .ok bytes ↔ disk.locate path = .ok (.file bytes) := by
  rw [readBytes]
  split <;> simp_all

/-- The bytes read from a path are those of a file of the tree. -/
theorem bytes_mem_contents {disk : Disk} {path : Path} {bytes : List UInt8}
    (read : disk.readBytes path = .ok bytes) : bytes ∈ disk.root.contents := by
  have located := readBytes_eq_ok_iff.1 read
  rw [locate] at located
  cases found : disk.place path with
  | error fault => rw [found] at located; cases located
  | ok place =>
    rw [found] at located
    simp only [bind, Except.bind] at located
    split at located
    · next tree at_place =>
      cases located
      exact FileTree.contents_get? at_place bytes (by simp [FileTree.contents])
    · cases located

end Disk

end Roster
