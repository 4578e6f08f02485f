import Roster.Text.Split

/-!
# Paths

A `Path` is kept as it was written. What it names is read off its `components`: empty pieces between
slashes count for nothing, nor does a single dot unless it stands first in a relative path, and two
dots are a component of their own. Two paths with the same components are the same path
(`Path.SameAs`), whatever their spelling.

`join` continues a path, `parent` and `fileName` take its last component off, and a file name is cut
at its last dot into `stem` and `suffix`.
-/

set_option autoImplicit false
set_option relaxedAutoImplicit false

namespace Roster

/-- A path as it was written. -/
structure Path where
  /-- The text of the path. -/
  text : String
deriving DecidableEq, Inhabited

/-- One step of a path. -/
inductive Path.Component
  /-- The root of the file system. -/
  | root
  /-- The directory that a relative path starts in, when it is written. -/
  | here
  /-- The directory above. -/
  | above
  /-- The entry of this name. -/
  | entry (name : String)
deriving DecidableEq

namespace Path

instance : Coe String Path := ⟨Path.mk⟩

/-- The pieces of a path between its slashes. -/
def pieces (path : Path) : List (List Char) :=
  Text.splitOn '/' path.text.toList

/-- The path starts at the root. -/
def isAbsolute (path : Path) : Bool :=
  path.text.toList.head? = some '/'

/-- A piece that is not a component of its own where it stands: an empty one, or a dot behind
another piece. -/
def isSilent (piece : List Char) : Bool :=
  piece = [] || piece = ['.']

/-- The component that a piece is, if it does not stand first. -/
def Component.ofPiece (piece : List Char) : Option Component :=
  if isSilent piece then none
  else if piece = ['.', '.'] then some .above
  else some (.entry (String.ofList piece))

/-- The components of a path. -/
def components (path : Path) : List Component :=
  match path.pieces with
  | first :: rest =>
    let start :=
      if path.isAbsolute then [.root]
      else if first = ['.'] then [.here]
      else (Component.ofPiece first).toList
    start ++ rest.filterMap Component.ofPiece
  | [] => []

/-- Two spellings of one path. -/
def SameAs (first second : Path) : Prop :=
  first.components = second.components

instance (first second : Path) : Decidable (first.SameAs second) :=
  inferInstanceAs (Decidable (first.components = second.components))

/-- A path continued by another one, which stands for itself when it starts at the root. -/
def join (base continuation : Path) : Path :=
  if continuation.isAbsolute then continuation
  else if base.text = "" || base.text.toList.getLast? = some '/' then
    ⟨base.text ++ continuation.text⟩
  else ⟨base.text ++ "/" ++ continuation.text⟩

/-- The name at the end of a path, if its last component is one. -/
def fileName (path : Path) : Option String :=
  match path.components.getLast? with
  | some (.entry name) => some name
  | _ => none

/-- Pieces without the silent ones at the end; the first piece of a path stays. -/
def dropSilentEnd (pieces : List (List Char)) : List (List Char) :=
  match pieces with
  | [] => []
  | first :: rest => first :: (rest.reverse.dropWhile isSilent).reverse

/-- The text of pieces of a path from its start; a path that starts at the root keeps its slash. -/
def ofPieces (pieces : List (List Char)) : Path :=
  match pieces with
  | [[]] => ⟨"/"⟩
  | pieces => ⟨String.ofList (Text.joinWith ['/'] pieces)⟩

/-- A path without its last component; nothing for the empty path and for the root. -/
def parent (path : Path) : Option Path :=
  match dropSilentEnd path.pieces with
  | [] => none
  | [only] => if only = [] then none else some ⟨""⟩
  | pieces => some (ofPieces (dropSilentEnd pieces.dropLast))

/-- A file name cut at its last dot into what stands before and after it. A name without a dot and a
name whose only dot stands first are not cut. -/
def cutAtLastDot (name : String) : String × Option String :=
  let characters := name.toList
  let after := (characters.reverse.takeWhile (· ≠ '.')).reverse
  let before := characters.take (characters.length - after.length - 1)
  if after.length = characters.length || before = [] || name = ".." then (name, none)
  else (String.ofList before, some (String.ofList after))

/-- The name of a file without what follows its last dot. -/
def stem (name : String) : String :=
  (cutAtLastDot name).1

/-- What follows the last dot of the name of a file. -/
def suffix (name : String) : Option String :=
  (cutAtLastDot name).2

end Path

end Roster
