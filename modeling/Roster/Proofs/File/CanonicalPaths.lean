import Roster.Proofs.File.Walks

/-!
# Canonical paths

A canonical path is the path of a place: it lists the names of the place behind the root
(`Disk.components_pathOfPlace`). Canonical paths are taken apart as they were put together. The file
name of a continued one is the name behind it (`Path.IsCanonical.fileName_join`), and its parent is
the path before it (`Path.IsCanonical.parent_join`), so that both can be read off
(`Path.IsCanonical.join_inj`). Each canonical path but the root has a file name
(`Path.IsCanonical.exists_fileName`).
-/

set_option autoImplicit false
set_option relaxedAutoImplicit false

namespace Roster

namespace Path

/-- A path that starts at the root and goes down along names of entries only. -/
def IsCanonical (path : Path) : Prop :=
  ∃ place, (∀ name ∈ place, IsEntryName name) ∧ path = Disk.pathOfPlace place

/-- Pieces that end with the name of an entry have no silent end. -/
theorem dropSilentEnd_concat {pieces : List (List Char)} {name : String}
    (hname : IsEntryName name) :
    dropSilentEnd (pieces ++ [name.toList]) = pieces ++ [name.toList] := by
  cases pieces with
  | nil => rfl
  | cons first rest => simp [dropSilentEnd, hname.2.1]

/-- The pieces of a path that is not empty are put together to the same path. -/
theorem ofPieces_pieces {path : Path} (htext : path.text ≠ "") : ofPieces path.pieces = path := by
  have hjoin : Text.joinWith ['/'] path.pieces = path.text.toList :=
    Text.joinWith_splitOn '/' path.text.toList
  have hsome : path.pieces ≠ [[]] := by
    intro hempty
    rw [hempty] at hjoin
    exact htext (String.toList_injective hjoin.symm)
  rw [ofPieces, hjoin, String.ofList_toList]
  exact hsome

end Path

/-! ### The path of a place -/

namespace Disk

variable {place : List String} {name : String}

/-- The pieces of the path of a place are the names of the place behind the slash of the root. -/
theorem pieces_pathOfPlace (hnames : ∀ name ∈ place, IsEntryName name) (hbelow : place ≠ []) :
    (pathOfPlace place).pieces = [] :: place.map String.toList := by
  have hslash : ∀ piece ∈ [] :: place.map String.toList, '/' ∉ piece := by
    rw [List.forall_mem_cons, List.forall_mem_map]
    exact ⟨List.not_mem_nil, fun name hname ↦ (hnames name hname).1⟩
  have htext : (pathOfPlace place).text.toList =
      ['/'].intercalate ([] :: place.map String.toList) := by
    obtain ⟨first, rest, rfl⟩ := List.exists_cons_of_ne_nil hbelow
    rw [pathOfPlace, String.toList_append, String.toList_intercalate, List.map_cons,
      List.intercalate_cons_cons]
    rfl
  rw [Path.pieces, Text.splitOn_eq_listSplitOn, htext]
  exact List.splitOn_intercalate '/' hslash (List.cons_ne_nil _ _)

/-- The path of a place leads from the root along the names of the place. -/
theorem components_pathOfPlace (hnames : ∀ name ∈ place, IsEntryName name) :
    (pathOfPlace place).components = .root :: place.map .entry := by
  have hroot : (pathOfPlace place).isAbsolute = true := by
    rw [Path.isAbsolute, pathOfPlace, String.toList_append]
    rfl
  by_cases hbelow : place = []
  · rw [hbelow]
    rfl
  · have hentries : (place.map String.toList).filterMap Path.Component.ofPiece =
        place.map .entry := by
      rw [List.filterMap_map, ← List.filterMap_eq_map]
      exact List.filterMap_congr fun name hname ↦ Path.Component.ofPiece_toList (hnames name hname)
    rw [Path.components, pieces_pathOfPlace hnames hbelow]
    simp only [hroot, if_true, hentries, List.singleton_append]

/-- The file name of the path of a place is the last name of the place. -/
theorem fileName_pathOfPlace_concat (hnames : ∀ name ∈ place, IsEntryName name)
    (hname : IsEntryName name) : (pathOfPlace (place ++ [name])).fileName = some name := by
  have hall : ∀ other ∈ place ++ [name], IsEntryName other :=
    List.forall_mem_append.mpr ⟨hnames, List.forall_mem_singleton.mpr hname⟩
  rw [Path.fileName, components_pathOfPlace hall, List.map_append, ← List.cons_append,
    List.map_singleton, List.getLast?_concat]

/-- What is left of the pieces of the path of a place without the last name is the path of the place
above. -/
theorem ofPieces_dropSilentEnd (hnames : ∀ name ∈ place, IsEntryName name) :
    Path.ofPieces (Path.dropSilentEnd ([] :: place.map String.toList)) = pathOfPlace place := by
  cases place using List.reverseRecOn with
  | nil => rfl
  | append_singleton above last =>
    have hlast : IsEntryName last := hnames last (List.mem_append_right _ List.mem_cons_self)
    have hpieces : [] :: (above ++ [last]).map String.toList =
        ([] :: above.map String.toList) ++ [last.toList] := by
      rw [List.map_append, List.map_singleton, List.cons_append]
    rw [hpieces, Path.dropSilentEnd_concat hlast, ← hpieces,
      ← pieces_pathOfPlace hnames (List.concat_ne_nil _ _)]
    exact Path.ofPieces_pieces (text_pathOfPlace_ne _)

/-- The parent of the path of a place is the path of the place above. -/
theorem parent_pathOfPlace_concat (hnames : ∀ name ∈ place, IsEntryName name)
    (hname : IsEntryName name) :
    (pathOfPlace (place ++ [name])).parent = some (pathOfPlace place) := by
  have hall : ∀ other ∈ place ++ [name], IsEntryName other :=
    List.forall_mem_append.mpr ⟨hnames, List.forall_mem_singleton.mpr hname⟩
  have hpieces : (pathOfPlace (place ++ [name])).pieces =
      ([] :: place.map String.toList) ++ [name.toList] := by
    rw [pieces_pathOfPlace hall (List.concat_ne_nil _ _), List.map_append]
    rfl
  -- at least two pieces are left, the root and the name, so that there is a parent
  obtain ⟨next, rest, hbehind⟩ :=
    List.exists_cons_of_ne_nil (List.concat_ne_nil name.toList (place.map String.toList))
  rw [Path.parent, hpieces, Path.dropSilentEnd_concat hname, List.cons_append, hbehind]
  show some (Path.ofPieces (Path.dropSilentEnd ([] :: next :: rest).dropLast)) = _
  rw [← hbehind, ← List.cons_append, List.dropLast_concat, ofPieces_dropSilentEnd hnames]

end Disk

/-! ### Continued canonical paths -/

namespace Path.IsCanonical

variable {path other : Path} {name last : String}

/-- A place has a canonical path. -/
theorem of_place {place : List String} (hnames : ∀ name ∈ place, IsEntryName name) :
    (Disk.pathOfPlace place).IsCanonical :=
  ⟨place, hnames, rfl⟩

theorem join (hpath : path.IsCanonical) (hname : IsEntryName name) :
    (path.join name).IsCanonical := by
  obtain ⟨place, hnames, rfl⟩ := hpath
  rw [← Disk.pathOfPlace_concat hnames hname]
  exact of_place (List.forall_mem_append.mpr ⟨hnames, List.forall_mem_singleton.mpr hname⟩)

/-- The name behind a canonical path is the file name. -/
theorem fileName_join (hpath : path.IsCanonical) (hname : IsEntryName name) :
    (path.join name).fileName = some name := by
  obtain ⟨place, hnames, rfl⟩ := hpath
  rw [← Disk.pathOfPlace_concat hnames hname]
  exact Disk.fileName_pathOfPlace_concat hnames hname

/-- The path before a name is the parent. -/
theorem parent_join (hpath : path.IsCanonical) (hname : IsEntryName name) :
    (path.join name).parent = some path := by
  obtain ⟨place, hnames, rfl⟩ := hpath
  rw [← Disk.pathOfPlace_concat hnames hname]
  exact Disk.parent_pathOfPlace_concat hnames hname

/-- Continued canonical paths are the same only if both parts are. -/
theorem join_inj (hpath : path.IsCanonical) (hother : other.IsCanonical)
    (hname : IsEntryName name) (hlast : IsEntryName last)
    (hsame : path.join name = other.join last) : path = other ∧ name = last := by
  have hparent : some path = some other := by
    rw [← hpath.parent_join hname, ← hother.parent_join hlast, hsame]
  have hfile : some name = some last := by
    rw [← hpath.fileName_join hname, ← hother.fileName_join hlast, hsame]
  exact ⟨Option.some.inj hparent, Option.some.inj hfile⟩

/-- Each canonical path but the root ends with a name. -/
theorem exists_fileName (hpath : path.IsCanonical) (hbelow : path ≠ "/") :
    ∃ name, path.fileName = some name := by
  obtain ⟨place, hnames, rfl⟩ := hpath
  cases place using List.reverseRecOn with
  | nil => exact (hbelow rfl).elim
  | append_singleton above last =>
    obtain ⟨habove, hlast⟩ := List.forall_mem_append.mp hnames
    exact ⟨last, Disk.fileName_pathOfPlace_concat habove (hlast last List.mem_cons_self)⟩

end Path.IsCanonical

end Roster
