import Mathlib.Data.List.Basic
import Mathlib.Data.List.Induction
import Roster.File.Tree
import Roster.Proofs.FallibleRuns
import Roster.Proofs.TableLookup

/-!
# Walks along paths

A disk follows a path piece by piece. Here the walks are described by the places that they lead to,
so that nothing else has to follow pieces.

Trees as file systems have them (`FileTree.WellFormed`) give the entries of a directory different
names, and names that can be pieces of a path. In such a tree every entry of a directory is found
behind the path of the directory (`Disk.locate_join`), and nothing else is found behind it under a
name (`Disk.locate_join_eq_ok_iff`). The absolute path of a place leads back to it
(`Disk.place_pathOfPlace`). In any tree the components of a path decide where it leads
(`Disk.place_eq_foldl_follow`), so that two spellings of a path lead to one place
(`Disk.place_eq_of_sameAs`).
-/

set_option autoImplicit false
set_option relaxedAutoImplicit false

namespace Roster

/-! ### Trees as file systems have them -/

/-- A name that an entry of a directory can have: there is no slash in it, it is not empty, and it
is neither of the two names that stand for directories on a path. -/
def IsEntryName (name : String) : Prop :=
  '/' ∉ name.toList ∧ Path.isSilent name.toList = false ∧ name ≠ ".."

instance (name : String) : Decidable (IsEntryName name) :=
  inferInstanceAs (Decidable (_ ∧ _ ∧ _))

namespace FileTree

/-- A tree in which the entries of each directory have different names, all of which are names of
entries. -/
inductive WellFormed : FileTree → Prop
  /-- A file. -/
  | file (bytes : List UInt8) : WellFormed (.file bytes)
  /-- A directory. -/
  | directory {entries : List (String × FileTree)} (hdistinct : (entries.map Prod.fst).Nodup)
      (hnames : ∀ entry ∈ entries, IsEntryName entry.1)
      (hbelow : ∀ entry ∈ entries, WellFormed entry.2) : WellFormed (.directory entries)

variable {tree found : FileTree} {entries : List (String × FileTree)} {name : String}
variable {place : List String}

/-- Entries are looked up as in any list of named values. -/
theorem findEntry_eq_find? (name : String) (entries : List (String × FileTree)) :
    findEntry name entries = Table.find? name entries := by
  induction entries with
  | nil => rfl
  | cons entry rest ih => rw [findEntry, Table.find?, ih]

/-- An entry that is found is listed. -/
theorem mem_of_findEntry_eq_some (hentry : findEntry name entries = some found) :
    (name, found) ∈ entries := by
  rw [findEntry_eq_find?] at hentry
  exact Table.mem_of_find?_eq_some hentry

/-- Where names are different, every entry is found. -/
theorem findEntry_eq_some (hdistinct : (entries.map Prod.fst).Nodup)
    (hmem : (name, found) ∈ entries) : findEntry name entries = some found := by
  rw [findEntry_eq_find?]
  exact (Table.find?_eq_some_iff_mem hdistinct).mpr hmem

theorem get?_nil (tree : FileTree) : tree.get? [] = some tree := by
  cases tree <;> rfl

/-- A place below a directory is looked up in the entry of its first name. -/
theorem get?_directory_cons (entries : List (String × FileTree)) (name : String)
    (place : List String) :
    (directory entries).get? (name :: place) = (findEntry name entries).bind (·.get? place) := by
  rw [get?]
  cases findEntry name entries <;> rfl

/-- A place behind a place is looked up in what is found there. -/
theorem get?_append (place below : List String) :
    tree.get? (place ++ below) = (tree.get? place).bind (·.get? below) := by
  induction place generalizing tree with
  | nil => rw [get?_nil, List.nil_append, Option.bind_some]
  | cons first rest ih =>
    cases tree with
    | file => rfl
    | directory entries =>
      rw [List.cons_append, get?_directory_cons, get?_directory_cons, Option.bind_assoc]
      exact Option.bind_congr fun next _ ↦ ih

theorem get?_directory_singleton (entries : List (String × FileTree)) (name : String) :
    (directory entries).get? [name] = findEntry name entries := by
  simp only [get?_directory_cons, get?_nil, Option.bind_fun_some]

/-- One more name leads to the entry of that name in a directory. -/
theorem get?_concat_eq_some_iff :
    tree.get? (place ++ [name]) = some found ↔
      ∃ entries, tree.get? place = some (.directory entries) ∧
        findEntry name entries = some found := by
  rw [get?_append, Option.bind_eq_some_iff]
  constructor
  · rintro ⟨inside, hinside, hfound⟩
    cases inside with
    | file => cases hfound
    | directory entries => exact ⟨entries, hinside, get?_directory_singleton entries name ▸ hfound⟩
  · rintro ⟨entries, hinside, hfound⟩
    exact ⟨.directory entries, hinside, (get?_directory_singleton entries name).trans hfound⟩

/-- The directory without entries is well-formed. -/
theorem WellFormed.empty : (FileTree.directory []).WellFormed :=
  .directory List.nodup_nil (List.forall_mem_nil _) (List.forall_mem_nil _)

/-- A well-formed directory gets one more entry, with a name that it does not have yet. -/
theorem WellFormed.cons (hname : IsEntryName name) (hfresh : name ∉ entries.map Prod.fst)
    (htree : tree.WellFormed) (hrest : (FileTree.directory entries).WellFormed) :
    (FileTree.directory ((name, tree) :: entries)).WellFormed := by
  cases hrest with
  | directory hdistinct hnames hbelow =>
    exact .directory (List.nodup_cons.mpr ⟨hfresh, hdistinct⟩)
      (List.forall_mem_cons.mpr ⟨hname, hnames⟩) (List.forall_mem_cons.mpr ⟨htree, hbelow⟩)

/-- What lies in a well-formed tree is well-formed. -/
theorem WellFormed.of_get? (hformed : tree.WellFormed) (hget : tree.get? place = some found) :
    found.WellFormed := by
  induction place generalizing tree with
  | nil =>
    cases hget
    exact hformed
  | cons first rest ih =>
    cases hformed with
    | file => cases hget
    | @directory entries _ _ hbelow =>
      rw [get?_directory_cons, Option.bind_eq_some_iff] at hget
      obtain ⟨next, hfirst, hrest⟩ := hget
      exact ih (hbelow _ (mem_of_findEntry_eq_some hfirst)) hrest

/-- A place in a well-formed tree is named by names of entries. -/
theorem WellFormed.isEntryName (hformed : tree.WellFormed) (hget : tree.get? place = some found) :
    ∀ name ∈ place, IsEntryName name := by
  induction place generalizing tree with
  | nil => exact List.forall_mem_nil _
  | cons first rest ih =>
    cases hformed with
    | file => cases hget
    | @directory entries _ hnames hbelow =>
      rw [get?_directory_cons, Option.bind_eq_some_iff] at hget
      obtain ⟨next, hfirst, hrest⟩ := hget
      have hmem : (first, next) ∈ entries := mem_of_findEntry_eq_some hfirst
      exact List.forall_mem_cons.mpr ⟨hnames _ hmem, ih (hbelow _ hmem) hrest⟩

end FileTree

/-! ### Pieces of a continued path -/

namespace Path

/-- A text without a slash is no absolute path. -/
theorem isAbsolute_eq_false {name : String} (hname : '/' ∉ name.toList) :
    isAbsolute ⟨name⟩ = false := by
  rw [isAbsolute, decide_eq_false_iff_not]
  intro hhead
  exact hname (List.mem_of_mem_head? hhead)

/-- A name behind a path is one more piece, which takes the place of the empty piece behind a slash
at the end. -/
theorem pieces_join (path : Path) {name : String} (htext : path.text ≠ "")
    (hname : '/' ∉ name.toList) :
    (path.join name).pieces = path.pieces ++ [name.toList] ∨
      ∃ front, path.pieces = front ++ [[]] ∧ (path.join name).pieces = front ++ [name.toList] := by
  have hpiece : name.toList.splitOn '/' = [name.toList] := List.splitOn_eq_singleton hname
  have hslash : "/".toList = ['/'] := rfl
  rw [join, isAbsolute_eq_false hname]
  by_cases hend : path.text.toList.getLast? = some '/'
  · obtain ⟨before, hbefore⟩ := List.getLast?_eq_some_iff.mp hend
    refine .inr ⟨before.splitOn '/', ?_, ?_⟩
    · rw [pieces, Text.splitOn_eq_listSplitOn, hbefore, List.splitOn_append_cons_self]
      rfl
    · simp only [hend, decide_true, Bool.or_true, if_true, Bool.false_eq_true, if_false]
      rw [pieces, Text.splitOn_eq_listSplitOn, String.toList_append, hbefore, List.append_assoc,
        List.singleton_append, List.splitOn_append_cons_self, hpiece]
  · refine .inl ?_
    simp only [htext, hend, decide_false, Bool.or_false, Bool.false_eq_true, if_false]
    rw [pieces, pieces, Text.splitOn_eq_listSplitOn, Text.splitOn_eq_listSplitOn,
      String.toList_append, String.toList_append, hslash, List.append_assoc,
      List.singleton_append, List.splitOn_append_cons_self, hpiece]

/-- A name behind a path starts where the path does. -/
theorem isAbsolute_join (path : Path) {name : String} (htext : path.text ≠ "")
    (hname : '/' ∉ name.toList) : (path.join name).isAbsolute = path.isAbsolute := by
  have hsome : path.text.toList ≠ [] := by
    simpa using htext
  obtain ⟨first, rest, hsplit⟩ := List.exists_cons_of_ne_nil hsome
  rw [join, isAbsolute_eq_false hname]
  split
  · contradiction
  · split <;> simp [isAbsolute, hsplit]

/-- A continued path is not empty. -/
theorem text_join_ne (path : Path) {name : String} (htext : path.text ≠ "")
    (hname : '/' ∉ name.toList) : (path.join name).text ≠ "" := by
  rw [join, isAbsolute_eq_false hname]
  split
  · contradiction
  · split <;> simp [htext]

/-- The slash that an absolute path starts with has nothing before it. -/
theorem first_eq_nil_of_isAbsolute {path : Path} {first : List Char} {rest : List (List Char)}
    (hroot : path.isAbsolute = true) (hpieces : path.pieces = first :: rest) : first = [] := by
  obtain ⟨behind, hbehind⟩ := List.head?_eq_some_iff.mp (of_decide_eq_true hroot)
  rw [pieces, hbehind, Text.splitOn, if_pos rfl] at hpieces
  exact (List.cons.inj hpieces).1.symm

/-- The name of an entry is a component of its own. -/
theorem Component.ofPiece_toList {name : String} (hname : IsEntryName name) :
    Component.ofPiece name.toList = some (.entry name) := by
  obtain ⟨_, hspoken, hbelow⟩ := hname
  have habove : name.toList ≠ ['.', '.'] := fun hdots ↦ hbelow (String.toList_injective hdots)
  rw [Component.ofPiece, hspoken, if_neg Bool.false_ne_true, if_neg habove, String.ofList_toList]

/-- The place that a component of a path leads to from a place. -/
def Component.follow (place : List String) : Component → List String
  | .root => []
  | .here => place
  | .above => place.dropLast
  | .entry name => place ++ [name]

/-- The components of a path lead where its pieces do, from the place where the path starts. -/
theorem foldl_follow_components (path : Path) (place : List String) :
    path.components.foldl Component.follow place =
      (path.pieces.filterMap Component.ofPiece).foldl Component.follow
        (if path.isAbsolute then [] else place) := by
  rw [components]
  cases hpieces : path.pieces with
  | nil =>
    rw [pieces, Text.splitOn_eq_listSplitOn] at hpieces
    exact absurd hpieces (List.splitOn_ne_nil _ _)
  | cons first rest =>
    simp only [List.filterMap_eq_flatMap_toList, List.flatMap_cons, List.foldl_append]
    congr 1
    by_cases hroot : path.isAbsolute = true
    · have hfirst : first = [] := first_eq_nil_of_isAbsolute hroot hpieces
      simp only [hroot, hfirst, if_true]
      rfl
    · by_cases hdot : first = ['.']
      · simp only [hroot, hdot, if_true, if_false, Bool.false_eq_true]
        rfl
      · simp only [hroot, hdot, if_false, Bool.false_eq_true]

end Path

/-! ### Following pieces -/

namespace Disk

variable {disk : Disk} {path : Path} {place after : List String} {piece : List Char}
variable {tree : FileTree} {entries : List (String × FileTree)} {name : String}

theorem locate_eq_ok_iff :
    disk.locate path = .ok tree ↔
      ∃ place, disk.place path = .ok place ∧ disk.root.get? place = some tree := by
  rw [locate, bind_eq_ok_iff]
  refine exists_congr fun place ↦ and_congr_right fun _ ↦ ?_
  cases disk.root.get? place <;> simp

/-- A path that leads to some place is not empty. -/
theorem text_ne_of_place_eq_ok (hplace : disk.place path = .ok place) : path.text ≠ "" := by
  intro htext
  rw [Disk.place, if_pos htext] at hplace
  cases hplace

/-- A silent piece stays in a directory. -/
theorem step_silent (hget : disk.root.get? place = some (.directory entries))
    (hsilent : Path.isSilent piece = true) : disk.step place piece = .ok place := by
  rw [step, hget]
  simp only [hsilent, if_true]

/-- The name of an entry leads to the entry. -/
theorem step_name (hget : disk.root.get? place = some (.directory entries))
    (hname : IsEntryName name) (hentry : FileTree.findEntry name entries = some tree) :
    disk.step place name.toList = .ok (place ++ [name]) := by
  obtain ⟨_, hspoken, hbelow⟩ := hname
  have habove : name.toList ≠ ['.', '.'] := fun hdots ↦ hbelow (String.toList_injective hdots)
  rw [step, hget]
  simp only [hspoken, habove, String.ofList_toList, hentry, Bool.false_eq_true, if_false]

/-- A step leads where the component that the piece is leads to. -/
theorem eq_of_step_eq_ok (hstep : disk.step place piece = .ok after) :
    after = (Path.Component.ofPiece piece).toList.foldl Path.Component.follow place := by
  rw [step] at hstep
  rw [Path.Component.ofPiece]
  split at hstep
  · cases hstep
  · cases hstep
  · split at hstep
    · next hsilent =>
      cases hstep
      rw [if_pos hsilent]
      rfl
    · next hspoken =>
      rw [if_neg hspoken]
      split at hstep
      · next hdots =>
        cases hstep
        rw [if_pos hdots]
        rfl
      · next hname =>
        rw [if_neg hname]
        split at hstep
        · cases hstep
          rfl
        · cases hstep

/-- Pieces lead where the components that they are lead to. -/
theorem eq_of_foldlM_step_eq_ok {pieces : List (List Char)}
    (hwalk : pieces.foldlM disk.step place = .ok after) :
    after = (pieces.filterMap Path.Component.ofPiece).foldl Path.Component.follow place := by
  induction pieces generalizing place with
  | nil =>
    cases hwalk
    rfl
  | cons piece rest ih =>
    rw [List.foldlM_cons] at hwalk
    obtain ⟨next, hstep, hrest⟩ := bind_eq_ok_iff.mp hwalk
    rw [List.filterMap_eq_flatMap_toList, List.flatMap_cons, List.foldl_append,
      ← eq_of_step_eq_ok hstep, ← List.filterMap_eq_flatMap_toList]
    exact ih hrest

/-- The place of a path is the one that its components lead to. -/
theorem place_eq_foldl_follow (hplace : disk.place path = .ok place) :
    place = path.components.foldl Path.Component.follow disk.workingDirectory := by
  rw [Disk.place, if_neg (text_ne_of_place_eq_ok hplace)] at hplace
  rw [Path.foldl_follow_components]
  exact eq_of_foldlM_step_eq_ok hplace

/-- Two spellings of a path lead to one place. -/
theorem place_eq_of_sameAs {other : Path} {second : List String} (hsame : path.SameAs other)
    (hplace : disk.place path = .ok place) (hother : disk.place other = .ok second) :
    place = second := by
  rw [place_eq_foldl_follow hplace, place_eq_foldl_follow hother, hsame]

/-- Two spellings of a path lead to one entry. -/
theorem locate_eq_of_sameAs {other : Path} {second : FileTree} (hsame : path.SameAs other)
    (hlocate : disk.locate path = .ok tree) (hother : disk.locate other = .ok second) :
    tree = second := by
  obtain ⟨place, hplace, hget⟩ := locate_eq_ok_iff.mp hlocate
  obtain ⟨place', hplace', hget'⟩ := locate_eq_ok_iff.mp hother
  rw [place_eq_of_sameAs hsame hplace hplace', hget'] at hget
  exact (Option.some.inj hget).symm

/-! ### Continuing a path -/

/-- A name behind a path is one more step from the place that the path leads to. -/
theorem place_join_eq_step (hplace : disk.place path = .ok place) (hname : '/' ∉ name.toList) :
    disk.place (path.join name) = disk.step place name.toList := by
  have htext : path.text ≠ "" := text_ne_of_place_eq_ok hplace
  rw [Disk.place, if_neg htext] at hplace
  rw [Disk.place, if_neg (Path.text_join_ne path htext hname),
    Path.isAbsolute_join path htext hname]
  obtain hpieces | ⟨front, hfront, hpieces⟩ := Path.pieces_join path htext hname
  · rw [hpieces, List.foldlM_append, hplace]
    exact bind_pure (disk.step place name.toList)
  · -- the slash at the end of the path has asked for a directory, and has stayed in it
    rw [hfront, List.foldlM_append] at hplace
    obtain ⟨before, hbefore, hlast⟩ := bind_eq_ok_iff.mp hplace
    have hstay : place = before := eq_of_foldlM_step_eq_ok hlast
    rw [hpieces, List.foldlM_append, hbefore, ← hstay]
    exact bind_pure (disk.step place name.toList)

/-- The name of an entry behind the path of a directory leads to the entry. -/
theorem place_join (hplace : disk.place path = .ok place)
    (hget : disk.root.get? place = some (.directory entries)) (hname : IsEntryName name)
    (hentry : FileTree.findEntry name entries = some tree) :
    disk.place (path.join name) = .ok (place ++ [name]) := by
  rw [place_join_eq_step hplace hname.1]
  exact step_name hget hname hentry

/-- The entries of a directory are found behind its path. -/
theorem locate_join (hformed : disk.root.WellFormed)
    (hlocate : disk.locate path = .ok (.directory entries)) (hentry : (name, tree) ∈ entries) :
    disk.locate (path.join name) = .ok tree := by
  obtain ⟨place, hplace, hget⟩ := locate_eq_ok_iff.mp hlocate
  cases hformed.of_get? hget with
  | directory hdistinct hnames =>
    have hfound : FileTree.findEntry name entries = some tree :=
      FileTree.findEntry_eq_some hdistinct hentry
    exact locate_eq_ok_iff.mpr ⟨place ++ [name], place_join hplace hget (hnames _ hentry) hfound,
      FileTree.get?_concat_eq_some_iff.mpr ⟨entries, hget, hfound⟩⟩

/-- The name of an entry behind the path of a directory leads nowhere but to the entry of this
name. -/
theorem locate_join_eq_ok_iff (hformed : disk.root.WellFormed)
    (hlocate : disk.locate path = .ok (.directory entries)) (hname : IsEntryName name) :
    disk.locate (path.join name) = .ok tree ↔ (name, tree) ∈ entries := by
  refine ⟨fun hjoin ↦ ?_, locate_join hformed hlocate⟩
  obtain ⟨place, hplace, hget⟩ := locate_eq_ok_iff.mp hlocate
  obtain ⟨after, hafter, hfound⟩ := locate_eq_ok_iff.mp hjoin
  rw [place_join_eq_step hplace hname.1] at hafter
  obtain rfl : after = place ++ [name] := by
    rw [eq_of_step_eq_ok hafter, Path.Component.ofPiece_toList hname]
    rfl
  obtain ⟨others, hothers, hentry⟩ := FileTree.get?_concat_eq_some_iff.mp hfound
  rw [hget] at hothers
  cases hothers
  exact FileTree.mem_of_findEntry_eq_some hentry

/-! ### The path of a place -/

theorem text_pathOfPlace_ne (place : List String) : (pathOfPlace place).text ≠ "" := by
  rw [pathOfPlace]
  simp

/-- The path of a place that is not the root ends with the last name. -/
theorem exists_pathOfPlace_concat (place : List String) (name : String) :
    ∃ front, (pathOfPlace (place ++ [name])).text = front ++ name := by
  by_cases habove : place = []
  · exact ⟨"/", by rw [habove, pathOfPlace, List.nil_append, String.intercalate_singleton]⟩
  · refine ⟨"/" ++ (String.intercalate "/" place ++ "/"), ?_⟩
    rw [pathOfPlace, String.intercalate_append_of_ne_nil habove (List.cons_ne_nil _ _),
      String.intercalate_singleton, ← String.append_assoc]

/-- A name behind a place stands behind its path. -/
theorem pathOfPlace_concat (hnames : ∀ other ∈ place, IsEntryName other)
    (hname : IsEntryName name) :
    pathOfPlace (place ++ [name]) = (pathOfPlace place).join name := by
  rw [Path.join, Path.isAbsolute_eq_false hname.1]
  cases place using List.reverseRecOn with
  | nil => rfl
  | append_singleton above last =>
    have hlast : IsEntryName last := hnames last (List.mem_append_right _ List.mem_cons_self)
    obtain ⟨front, hfront⟩ := exists_pathOfPlace_concat above last
    have hsome : last.toList ≠ [] := by
      intro hempty
      have hsilent := hlast.2.1
      rw [hempty] at hsilent
      cases hsilent
    have hend : (pathOfPlace (above ++ [last])).text.toList.getLast? ≠ some '/' := by
      rw [hfront, String.toList_append, List.getLast?_append_of_ne_nil _ hsome]
      exact fun hslash ↦ hlast.1 (List.mem_of_getLast? hslash)
    simp only [text_pathOfPlace_ne, hend, decide_false, Bool.or_false, Bool.false_eq_true, if_false]
    rw [pathOfPlace, String.intercalate_append_of_ne_nil (List.concat_ne_nil _ _)
      (List.cons_ne_nil _ _), String.intercalate_singleton, pathOfPlace, ← String.append_assoc,
      ← String.append_assoc]

/-- The path of a place leads back to it. -/
theorem place_pathOfPlace (hformed : disk.root.WellFormed)
    (hget : disk.root.get? place = some (.directory entries)) :
    disk.place (pathOfPlace place) = .ok place := by
  induction place using List.reverseRecOn generalizing entries with
  | nil =>
    have hstep : disk.step [] [] = .ok [] := step_silent hget rfl
    have hpieces : (pathOfPlace []).pieces = [[], []] := rfl
    rw [Disk.place, hpieces]
    exact bind_eq_ok_iff.mpr ⟨_, hstep, bind_eq_ok_iff.mpr ⟨_, hstep, rfl⟩⟩
  | append_singleton place name ih =>
    obtain ⟨above, habove, hentry⟩ := FileTree.get?_concat_eq_some_iff.mp hget
    obtain ⟨hnames, hname⟩ := List.forall_mem_append.mp (hformed.isEntryName hget)
    have hlast : IsEntryName name := hname name List.mem_cons_self
    rw [pathOfPlace_concat hnames hlast]
    exact place_join (ih habove) habove hlast hentry

/-- The absolute path of a directory leads to it. -/
theorem exists_absolutePath (hformed : disk.root.WellFormed)
    (hlocate : disk.locate path = .ok (.directory entries)) :
    ∃ absolute, disk.absolutePath path = .ok absolute ∧
      disk.locate absolute = .ok (.directory entries) := by
  obtain ⟨place, hplace, hget⟩ := locate_eq_ok_iff.mp hlocate
  refine ⟨pathOfPlace place, ?_, ?_⟩
  · rw [absolutePath, hplace]
    rfl
  · exact locate_eq_ok_iff.mpr ⟨place, place_pathOfPlace hformed hget, hget⟩

end Disk

end Roster
