import Mathlib.Data.List.Forall2
import Roster.Proofs.File.Walks

/-!
# Trees with other bytes in their files

Two trees are alike when the same names lead to the same kind of entry in both, and the bytes of
their files correspond (`FileTree.Alike`). A tree is like itself with a file rewritten
(`FileTree.alike_set`).

What a disk is asked for its places tells alike trees not apart: a path leads to the same place in
both, or to none for the same reason (`Disk.Alike.place_eq`), and what it leads to is alike
(`Disk.Alike.locate`). The entries of a directory are listed in the same order
(`Disk.Alike.listDirectory`).
-/

set_option autoImplicit false
set_option relaxedAutoImplicit false

namespace Roster

/-! ### Alike trees -/

namespace FileTree

mutual

/-- Trees with the same names, in which the bytes of the files correspond. -/
inductive Alike (same : List UInt8 → List UInt8 → Prop) : FileTree → FileTree → Prop
  /-- Two files with bytes that correspond. -/
  | file {bytes others : List UInt8} (hsame : same bytes others) :
      Alike same (.file bytes) (.file others)
  /-- Two directories with alike entries. -/
  | directory {entries others : List (String × FileTree)}
      (hentries : AlikeEntries same entries others) :
      Alike same (.directory entries) (.directory others)

/-- Entries with the same names in the same order, before alike trees. -/
inductive AlikeEntries (same : List UInt8 → List UInt8 → Prop) :
    List (String × FileTree) → List (String × FileTree) → Prop
  /-- There are no entries. -/
  | nil : AlikeEntries same [] []
  /-- An entry of the same name stands before both. -/
  | cons {name : String} {tree other : FileTree} {rest others : List (String × FileTree)}
      (htree : Alike same tree other) (hrest : AlikeEntries same rest others) :
      AlikeEntries same ((name, tree) :: rest) ((name, other) :: others)

end

variable {same : List UInt8 → List UInt8 → Prop} {tree other : FileTree}
  {entries others : List (String × FileTree)}

mutual

/-- A tree is like itself when the bytes of every file correspond to themselves. -/
theorem alike_refl (hsame : ∀ bytes, same bytes bytes) : ∀ tree : FileTree, Alike same tree tree
  | .file bytes => .file (hsame bytes)
  | .directory entries => .directory (alikeEntries_refl hsame entries)

theorem alikeEntries_refl (hsame : ∀ bytes, same bytes bytes) :
    ∀ entries : List (String × FileTree), AlikeEntries same entries entries
  | [] => .nil
  | (_, tree) :: rest => .cons (alike_refl hsame tree) (alikeEntries_refl hsame rest)

end

theorem alikeEntries_iff_forall₂ : AlikeEntries same entries others ↔
    List.Forall₂ (fun entry other ↦ entry.1 = other.1 ∧ Alike same entry.2 other.2)
      entries others := by
  constructor
  · intro halike
    induction entries generalizing others with
    | nil => cases halike; exact .nil
    | cons entry rest ih =>
      cases halike with
      | cons htree hrest => exact .cons ⟨rfl, htree⟩ (ih hrest)
  · intro hentries
    induction hentries with
    | nil => exact .nil
    | @cons entry other rest others hfirst _ ih =>
      obtain ⟨name, tree⟩ := entry
      obtain ⟨_, second⟩ := other
      obtain ⟨rfl, htree⟩ := hfirst
      exact .cons htree ih

theorem Alike.isDirectory_eq (halike : Alike same tree other) :
    tree.isDirectory = other.isDirectory := by
  cases halike <;> rfl

/-- A name is that of two alike entries, or of none. -/
theorem AlikeEntries.findEntry (halike : AlikeEntries same entries others) (name : String) :
    (findEntry name entries = none ∧ findEntry name others = none) ∨
      ∃ tree other, findEntry name entries = some tree ∧ findEntry name others = some other ∧
        Alike same tree other := by
  induction entries generalizing others with
  | nil => cases halike; exact .inl ⟨rfl, rfl⟩
  | cons entry rest ih =>
    cases halike with
    | cons htree hrest =>
      rw [FileTree.findEntry, FileTree.findEntry]
      split
      · exact .inr ⟨_, _, rfl, rfl, htree⟩
      · exact ih hrest

/-- Names lead to two alike entries, or to none. -/
theorem Alike.get? (halike : Alike same tree other) (place : List String) :
    (tree.get? place = none ∧ other.get? place = none) ∨
      ∃ first second, tree.get? place = some first ∧ other.get? place = some second ∧
        Alike same first second := by
  induction place generalizing tree other with
  | nil =>
    rw [get?_nil, get?_nil]
    exact .inr ⟨tree, other, rfl, rfl, halike⟩
  | cons name rest ih =>
    cases halike with
    | file hsame => exact .inl ⟨rfl, rfl⟩
    | directory hentries =>
      rw [get?_directory_cons, get?_directory_cons]
      rcases hentries.findEntry name with
        ⟨hfirst, hsecond⟩ | ⟨first, second, hfirst, hsecond, hfound⟩
      · rw [hfirst, hsecond]
        exact .inl ⟨rfl, rfl⟩
      · rw [hfirst, hsecond]
        exact ih hfound

/-- Entries are like those with one of them set, if that one is like the entry it replaces. -/
theorem alikeEntries_setEntry (hsame : ∀ bytes, same bytes bytes) {name : String}
    (hentry : findEntry name entries = some tree) (halike : Alike same tree other) :
    AlikeEntries same entries (setEntry name other entries) := by
  induction entries with
  | nil => rw [findEntry] at hentry; cases hentry
  | cons entry rest ih =>
    obtain ⟨first, old⟩ := entry
    rw [findEntry] at hentry
    rw [setEntry]
    split at hentry
    · next hname =>
      subst hname
      cases hentry
      rw [if_pos rfl]
      exact .cons halike (alikeEntries_refl hsame rest)
    · next hname =>
      rw [if_neg hname]
      exact .cons (alike_refl hsame old) (ih hentry)

/-- A tree is like itself with other bytes in a file, if these correspond to those of the file. -/
theorem alike_set (hsame : ∀ bytes, same bytes bytes) {place : List String}
    {bytes rewritten : List UInt8} (hfile : tree.get? place = some (.file bytes))
    (hbytes : same bytes rewritten) : Alike same tree (tree.set place (.file rewritten)) := by
  induction place generalizing tree with
  | nil =>
    rw [get?_nil] at hfile
    cases hfile
    exact .file hbytes
  | cons name rest ih =>
    cases tree with
    | file old => rw [FileTree.get?] at hfile; cases hfile
    | directory entries =>
      rw [get?_directory_cons, Option.bind_eq_some_iff] at hfile
      obtain ⟨below, hentry, hrest⟩ := hfile
      rw [set, hentry, Option.getD_some]
      exact .directory (alikeEntries_setEntry hsame hentry (ih hrest))

/-- Entries by their names. -/
theorem AlikeEntries.mergeSort (halike : AlikeEntries same entries others) :
    AlikeEntries same (entries.mergeSort fun first second ↦ decide (first.1 ≤ second.1))
      (others.mergeSort fun first second ↦ decide (first.1 ≤ second.1)) := by
  rw [alikeEntries_iff_forall₂] at halike ⊢
  -- Both lists are the two sides of one list of pairs, which is sorted once.
  have hlength : entries.length = others.length := halike.length_eq
  have hpairs (pair : (String × FileTree) × (String × FileTree))
      (hpair : pair ∈ entries.zip others) :
      pair.1.1 = pair.2.1 ∧ Alike same pair.1.2 pair.2.2 :=
    (List.forall₂_iff_zip.mp halike).2 hpair
  let byName := fun first second : String × FileTree ↦ decide (first.1 ≤ second.1)
  let byNames := fun first second : (String × FileTree) × (String × FileTree) ↦
    decide (first.1.1 ≤ second.1.1)
  have hleft : entries.mergeSort byName =
      ((entries.zip others).mergeSort byNames).map Prod.fst := by
    have hnames : ∀ first ∈ entries.zip others, ∀ second ∈ entries.zip others,
        byNames first second = byName first.1 second.1 := fun _ _ _ _ ↦ rfl
    rw [List.map_mergeSort hnames, List.map_fst_zip (Nat.le_of_eq hlength)]
  have hright : others.mergeSort byName =
      ((entries.zip others).mergeSort byNames).map Prod.snd := by
    have hnames : ∀ first ∈ entries.zip others, ∀ second ∈ entries.zip others,
        byNames first second = byName first.2 second.2 := by
      intro first hfirst second hsecond
      simp only [byNames, byName, (hpairs first hfirst).1, (hpairs second hsecond).1]
    rw [List.map_mergeSort hnames, List.map_snd_zip (Nat.le_of_eq hlength.symm)]
  rw [hleft, hright, List.forall₂_map_left_iff, List.forall₂_map_right_iff, List.forall₂_same]
  exact fun pair hpair ↦ hpairs pair (List.mem_mergeSort.mp hpair)

end FileTree

/-! ### Alike disks -/

/-- Two disks with alike trees and the same working directory. -/
structure Disk.Alike (same : List UInt8 → List UInt8 → Prop) (disk other : Disk) : Prop where
  root : FileTree.Alike same disk.root other.root
  workingDirectory : disk.workingDirectory = other.workingDirectory

namespace Disk.Alike

variable {same : List UInt8 → List UInt8 → Prop} {disk other : Disk}

/-- A disk is like itself with other bytes in a file. -/
theorem of_set (hsame : ∀ bytes, same bytes bytes) {place : List String}
    {bytes rewritten : List UInt8} (hfile : disk.root.get? place = some (.file bytes))
    (hbytes : same bytes rewritten) :
    Disk.Alike same disk { disk with root := disk.root.set place (.file rewritten) } :=
  ⟨FileTree.alike_set hsame hfile hbytes, rfl⟩

/-- A path goes the same ways in both. -/
theorem step_eq (halike : Disk.Alike same disk other) : disk.step = other.step := by
  funext place piece
  rw [step, step]
  rcases halike.root.get? place with ⟨hfirst, hsecond⟩ | ⟨_, _, hfirst, hsecond, hfound⟩
  · rw [hfirst, hsecond]
  · rw [hfirst, hsecond]
    cases hfound with
    | file => rfl
    | directory hentries =>
      rcases hentries.findEntry (String.ofList piece) with
        ⟨hentry, hlike⟩ | ⟨_, _, hentry, hlike, -⟩
      · simp only [hentry, hlike]
      · simp only [hentry, hlike]

/-- A path leads to the same place in both. -/
theorem place_eq (halike : Disk.Alike same disk other) (path : Path) :
    disk.place path = other.place path := by
  rw [place, place, halike.step_eq, halike.workingDirectory]

theorem absolutePath_eq (halike : Disk.Alike same disk other) (path : Path) :
    disk.absolutePath path = other.absolutePath path := by
  rw [absolutePath, absolutePath, halike.place_eq]

/-- A path leads to two alike entries, or to none for the same reason. -/
theorem locate (halike : Disk.Alike same disk other) (path : Path) :
    (∃ fault, disk.locate path = .error fault ∧ other.locate path = .error fault) ∨
      ∃ first second, disk.locate path = .ok first ∧ other.locate path = .ok second ∧
        FileTree.Alike same first second := by
  rw [Disk.locate, Disk.locate, halike.place_eq]
  cases other.place path with
  | error fault => exact .inl ⟨fault, rfl, rfl⟩
  | ok place =>
    rcases halike.root.get? place with ⟨hfirst, hsecond⟩ | ⟨first, second, hfirst, hsecond, hfound⟩
    · exact .inl ⟨.notFound, by simp [bind, Except.bind, hfirst],
        by simp [bind, Except.bind, hsecond]⟩
    · exact .inr ⟨first, second, by simp [bind, Except.bind, hfirst],
        by simp [bind, Except.bind, hsecond], hfound⟩

theorem exists?_eq (halike : Disk.Alike same disk other) (path : Path) :
    disk.exists? path = other.exists? path := by
  rw [exists?, exists?]
  rcases halike.locate path with ⟨_, hfirst, hsecond⟩ | ⟨_, _, hfirst, hsecond, -⟩
  · rw [hfirst, hsecond]
  · rw [hfirst, hsecond]

theorem isDirectory_eq (halike : Disk.Alike same disk other) (path : Path) :
    disk.isDirectory path = other.isDirectory path := by
  rw [isDirectory, isDirectory]
  rcases halike.locate path with ⟨_, hfirst, hsecond⟩ | ⟨_, _, hfirst, hsecond, hfound⟩
  · rw [hfirst, hsecond]
  · rw [hfirst, hsecond]
    cases hfound <;> rfl

/-- A path is listed as two lists of alike entries, or as none for the same reason. -/
theorem listDirectory (halike : Disk.Alike same disk other) (path : Path) :
    (∃ fault, disk.listDirectory path = .error fault ∧ other.listDirectory path = .error fault) ∨
      ∃ entries others, disk.listDirectory path = .ok entries ∧
        other.listDirectory path = .ok others ∧ FileTree.AlikeEntries same entries others := by
  rw [Disk.listDirectory, Disk.listDirectory]
  rcases halike.locate path with ⟨fault, hfirst, hsecond⟩ | ⟨_, _, hfirst, hsecond, hfound⟩
  · rw [hfirst, hsecond]
    exact .inl ⟨fault, rfl, rfl⟩
  · rw [hfirst, hsecond]
    cases hfound with
    | file => exact .inl ⟨.notADirectory, rfl, rfl⟩
    | directory hentries => exact .inr ⟨_, _, rfl, rfl, hentries.mergeSort⟩

end Disk.Alike

end Roster
