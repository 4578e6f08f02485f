import Mathlib.Data.List.DropRight
import Roster.Lists.Derive
import Roster.Proofs.File.CanonicalPaths

/-!
# Parents of paths of any spelling

The parent of a path is written as what is left of the pieces of the path. It has the components of
the path but the last one (`Path.components_parent`), whatever slashes and dots stand between them,
and the empty path and the root alone have no parent (`Path.length_components_of_parent`).

The root needs care. Its path has two empty pieces, one of which is dropped like any silent piece at
the end, and putting the other one together again gives the root and not the empty path
(`Path.components_ofPieces`).

So the directory two levels above a file can be read off the components of its path
(`testName?_eq_some_iff`).
-/

set_option autoImplicit false
set_option relaxedAutoImplicit false

namespace Roster

namespace Path

variable {path above : Path}

/-! ### Pieces and components -/

theorem pieces_ne_nil (path : Path) : path.pieces ≠ [] :=
  Text.splitOn_ne_nil '/' path.text.toList

/-- A path starts at the root when it has an empty piece with another one behind it. -/
theorem isAbsolute_iff {first : List Char} {rest : List (List Char)}
    (hpieces : path.pieces = first :: rest) :
    path.isAbsolute = true ↔ first = [] ∧ rest ≠ [] := by
  rw [isAbsolute, decide_eq_true_iff]
  rw [pieces] at hpieces
  cases htext : path.text.toList with
  | nil =>
    rw [htext, Text.splitOn] at hpieces
    cases hpieces
    simp
  | cons character behind =>
    rw [htext, Text.splitOn] at hpieces
    split at hpieces
    · next hslash =>
      cases hpieces
      simp [hslash, Text.splitOn_ne_nil]
    · next hother =>
      split at hpieces <;> cases hpieces <;> simp [hother]

/-- The components that the first piece of a path gives. -/
def startOf (absolute : Bool) (first : List Char) : List Component :=
  if absolute then [.root]
  else if first = ['.'] then [.here]
  else (Component.ofPiece first).toList

theorem components_of_pieces {first : List Char} {rest : List (List Char)}
    (hpieces : path.pieces = first :: rest) :
    path.components = startOf path.isAbsolute first ++ rest.filterMap Component.ofPiece := by
  rw [components, hpieces]
  rfl

/-- Pieces put together are the pieces of the path that they make, but for one empty piece, which
makes the root. -/
theorem pieces_ofPieces {first : List Char} {rest : List (List Char)}
    (hslash : ∀ piece ∈ first :: rest, '/' ∉ piece) (hsome : first = [] → rest ≠ []) :
    (ofPieces (first :: rest)).pieces = first :: rest := by
  have htext : ofPieces (first :: rest) =
      ⟨String.ofList (Text.joinWith ['/'] (first :: rest))⟩ := by
    rw [ofPieces]
    intro hempty
    exact hsome (List.cons.inj hempty).1 (List.cons.inj hempty).2
  rw [htext, pieces, String.toList_ofList]
  exact Text.splitOn_joinWith hslash (List.cons_ne_nil first rest)

/-- What is put together from pieces of a path has their components. A first piece that is empty
stands for the root. -/
theorem components_ofPieces {first : List Char} {rest : List (List Char)}
    (hslash : ∀ piece ∈ first :: rest, '/' ∉ piece) :
    (ofPieces (first :: rest)).components =
      startOf (decide (first = [])) first ++ rest.filterMap Component.ofPiece := by
  by_cases hroot : first = [] ∧ rest = []
  · obtain ⟨rfl, rfl⟩ := hroot
    rfl
  · have hsome : first = [] → rest ≠ [] := fun hfirst hrest ↦ hroot ⟨hfirst, hrest⟩
    have hpieces := pieces_ofPieces hslash hsome
    have habsolute : (ofPieces (first :: rest)).isAbsolute = decide (first = []) := by
      rw [Bool.eq_iff_iff, isAbsolute_iff hpieces, decide_eq_true_iff]
      exact and_iff_left_of_imp hsome
    rw [components_of_pieces hpieces, habsolute]

/-- The first piece of a relative path gives one component, if it is not empty. -/
theorem exists_startOf_eq {first : List Char} (hsome : first ≠ []) :
    ∃ component, startOf false first = [component] := by
  rw [startOf, if_neg Bool.false_ne_true]
  split
  · exact ⟨.here, rfl⟩
  · next hdot =>
    have hspoken : isSilent first = false := by simp [isSilent, hsome, hdot]
    rw [Component.ofPiece, hspoken, if_neg Bool.false_ne_true]
    split <;> exact ⟨_, rfl⟩

/-! ### Silent pieces at the end -/

/-- Silent pieces give no component. -/
theorem Component.ofPiece_eq_none_iff {piece : List Char} :
    ofPiece piece = none ↔ isSilent piece = true := by
  rw [ofPiece]
  split
  · next hsilent => simp [hsilent]
  · next hspoken => split <;> simp [hspoken]

/-- Without the silent pieces at the end there are the same components. -/
theorem filterMap_rdropWhile_isSilent (pieces : List (List Char)) :
    (pieces.rdropWhile isSilent).filterMap Component.ofPiece =
      pieces.filterMap Component.ofPiece := by
  induction pieces using List.reverseRecOn with
  | nil => rfl
  | append_singleton front last ih =>
    rw [List.rdropWhile_concat]
    split
    · next hsilent =>
      have hlast : [last].filterMap Component.ofPiece = [] := by
        simpa [Component.ofPiece_eq_none_iff] using hsilent
      rw [ih, List.filterMap_append, hlast, List.append_nil]
    · rfl

theorem dropSilentEnd_cons (first : List Char) (rest : List (List Char)) :
    dropSilentEnd (first :: rest) = first :: rest.rdropWhile isSilent :=
  rfl

/-! ### The parent -/

/-- What is left of the pieces of a path in front of some piece makes a path with the components in
front of the one of this piece. -/
theorem components_ofPieces_dropSilentEnd {first : List Char} {front rest : List (List Char)}
    (hpieces : path.pieces = first :: rest) (hfront : ∀ piece ∈ front, piece ∈ rest)
    (hmore : rest ≠ []) :
    (ofPieces (dropSilentEnd (first :: front))).components =
      startOf path.isAbsolute first ++ front.filterMap Component.ofPiece := by
  have hslash : ∀ piece ∈ first :: rest, '/' ∉ piece := fun piece hpiece ↦
    Text.not_mem_of_mem_splitOn (hpieces ▸ hpiece : piece ∈ path.pieces)
  have hkept : ∀ piece ∈ first :: front.rdropWhile isSilent, '/' ∉ piece := by
    obtain ⟨hfirst, hrest⟩ := List.forall_mem_cons.mp hslash
    refine List.forall_mem_cons.mpr ⟨hfirst, fun piece hpiece ↦ hrest piece (hfront piece ?_)⟩
    exact (List.rdropWhile_prefix isSilent front).subset hpiece
  have habsolute : path.isAbsolute = decide (first = []) := by
    rw [Bool.eq_iff_iff, isAbsolute_iff hpieces, decide_eq_true_iff]
    exact and_iff_left hmore
  rw [dropSilentEnd_cons, components_ofPieces hkept, filterMap_rdropWhile_isSilent, habsolute]

theorem parent_of_piece {only : List Char} (hkept : dropSilentEnd path.pieces = [only]) :
    path.parent = if only = [] then none else some ⟨""⟩ := by
  rw [parent, hkept]

theorem parent_of_pieces {first last : List Char} {front : List (List Char)}
    (hkept : dropSilentEnd path.pieces = first :: (front ++ [last])) :
    path.parent = some (ofPieces (dropSilentEnd (first :: front))) := by
  have hfront : (first :: (front ++ [last])).dropLast = first :: front := by
    rw [← List.cons_append, List.dropLast_concat]
  obtain ⟨next, others, hbehind⟩ := List.exists_cons_of_ne_nil (List.concat_ne_nil last front)
  rw [← hfront, parent, hkept, hbehind]

/-- A path without a parent is empty or the root. -/
theorem length_components_of_parent (hparent : path.parent = none) :
    path.components.length ≤ 1 := by
  obtain ⟨first, rest, hpieces⟩ := List.exists_cons_of_ne_nil path.pieces_ne_nil
  rw [components_of_pieces hpieces, ← filterMap_rdropWhile_isSilent rest]
  have hkept : dropSilentEnd path.pieces = first :: rest.rdropWhile isSilent := by
    rw [hpieces, dropSilentEnd_cons]
  cases hend : rest.rdropWhile isSilent using List.reverseRecOn with
  | nil =>
    rw [List.filterMap_nil, List.append_nil, startOf]
    split
    · exact le_refl 1
    · split
      · exact le_refl 1
      · exact Option.length_toList_le
  | append_singleton front last =>
    rw [hend] at hkept
    rw [parent_of_pieces hkept] at hparent
    cases hparent

/-- The parent of a path has all components of the path but the last one. -/
theorem components_parent (hparent : path.parent = some above) :
    ∃ last, path.components = above.components ++ [last] := by
  obtain ⟨first, rest, hpieces⟩ := List.exists_cons_of_ne_nil path.pieces_ne_nil
  rw [components_of_pieces hpieces]
  have hkept : dropSilentEnd path.pieces = first :: rest.rdropWhile isSilent := by
    rw [hpieces, dropSilentEnd_cons]
  cases hend : rest.rdropWhile isSilent using List.reverseRecOn with
  | nil =>
    rw [hend] at hkept
    rw [parent_of_piece hkept] at hparent
    split at hparent
    · cases hparent
    · next hsome =>
      cases hparent
      have hrelative : path.isAbsolute = false := by
        rw [Bool.eq_false_iff, Ne, isAbsolute_iff hpieces]
        exact fun hroot ↦ hsome hroot.1
      obtain ⟨component, hstart⟩ := exists_startOf_eq hsome
      rw [← filterMap_rdropWhile_isSilent, hend, hrelative, hstart]
      exact ⟨component, rfl⟩
  | append_singleton front last =>
    rw [hend] at hkept
    rw [parent_of_pieces hkept, Option.some.injEq] at hparent
    have hmem : ∀ piece ∈ front ++ [last], piece ∈ rest :=
      fun _ hpiece ↦ (List.rdropWhile_prefix isSilent rest).subset (hend ▸ hpiece)
    have hmore : rest ≠ [] := List.ne_nil_of_mem (hmem last List.mem_concat_self)
    have hspoken : Component.ofPiece last ≠ none := by
      have hlast := List.rdropWhile_last_not isSilent rest (by simp [hend])
      simpa [hend, Component.ofPiece_eq_none_iff] using hlast
    obtain ⟨component, hcomponent⟩ := Option.ne_none_iff_exists'.mp hspoken
    refine ⟨component, ?_⟩
    rw [← hparent, components_ofPieces_dropSilentEnd hpieces
        (fun piece hpiece ↦ hmem piece (List.mem_append_left _ hpiece)) hmore,
      ← filterMap_rdropWhile_isSilent rest, hend, List.filterMap_append, List.append_assoc,
      List.filterMap_cons_some hcomponent, List.filterMap_nil]

/-- A path with two components or more has a parent, with all of them but the last one. -/
theorem exists_parent {front : List Component} {last : Component}
    (hcomponents : path.components = front ++ [last]) (hmore : front ≠ []) :
    ∃ above, path.parent = some above ∧ above.components = front := by
  have hparent : path.parent ≠ none := by
    intro hnone
    have hshort := length_components_of_parent hnone
    rw [hcomponents, List.length_append, List.length_singleton] at hshort
    have hlong : 0 < front.length := List.length_pos_of_ne_nil hmore
    omega
  obtain ⟨above, habove⟩ := Option.ne_none_iff_exists'.mp hparent
  obtain ⟨other, hother⟩ := components_parent habove
  exact ⟨above, habove, (List.append_inj' (hother.symm.trans hcomponents) rfl).1⟩

theorem fileName_eq_some_iff {name : String} :
    path.fileName = some name ↔ ∃ front, path.components = front ++ [.entry name] := by
  rw [← List.getLast?_eq_some_iff, fileName]
  split
  · next last hlast => simp [hlast]
  · next hother =>
    simp only [reduceCtorEq, false_iff]
    exact hother name

end Path

/-- The directory two levels above a file has a name when the last component but two is one. -/
theorem testName?_eq_some_iff {file : Path} {group : String} :
    testName? file = some group ↔
      ∃ front directory last, file.components = front ++ [.entry group, directory, last] := by
  simp only [testName?, Option.bind_eq_bind, Option.bind_eq_some_iff, Path.fileName_eq_some_iff]
  constructor
  · rintro ⟨directory, hdirectory, above, habove, front, hfront⟩
    obtain ⟨last, hlast⟩ := Path.components_parent hdirectory
    obtain ⟨name, hname⟩ := Path.components_parent habove
    exact ⟨front, name, last, by simp [hlast, hname, hfront]⟩
  · rintro ⟨front, name, last, hcomponents⟩
    have hsplit : file.components = (front ++ [.entry group] ++ [name]) ++ [last] := by
      simp [hcomponents]
    obtain ⟨directory, hdirectory, hbelow⟩ := Path.exists_parent hsplit (List.concat_ne_nil _ _)
    obtain ⟨above, habove, hgroup⟩ := Path.exists_parent hbelow (List.concat_ne_nil _ _)
    exact ⟨directory, hdirectory, above, habove, front, hgroup⟩

end Roster
