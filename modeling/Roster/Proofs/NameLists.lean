import Roster.Names

/-!
# Order and repetitions in lists of names

An ascending list has no repetitions (`Ascending.nodup`), and its names determine it
(`Ascending.eq_of_mem_iff`): two ways to collect the same names into an ascending list give the same
list.

`withoutRepeats` repeats no name (`nodup_withoutRepeats`). Its single pass with the names seen so far
is the library's `eraseDups` (`withoutRepeats_eq_eraseDups`), which keeps the first occurrence of each
name and erases the others behind it.

`sortNames` gives one list for all orders of the same names (`sortNames_eq_of_perm`).
-/

set_option autoImplicit false
set_option relaxedAutoImplicit false

namespace Roster

/-! ### Ascending lists -/

/-- An ascending list has no repetitions. -/
theorem Ascending.nodup {names : List String} (hascending : Ascending names) : names.Nodup := by
  refine List.Pairwise.imp ?_ hascending
  intro first second hbefore hsame
  rw [hsame] at hbefore
  exact String.lt_irrefl second hbefore

/-- Two ascending lists of the same names are the same list. -/
theorem Ascending.eq_of_mem_iff {first second : List String} (hfirst : Ascending first)
    (hsecond : Ascending second) (hsame : ∀ name, name ∈ first ↔ name ∈ second) :
    first = second := by
  have hperm : first.Perm second :=
    (List.perm_ext_iff_of_nodup hfirst.nodup hsecond.nodup).mpr hsame
  refine hperm.eq_of_pairwise (fun left right _ _ hleft hright ↦ ?_) hfirst hsecond
  exact absurd hright (String.lt_asymm hleft)

/-- A sorted list without repetitions is ascending. -/
theorem ascending_of_nodup {names : List String} (hsorted : names.Pairwise (· ≤ ·))
    (hdistinct : names.Nodup) : Ascending names := by
  refine (hsorted.and hdistinct).imp fun ⟨hle, hne⟩ ↦ ?_
  exact lt_of_not_lt_of_ne (String.not_lt.mpr hle) hne.symm

/-! ### Lists without repetitions -/

/-- The pass over a list erases the names seen before it, and behind each name its repetitions. -/
theorem withoutRepeatsFrom_eq_eraseDups (seen names : List String) :
    withoutRepeatsFrom seen names = (names.filter fun name ↦ name ∉ seen).eraseDups := by
  induction names generalizing seen with
  | nil => rfl
  | cons first rest ih =>
    by_cases hseen : first ∈ seen
    · rw [withoutRepeatsFrom, if_pos hseen, ih]
      simp [hseen]
    · rw [withoutRepeatsFrom, if_neg hseen, ih]
      rw [List.filter_cons_of_pos (by simpa using hseen), List.eraseDups_cons, List.filter_filter]
      congr 2
      refine List.filter_congr fun name _ ↦ ?_
      by_cases hfirst : name = first <;> simp [hfirst]

/-- Leaving out repetitions keeps the first occurrence of each name and erases the others. -/
theorem withoutRepeats_eq_eraseDups (names : List String) :
    withoutRepeats names = names.eraseDups := by
  have hall : (names.filter fun name ↦ name ∉ []) = names :=
    List.filter_eq_self.mpr fun name _ ↦ by simp
  rw [withoutRepeats, withoutRepeatsFrom_eq_eraseDups, hall]

theorem nodup_withoutRepeatsFrom (seen names : List String) :
    (withoutRepeatsFrom seen names).Nodup ∧
      ∀ name ∈ withoutRepeatsFrom seen names, name ∉ seen := by
  induction names generalizing seen with
  | nil => simp [withoutRepeatsFrom]
  | cons first rest ih =>
    rw [withoutRepeatsFrom]
    split
    · exact ih seen
    · next hfresh =>
      obtain ⟨hnodup, houtside⟩ := ih (first :: seen)
      refine ⟨List.nodup_cons.mpr ⟨fun hmem ↦ ?_, hnodup⟩, fun name hmem ↦ ?_⟩
      · exact houtside first hmem List.mem_cons_self
      · rcases List.mem_cons.mp hmem with rfl | hmem
        · exact hfresh
        · exact fun hseen ↦ houtside name hmem (List.mem_cons_of_mem _ hseen)

/-- Leaving out repetitions leaves none. -/
theorem nodup_withoutRepeats (names : List String) : (withoutRepeats names).Nodup :=
  (nodup_withoutRepeatsFrom [] names).1

theorem nodup_eraseDups (names : List String) : names.eraseDups.Nodup := by
  rw [← withoutRepeats_eq_eraseDups]
  exact nodup_withoutRepeats names

/-- Where there are no repetitions, none is left out. -/
theorem eraseDups_of_nodup {names : List String} (hdistinct : names.Nodup) :
    names.eraseDups = names := by
  induction names with
  | nil => rfl
  | cons first rest ih =>
    obtain ⟨hfresh, hrest⟩ := List.nodup_cons.mp hdistinct
    have hothers : rest.filter (fun name ↦ !name == first) = rest := by
      refine List.filter_eq_self.mpr fun name hname ↦ ?_
      have hne : name ≠ first := fun hsame ↦ hfresh (hsame ▸ hname)
      simpa using hne
    rw [List.eraseDups_cons, hothers, ih hrest]

/-! ### Sorted lists -/

/-- Sorting puts no name behind a smaller one. -/
theorem pairwise_sortNames (names : List String) : (sortNames names).Pairwise (· ≤ ·) := by
  refine (List.pairwise_mergeSort ?_ ?_ names).imp fun hle ↦ of_decide_eq_true hle
  · intro first second third hfirst hsecond
    exact decide_eq_true (String.le_trans (of_decide_eq_true hfirst) (of_decide_eq_true hsecond))
  · intro first second
    simpa using String.le_total first second

theorem mem_sortNames {name : String} {names : List String} :
    name ∈ sortNames names ↔ name ∈ names :=
  List.mem_mergeSort

/-- Names that stand in order are not moved. -/
theorem sortNames_of_pairwise {names : List String} (hsorted : names.Pairwise (· ≤ ·)) :
    sortNames names = names :=
  List.mergeSort_of_pairwise (hsorted.imp fun hle ↦ decide_eq_true hle)

/-- Sorting does not see the order in which the names come. -/
theorem sortNames_eq_of_perm {first second : List String} (hperm : first.Perm second) :
    sortNames first = sortNames second := by
  have hsorted : (sortNames first).Perm (sortNames second) :=
    (List.mergeSort_perm _ _).trans (hperm.trans (List.mergeSort_perm _ _).symm)
  apply hsorted.eq_of_pairwise ?_ (pairwise_sortNames first) (pairwise_sortNames second)
  intro left right _ _ hle hge
  exact String.le_antisymm hle hge

end Roster
