import Mathlib.Data.List.TakeWhile
import Roster.File.Path

/-!
# File names cut at their last dot

The stem of a file name stands before its last dot, and the suffix behind it. Three kinds of names
are not cut: those without a dot, those whose only dot stands first, and the two dots that stand for
the directory above. Where a name is cut can be read off the place of its last dot
(`Path.cutAtLastDot_of_last_dot`).

Cutting undoes putting a dot between a stem that is not empty and a suffix without dots, whatever
dots the stem has at its ends and inside, and nothing else is cut
(`Path.cutAtLastDot_eq_some_iff`).
-/

set_option autoImplicit false
set_option relaxedAutoImplicit false

namespace Roster.Path

/-- A text with a dot has a last one. -/
theorem exists_last_dot {text : List Char} (hdot : '.' ∈ text) :
    ∃ front behind, text = front ++ '.' :: behind ∧ '.' ∉ behind := by
  obtain ⟨behind, front, hsplit, hbehind⟩ :=
    List.eq_append_cons_of_mem (List.mem_reverse.mpr hdot)
  refine ⟨front.reverse, behind.reverse, ?_, fun hmem ↦ hbehind (List.mem_reverse.mp hmem)⟩
  simpa using congrArg List.reverse hsplit

/-- Read from its end, a text begins with what stands behind its last dot. -/
theorem takeWhile_reverse_of_last_dot {front behind : List Char} (hbehind : '.' ∉ behind) :
    (front ++ '.' :: behind).reverse.takeWhile (· ≠ '.') = behind.reverse := by
  have hplain : ∀ character ∈ behind.reverse, decide (character ≠ '.') = true := fun _ hmem ↦
    decide_eq_true (ne_of_mem_of_not_mem (List.mem_reverse.mp hmem) hbehind)
  rw [List.reverse_append, List.reverse_cons, List.append_assoc, List.takeWhile_append_of_pos hplain]
  simp

variable {name stem suffix : String}

/-- A name with a last dot is cut there, unless the dot stands first. -/
theorem cutAtLastDot_of_last_dot {front behind : List Char} (hbehind : '.' ∉ behind)
    (hname : name.toList = front ++ '.' :: behind) :
    cutAtLastDot name =
      if front = [] ∨ name = ".." then (name, none)
      else (String.ofList front, some (String.ofList behind)) := by
  have hafter : (name.toList.reverse.takeWhile (· ≠ '.')).reverse = behind := by
    rw [hname, takeWhile_reverse_of_last_dot hbehind, List.reverse_reverse]
  have hlength : name.toList.length - behind.length - 1 = front.length := by
    rw [hname, List.length_append, List.length_cons]
    omega
  have hbefore : name.toList.take (name.toList.length - behind.length - 1) = front := by
    rw [hlength, hname, List.take_left]
  have hshorter : behind.length ≠ name.toList.length := by
    rw [hname, List.length_append, List.length_cons]
    omega
  simp only [cutAtLastDot, hafter, hbefore, hshorter, decide_false, Bool.false_or, Bool.or_eq_true,
    decide_eq_true_eq]

/-- A name without a dot is not cut. -/
theorem cutAtLastDot_of_no_dot (hname : '.' ∉ name.toList) : cutAtLastDot name = (name, none) := by
  have hplain : ∀ character ∈ name.toList.reverse, decide (character ≠ '.') = true := fun _ hmem ↦
    decide_eq_true (ne_of_mem_of_not_mem (List.mem_reverse.mp hmem) hname)
  have hafter : (name.toList.reverse.takeWhile (· ≠ '.')).reverse = name.toList := by
    rw [List.takeWhile_eq_self_iff.mpr hplain, List.reverse_reverse]
  simp only [cutAtLastDot, hafter, decide_true, Bool.true_or, if_true]

/-- A name is cut into a stem that is not empty and a suffix without dots, between which there is a
dot. Two dots alone are not cut. -/
theorem cutAtLastDot_eq_some_iff :
    cutAtLastDot name = (stem, some suffix) ↔
      stem ≠ "" ∧ '.' ∉ suffix.toList ∧ name ≠ ".." ∧ name = stem ++ "." ++ suffix := by
  constructor
  · intro hcut
    by_cases hdot : '.' ∈ name.toList
    · obtain ⟨front, behind, hname, hbehind⟩ := exists_last_dot hdot
      rw [cutAtLastDot_of_last_dot hbehind hname] at hcut
      split at hcut
      · cases hcut
      · next hwhere =>
        obtain ⟨hfront, habove⟩ := not_or.mp hwhere
        cases hcut
        refine ⟨by simpa using hfront, by rwa [String.toList_ofList], habove, ?_⟩
        exact String.toList_injective (by simp [hname])
    · rw [cutAtLastDot_of_no_dot hdot] at hcut
      cases hcut
  · rintro ⟨hstem, hsuffix, habove, hname⟩
    have hcharacters : name.toList = stem.toList ++ '.' :: suffix.toList := by
      rw [hname]
      simp
    have hwhere : ¬ (stem.toList = [] ∨ name = "..") := not_or.mpr ⟨by simpa using hstem, habove⟩
    rw [cutAtLastDot_of_last_dot hsuffix hcharacters, if_neg hwhere, String.ofList_toList,
      String.ofList_toList]

/-- The two parts of a name that is cut. -/
theorem suffix_and_stem_iff :
    Path.suffix name = some suffix ∧ Path.stem name = stem ↔
      cutAtLastDot name = (stem, some suffix) := by
  rw [Path.suffix, Path.stem, Prod.ext_iff, and_comm]

end Roster.Path
