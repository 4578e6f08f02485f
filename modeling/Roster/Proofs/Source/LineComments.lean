import Mathlib.Data.List.DropRight
import Roster.Proofs.Pattern.Matches
import Roster.Source.Declarations

/-!
# Line comments

A line comment is found by its pattern. What is left of a line without it can be told without the
pattern: all that stands before the first two slashes in a row (`Text.cutSlashes`,
`Source.withoutComment_eq_cutSlashes`). A text of several lines would go on behind the line feed that
ends the comment, but there is none in a line.
-/

set_option autoImplicit false
set_option relaxedAutoImplicit false

namespace Roster

namespace Text

/-- A text without its first two slashes in a row and all that follows them up to a line feed. -/
def cutSlashes : List Char → List Char
  | '/' :: '/' :: rest => rest.dropWhile (· ≠ '\n')
  | character :: rest => character :: cutSlashes rest
  | [] => []

variable {text : List Char}

/-- Without two slashes in a row nothing is cut off. -/
theorem cutSlashes_eq_self (hnone : ¬ ['/', '/'] <:+: text) : cutSlashes text = text := by
  fun_induction cutSlashes text with
  | case1 rest => exact absurd (List.prefix_append ['/', '/'] rest).isInfix hnone
  | case2 character rest _ ih =>
    rw [ih fun hrest ↦ hnone (List.infix_cons_iff.mpr (.inr hrest))]
  | case3 => rfl

/-- Without a line feed, only the end of a text is cut off. -/
theorem isPrefix_cutSlashes (hline : '\n' ∉ text) : cutSlashes text <+: text := by
  fun_induction cutSlashes text with
  | case1 rest =>
    have hrest : rest.dropWhile (· ≠ '\n') = [] := by
      refine List.dropWhile_eq_nil_iff.mpr fun character hcharacter ↦ decide_eq_true ?_
      rintro rfl
      exact hline (List.mem_cons_of_mem _ (List.mem_cons_of_mem _ hcharacter))
    rw [hrest]
    exact List.nil_prefix
  | case2 character rest _ ih =>
    rw [List.prefix_cons_inj]
    exact ih fun hmem ↦ hline (List.mem_cons_of_mem _ hmem)
  | case3 => exact List.prefix_rfl

theorem isInfix_trim (text : List Char) : trim text <:+: text := by
  have hend : trim text <+: trimStart text := List.rdropWhile_prefix isBlank (trimStart text)
  have hstart : trimStart text <:+ text := List.dropWhile_suffix isBlank
  exact hend.isInfix.trans hstart.isInfix

end Text

namespace Pattern

/-- Where everything is accepted, a run takes all that it can. -/
theorem behindRun_some {Result : Type} (characters : CharacterClass)
    (result : List Char → Result) (text : List Char) :
    behindRun characters (fun rest ↦ some (result rest)) text =
      some (result (text.dropWhile characters.holds)) := by
  induction text with
  | nil => rfl
  | cons character rest ih =>
    rw [behindRun, List.dropWhile_cons]
    split
    · rw [ih]
    · rfl

end Pattern

namespace Source

variable {before text line : List Char}

/-- A comment is found at two slashes, and reaches up to a line feed. -/
theorem here_lineComment (before rest : List Char) :
    lineComment.here before ('/' :: '/' :: rest) =
      some ⟨before, rest.dropWhile (· ≠ '\n'), []⟩ :=
  Pattern.behindRun_some .any (fun after ↦ LineMatch.mk before after []) rest

/-- No comment is found anywhere else. -/
theorem here_lineComment_eq_none (hother : ¬ ['/', '/'] <+: text) :
    lineComment.here before text = none := by
  by_contra hsome
  obtain ⟨found, hfound⟩ := Option.ne_none_iff_exists'.mp hsome
  obtain ⟨rest, captures, hmatch, -⟩ := Pattern.exists_matches_of_first hfound
  cases hmatch with
  | thenMatch hslashes _ =>
    cases hslashes
    exact hother (List.prefix_append _ _)

/-- The search for a comment goes on to the first two slashes in a row. -/
theorem firstFrom_lineComment (before text : List Char) :
    ((lineComment.firstFrom before text).map fun found ↦ found.before ++ found.after).getD
      (before ++ text) = before ++ Text.cutSlashes text := by
  fun_induction Text.cutSlashes text generalizing before with
  | case1 rest =>
    rw [LinePattern.firstFrom, here_lineComment]
    rfl
  | case2 character rest hother ih =>
    have hnone : lineComment.here before (character :: rest) = none := by
      refine here_lineComment_eq_none ?_
      rintro ⟨behind, hbehind⟩
      cases hbehind
      exact hother _ rfl rfl
    have hgoes : lineComment.firstFrom before (character :: rest) =
        lineComment.firstFrom (before ++ [character]) rest := by
      rw [LinePattern.firstFrom, hnone]
      rfl
    rw [hgoes]
    simpa using ih (before ++ [character])
  | case3 =>
    have hnone : lineComment.here before [] = none := here_lineComment_eq_none (by decide)
    rw [LinePattern.firstFrom, hnone]
    rfl

/-- What is left of a line without its comment. -/
theorem withoutComment_eq_cutSlashes (line : List Char) :
    withoutComment line = Text.cutSlashes (Text.trim line) := by
  have hcut := firstFrom_lineComment [] (Text.trim line)
  rw [withoutComment, LinePattern.withoutFirst, LinePattern.first]
  cases hfound : lineComment.firstFrom [] (Text.trim line) with
  | none => simpa [hfound] using hcut
  | some found => simpa [hfound] using hcut

/-- Without two slashes in a row a line is trimmed only. -/
theorem withoutComment_eq_trim (huncut : ¬ ['/', '/'] <:+: line) :
    withoutComment line = Text.trim line := by
  rw [withoutComment_eq_cutSlashes]
  exact Text.cutSlashes_eq_self fun hslashes ↦ huncut (hslashes.trans (Text.isInfix_trim line))

/-- What is left of a line is a part of it. -/
theorem isInfix_withoutComment (hline : '\n' ∉ line) : withoutComment line <:+: line := by
  have htrim : '\n' ∉ Text.trim line := fun hmem ↦ hline ((Text.isInfix_trim line).subset hmem)
  rw [withoutComment_eq_cutSlashes]
  exact (Text.isPrefix_cutSlashes htrim).isInfix.trans (Text.isInfix_trim line)

end Source

end Roster
