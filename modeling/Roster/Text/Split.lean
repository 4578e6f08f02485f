/-!
# Cutting texts into pieces

`splitOn` cuts a text at every occurrence of one character and `lines` is the list of the lines of a
text. A line ends with a line feed, which a carriage return may precede; the end of the text ends
the last line. `joinWith` puts pieces together again, and `joinWith_splitOn` says that it undoes the
cutting. The other way round, `splitOn_joinWith` needs pieces without a separator in them, as those
of a cut text are (`not_mem_of_mem_splitOn`).

`occursIn` says whether one text occurs in another one.
-/

set_option autoImplicit false
set_option relaxedAutoImplicit false

namespace Roster.Text

/-- The pieces between the occurrences of a character: always one more than there are of it. -/
def splitOn (separator : Char) : List Char → List (List Char)
  | [] => [[]]
  | character :: rest =>
    if character = separator then [] :: splitOn separator rest
    else
      match splitOn separator rest with
      | [] => [[character]]
      | piece :: pieces => (character :: piece) :: pieces

/-- The pieces with a separating text between each two of them. -/
def joinWith (separator : List Char) : List (List Char) → List Char
  | [] => []
  | [piece] => piece
  | piece :: pieces => piece ++ separator ++ joinWith separator pieces

theorem splitOn_ne_nil (separator : Char) (text : List Char) : splitOn separator text ≠ [] := by
  cases text with
  | nil => simp [splitOn]
  | cons character rest =>
    rw [splitOn]
    split
    · simp
    · split <;> simp

/-- The pieces are those of the library's `List.splitOn`. -/
theorem splitOn_eq_listSplitOn (separator : Char) (text : List Char) :
    splitOn separator text = text.splitOn separator := by
  induction text with
  | nil => rfl
  | cons character rest ih =>
    rw [splitOn, List.splitOn_cons_eq_if_modifyHead, ih]
    cases pieces : rest.splitOn separator with
    | nil => exact absurd pieces (List.splitOn_ne_nil separator rest)
    | cons piece others => simp

/-- Cutting at a character and joining with it gives the text back. -/
theorem joinWith_splitOn (separator : Char) (text : List Char) :
    joinWith [separator] (splitOn separator text) = text := by
  induction text with
  | nil => rfl
  | cons character rest ih =>
    rw [splitOn]
    split
    · next same =>
      cases pieces : splitOn separator rest with
      | nil => exact absurd pieces (splitOn_ne_nil separator rest)
      | cons piece others => simp [joinWith, ← pieces, ih, same]
    · cases pieces : splitOn separator rest with
      | nil => exact absurd pieces (splitOn_ne_nil separator rest)
      | cons piece others =>
        cases others with
        | nil => simp_all [joinWith]
        | cons next others => simp_all [joinWith]

/-- The pieces between separators have no separator in them. -/
theorem not_mem_of_mem_splitOn {separator : Char} {text piece : List Char}
    (hpiece : piece ∈ splitOn separator text) : separator ∉ piece := by
  induction text generalizing piece with
  | nil =>
    rw [splitOn, List.mem_singleton] at hpiece
    rw [hpiece]
    exact List.not_mem_nil
  | cons character rest ih =>
    rw [splitOn] at hpiece
    split at hpiece
    · rcases List.mem_cons.mp hpiece with rfl | hrest
      · exact List.not_mem_nil
      · exact ih hrest
    · next hother =>
      split at hpiece
      · next hnothing => exact absurd hnothing (splitOn_ne_nil separator rest)
      · next first others hsplit =>
        rw [hsplit, List.forall_mem_cons] at ih
        rcases List.mem_cons.mp hpiece with rfl | hrest
        · exact List.not_mem_cons_of_ne_of_not_mem (Ne.symm hother) ih.1
        · exact ih.2 piece hrest

/-- Pieces are joined as by the library's `List.intercalate`. -/
theorem joinWith_eq_intercalate (separator : List Char) (pieces : List (List Char)) :
    joinWith separator pieces = separator.intercalate pieces := by
  induction pieces with
  | nil => rfl
  | cons piece rest ih =>
    cases rest with
    | nil => simp [joinWith]
    | cons next others =>
      rw [joinWith, ih, List.intercalate_cons_cons]
      exact List.cons_ne_nil next others

/-- Cutting undoes joining where no piece has a separator in it. -/
theorem splitOn_joinWith {separator : Char} {pieces : List (List Char)}
    (hpieces : ∀ piece ∈ pieces, separator ∉ piece) (hsome : pieces ≠ []) :
    splitOn separator (joinWith [separator] pieces) = pieces := by
  rw [splitOn_eq_listSplitOn, joinWith_eq_intercalate]
  exact List.splitOn_intercalate separator hpieces hsome

/-- A line without the carriage return before its line feed. -/
def dropReturn (line : List Char) : List Char :=
  if line.getLast? = some '\r' then line.dropLast else line

/-- The lines among the pieces between line feeds: the piece after the last line feed is a line only
if it is not empty, and keeps a carriage return at its end. -/
def linesOfPieces : List (List Char) → List (List Char)
  | [] => []
  | [last] => if last.isEmpty then [] else [last]
  | piece :: pieces => dropReturn piece :: linesOfPieces pieces

/-- The lines of a text. -/
def lines (text : List Char) : List (List Char) :=
  linesOfPieces (splitOn '\n' text)

/-- Whether a text occurs in another one. -/
def occursIn (part : List Char) : List Char → Bool
  | [] => part.isEmpty
  | character :: rest => part.isPrefixOf (character :: rest) || occursIn part rest

end Roster.Text
