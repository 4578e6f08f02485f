import Mathlib.Data.Nat.Notation
import Roster.Yaml.Scan
import Roster.Yaml.Writer

/-!
# The place behind a text

`Cursor.past` is the place behind a text that stands at a place. With it the readers of scalars and
white space are described by the text that they read: where they stop is the place behind it.

The texts here have no carriage returns, so that a line break is always one character.
-/

set_option autoImplicit false
set_option relaxedAutoImplicit false

namespace Roster.Yaml

/-! ### Characters -/

/-- The text begins with a token: not with white space, a comment or a byte order mark. -/
def BeginsToken : List Char → Prop
  | [] => True
  | character :: _ => isGap character = false ∧ character ≠ '#' ∧ character ≠ '\ufeff'

theorem isGap_eq_false_iff {character : Char} :
    isGap character = false ↔ isSpace character = false ∧ isBreak character = false := by
  rw [isGap, Bool.or_eq_false_iff]

/-- What begins a token is not white space. -/
theorem BeginsToken.head {text : List Char} (hbegins : BeginsToken text) :
    ∀ character ∈ text.head?, character ≠ ' ' ∧ character ≠ '\t' ∧ isBreak character = false ∧
      character ≠ '#' ∧ character ≠ '\ufeff' := by
  cases text with
  | nil => simp
  | cons first rest =>
    rintro _ ⟨⟩
    obtain ⟨hgap, hcomment, hmark⟩ := hbegins
    obtain ⟨hspace, hbreak⟩ := isGap_eq_false_iff.mp hgap
    simp only [isSpace, Bool.or_eq_false_iff, decide_eq_false_iff_not] at hspace
    exact ⟨hspace.1, hspace.2, hbreak, hcomment, hmark⟩

namespace Cursor

variable {cursor : Cursor} {text rest : List Char}

/-! ### Reading on -/

/-- The place behind a line break of one character. -/
def newLine (cursor : Cursor) : Cursor :=
  ⟨cursor.rest.drop 1, cursor.index + 1, cursor.line + 1, 0⟩

/-- The place behind a text, in which each line break is one character. -/
def past (cursor : Cursor) : List Char → Cursor
  | [] => cursor
  | character :: rest => (if isBreak character then cursor.newLine else cursor.skip).past rest

@[simp] theorem past_nil (cursor : Cursor) : cursor.past [] = cursor :=
  rfl

theorem past_append (cursor : Cursor) (first second : List Char) :
    cursor.past (first ++ second) = (cursor.past first).past second := by
  induction first generalizing cursor with
  | nil => rfl
  | cons character rest ih => rw [List.cons_append, past, past, ih]

theorem rest_past (cursor : Cursor) (text : List Char) :
    (cursor.past text).rest = cursor.rest.drop text.length := by
  induction text generalizing cursor with
  | nil => rfl
  | cons character rest ih =>
    rw [past, ih, List.length_cons]
    split <;> simp [newLine, skip, advance]

/-- What is left behind a text that stands at the place. -/
theorem rest_past_of_eq (hrest : cursor.rest = text ++ rest) : (cursor.past text).rest = rest := by
  rw [rest_past, hrest, List.drop_left]

@[simp] theorem index_past (cursor : Cursor) (text : List Char) :
    (cursor.past text).index = cursor.index + text.length := by
  induction text generalizing cursor with
  | nil => rfl
  | cons character rest ih =>
    rw [past, ih, List.length_cons]
    split <;> simp only [newLine, skip, advance] <;> omega

theorem line_le_past (cursor : Cursor) (text : List Char) :
    cursor.line ≤ (cursor.past text).line := by
  induction text generalizing cursor with
  | nil => exact Nat.le_refl _
  | cons character rest ih =>
    rw [past]
    refine Nat.le_trans ?_ (ih _)
    split <;> simp [newLine, skip, advance]

theorem advance_advance (cursor : Cursor) (first second : ℕ) :
    (cursor.advance first).advance second = cursor.advance (first + second) := by
  simp [advance, List.drop_drop, Nat.add_assoc]

@[simp] theorem advance_zero (cursor : Cursor) : cursor.advance 0 = cursor :=
  rfl

/-- On a line, the place behind a text is as far away as the text is long. -/
theorem past_eq_advance (cursor : Cursor) (hline : ∀ character ∈ text, isBreak character = false) :
    cursor.past text = cursor.advance text.length := by
  induction text generalizing cursor with
  | nil => rfl
  | cons character rest ih =>
    obtain ⟨hfirst, hrest⟩ := List.forall_mem_cons.mp hline
    simp [past, hfirst, ih _ hrest, skip, advance_advance, Nat.add_comm]

theorem isBreak_indentation (columns : ℕ) :
    ∀ character ∈ indentation columns, isBreak character = false := by
  intro character hmem
  obtain rfl := List.eq_of_mem_replicate hmem
  decide

@[simp] theorem length_indentation (columns : ℕ) : (indentation columns).length = columns :=
  List.length_replicate

theorem past_indentation (cursor : Cursor) (columns : ℕ) :
    cursor.past (indentation columns) = cursor.advance columns := by
  rw [past_eq_advance cursor (isBreak_indentation columns), length_indentation]

theorem column_past_append_indentation (cursor : Cursor) (text : List Char) (columns : ℕ) :
    (cursor.past (text ++ indentation columns)).column = (cursor.past text).column + columns := by
  rw [past_append, past_indentation, advance]

/-- Behind a line break a line begins. -/
theorem column_past_of_getLast? {last : Char} (cursor : Cursor) (hlast : text.getLast? = some last)
    (hbreak : isBreak last = true) : (cursor.past text).column = 0 := by
  obtain ⟨before, rfl⟩ := List.getLast?_eq_some_iff.mp hlast
  rw [past_append, past, if_pos hbreak]
  rfl

/-- Behind several line breaks a line begins. -/
theorem column_past_breaks {breaks : List Char} (cursor : Cursor) (hsome : breaks ≠ [])
    (hbreaks : ∀ character ∈ breaks, isBreak character = true) :
    (cursor.past breaks).column = 0 :=
  cursor.column_past_of_getLast? (List.getLast?_eq_some_getLast hsome)
    (hbreaks _ (List.getLast_mem hsome))

/-- Behind a line, the line breaks after it and blanks, the place is as far in as there are blanks.
-/
theorem column_past_gap {line breaks : List Char} (cursor : Cursor) (hsome : breaks ≠ [])
    (hbreaks : ∀ character ∈ breaks, isBreak character = true) (columns : ℕ) :
    (cursor.past (line ++ (breaks ++ indentation columns))).column = columns := by
  rw [← List.append_assoc, column_past_append_indentation, past_append,
    column_past_breaks _ hsome hbreaks, Nat.zero_add]

theorem past_line (cursor : Cursor) (columns : ℕ) :
    cursor.past ('\n' :: indentation columns) = cursor.newLine.advance columns := by
  rw [past, if_pos (by decide), past_indentation]

@[simp] theorem column_past_line (cursor : Cursor) (columns : ℕ) :
    (cursor.past ('\n' :: indentation columns)).column = columns := by
  simp [past_line, newLine, advance]

theorem line_lt_past_line (cursor : Cursor) (columns : ℕ) :
    cursor.line < (cursor.past ('\n' :: indentation columns)).line := by
  simp [past_line, newLine, advance]

/-- A break is passed as one character, unless it begins with a carriage return. -/
theorem skipBreak_eq {character : Char} (hrest : cursor.rest = character :: rest)
    (hreturn : character ≠ '\r') : cursor.skipBreak = cursor.newLine := by
  obtain ⟨_, index, line, column⟩ := cursor
  subst hrest
  rw [skipBreak]
  split
  · next hsame => exact absurd (List.cons.inj hsame).1 hreturn
  · next hsame =>
    obtain ⟨rfl, rfl⟩ := List.cons.inj hsame
    rfl
  · next hnil => cases hnil

/-- A document begins and ends at the start of a line. -/
theorem isAtDocumentMarker_of_column_ne (hcolumn : cursor.column ≠ 0) :
    cursor.isAtDocumentMarker = false := by
  simp [isAtDocumentMarker, isAtMarker, hcolumn]

/-- A line that does not begin with the three characters neither begins nor ends a document. -/
theorem isAtMarker_eq_false {mark : Char} (hthree : cursor.rest.take 3 ≠ [mark, mark, mark]) :
    cursor.isAtMarker mark = false := by
  rw [isAtMarker, Bool.and_eq_false_iff]
  right
  match hrest : cursor.rest with
  | [] | [_] | [_, _] => rfl
  | first :: second :: third :: others =>
    simp only [hrest, List.take_succ_cons, List.take_zero, ne_eq, List.cons.injEq, and_true]
      at hthree
    grind

/-- Blanks are passed up to what is none. -/
theorem skipWhile_indentation {columns : ℕ} {holds : Char → Bool} (hblank : holds ' ' = true)
    (hrest : cursor.rest = indentation columns ++ rest)
    (hhead : ∀ character ∈ rest.head?, holds character = false) :
    cursor.skipWhile holds = cursor.advance columns := by
  have hnone : rest.takeWhile holds = [] := by
    cases rest with
    | nil => rfl
    | cons first others => simp [hhead first rfl]
  have hrun : cursor.rest.takeWhile holds = indentation columns := by
    rw [hrest, List.takeWhile_append_of_pos fun character hmem ↦
      List.eq_of_mem_replicate hmem ▸ hblank, hnone, List.append_nil]
  rw [skipWhile, hrun, length_indentation]

end Cursor

/-! ### Lines -/

/-- Lines of a text: they begin with a token and end with a line break. -/
structure IsLines (text : List Char) : Prop where
  /-- The first character begins a token. -/
  begins : ∃ first others, text = first :: others ∧ BeginsToken text
  /-- The last character ends a line. -/
  ends : ∃ last, text.getLast? = some last ∧ isBreak last = true

/-- What follows lines does not change how they begin. -/
theorem IsLines.beginsToken {text : List Char} (hlines : IsLines text) (rest : List Char) :
    BeginsToken (text ++ rest) := by
  obtain ⟨first, others, rfl, hbegins⟩ := hlines.begins
  exact hbegins

/-- Behind lines and an indentation the place is as far in as the indentation. -/
theorem IsLines.column_past {text : List Char} (hlines : IsLines text) (cursor : Cursor)
    (column : ℕ) : (cursor.past (text ++ indentation column)).column = column := by
  obtain ⟨last, hlast, hbreak⟩ := hlines.ends
  rw [Cursor.column_past_append_indentation, cursor.column_past_of_getLast? hlast hbreak,
    Nat.zero_add]

/-- Lines one below the other are lines. -/
theorem IsLines.append {first second : List Char} (hfirst : IsLines first)
    (hsecond : IsLines second) (between : List Char) :
    IsLines (first ++ (between ++ second)) := by
  obtain ⟨character, others, rfl, hbegins⟩ := hfirst.begins
  obtain ⟨last, hlast, hbreak⟩ := hsecond.ends
  refine ⟨⟨character, _, rfl, hbegins⟩, last, ?_, hbreak⟩
  rw [List.getLast?_append, List.getLast?_append, hlast]
  rfl

/-! ### White space before a token -/

namespace Scanner

variable {scanner : Scanner} {rest : List Char} {columns fuel : ℕ}

/-- The next token is behind the blanks of the line. -/
theorem toNextToken_indentation (hrest : scanner.cursor.rest = indentation columns ++ rest)
    (hbegins : BeginsToken rest) :
    toNextToken (fuel + 1) scanner =
      { scanner with cursor := scanner.cursor.advance columns } := by
  have hnoMark : (scanner.cursor.index = 0 && scanner.cursor.isAt '\ufeff') = false := by
    have hhead : scanner.cursor.rest.head? ≠ some '\ufeff' := by
      rw [hrest]
      cases columns with
      | zero => exact fun hhead ↦ (hbegins.head _ hhead).2.2.2.2 rfl
      | succ columns => simp [indentation, List.replicate_succ]
    simp [Cursor.isAt, hhead]
  have hskip (tabs : Bool) : scanner.cursor.skipWhile (fun character ↦
      character = ' ' || (tabs && character = '\t')) = scanner.cursor.advance columns := by
    refine Cursor.skipWhile_indentation (by simp) hrest fun character hhead ↦ ?_
    obtain ⟨hblank, htab, -⟩ := hbegins.head character hhead
    simp [hblank, htab]
  have hbehind : (scanner.cursor.advance columns).rest = rest := by
    simp [Cursor.advance, hrest, indentation]
  have hcomment : (scanner.cursor.advance columns).isAt '#' = false := by
    simp only [Cursor.isAt, hbehind, decide_eq_false_iff_not]
    exact fun hhead ↦ (hbegins.head _ hhead).2.2.2.1 rfl
  have hbreak : (scanner.cursor.advance columns).isAtBreak = false := by
    rw [Cursor.isAtBreak, hbehind, Option.any_eq_false]
    exact fun character hhead ↦ by simpa using (hbegins.head character hhead).2.2.1
  simp only [toNextToken, hnoMark, Bool.false_eq_true, if_false, hskip, Cursor.skipComment,
    hcomment, hbreak]

/-- The next token is on the next line, where a key may begin. -/
theorem toNextToken_line (hrest : scanner.cursor.rest = '\n' :: (indentation columns ++ rest))
    (hbegins : BeginsToken rest) :
    toNextToken (fuel + 2) scanner =
      { scanner with
        cursor := scanner.cursor.past ('\n' :: indentation columns)
        keyAllowed := scanner.keyAllowed || !scanner.inFlow } := by
  have hmark : (scanner.cursor.index = 0 && scanner.cursor.isAt '\ufeff') = false := by
    simp [Cursor.isAt, hrest]
  have hskip (tabs : Bool) : scanner.cursor.skipWhile (fun character ↦
      character = ' ' || (tabs && character = '\t')) = scanner.cursor := by
    simp [Cursor.skipWhile, hrest]
  have hcomment : scanner.cursor.isAt '#' = false := by simp [Cursor.isAt, hrest]
  have hbreak : scanner.cursor.isAtBreak = true := by simp [Cursor.isAtBreak, hrest, isBreak]
  have hbehind : scanner.cursor.skipBreak = scanner.cursor.newLine :=
    Cursor.skipBreak_eq hrest (by decide)
  rw [toNextToken]
  simp only [hmark, Bool.false_eq_true, if_false, hskip, Cursor.skipComment, hcomment, hbreak,
    if_true, hbehind]
  have hrestLine : scanner.cursor.newLine.rest = indentation columns ++ rest := by
    simp [Cursor.newLine, hrest]
  rw [toNextToken_indentation hrestLine hbegins, Cursor.past_line]

end Scanner

end Roster.Yaml
