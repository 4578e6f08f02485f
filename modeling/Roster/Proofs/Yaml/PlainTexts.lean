import Mathlib.Data.Int.Notation
import Mathlib.Data.List.TakeWhile
import Roster.Proofs.Yaml.Places
import Roster.Proofs.Yaml.WrittenNodes

/-!
# Plain texts are read as they are written

A text is written plain only if nothing in it means something else (`PlainText`). Its words are then
read one by one up to the colon behind it, or up to the end of its line, where a line that is not
further in than the text around it ends it (`readPlain_eq`).

The gaps between words are blanks, or line breaks with the blanks of an indentation (`gapOf`); gaps
are read here for quoted texts as well.
-/

set_option autoImplicit false
set_option relaxedAutoImplicit false

namespace Roster.Yaml

/-! ### Gaps -/

/-- A line break that is read as itself. -/
def IsKeptBreak (character : Char) : Prop :=
  isBreak character = true ∧ standsForItself character = true

theorem isKeptBreak_lineFeed : IsKeptBreak '\n' :=
  ⟨rfl, rfl⟩

/-- Only line feeds and the separators of lines and paragraphs are read as themselves. -/
theorem IsKeptBreak.cases {character : Char} (hkept : IsKeptBreak character) :
    character = '\n' ∨ character = '\u2028' ∨ character = '\u2029' := by
  obtain ⟨hbreak, hstands⟩ := hkept
  simp only [isBreak, Bool.or_eq_true, decide_eq_true_eq] at hbreak
  rcases hbreak with (((rfl | rfl) | rfl) | rfl) | rfl
  · exact Or.inl rfl
  · exact absurd hstands (by decide)
  · exact absurd hstands (by decide)
  · exact Or.inr (Or.inl rfl)
  · exact Or.inr (Or.inr rfl)

/-- The gap of line breaks, and of blanks behind them. -/
def gapOf (breaks : List Char) (blanks : ℕ) : Gap :=
  match breaks with
  | [] => ⟨false, indentation blanks, [], []⟩
  | first :: more => ⟨true, [], [first], more⟩

section Gaps

variable {indent : Option ℤ} {fuel blanks : ℕ} {gap : Gap} {cursor : Cursor}
  {breaks rest : List Char}

theorem readGap_done (hhead : ∀ character ∈ rest.head?, isGap character = false)
    (hrest : cursor.rest = rest) : readGap indent fuel gap cursor = some (gap, cursor) := by
  cases fuel with
  | zero => rfl
  | succ fuel =>
    cases rest with
    | nil => simp [readGap, Cursor.peek?, hrest]
    | cons first others =>
      obtain ⟨hspace, hbreak⟩ := isGap_eq_false_iff.mp (hhead first rfl)
      simp [readGap, Cursor.peek?, hrest, hspace, hbreak]

/-- Blanks count only before the first line break. -/
theorem readGap_blanks (hhead : ∀ character ∈ rest.head?, isGap character = false)
    (hrest : cursor.rest = indentation blanks ++ rest) (hfuel : blanks < fuel) :
    readGap indent fuel gap cursor =
      some (if gap.broken then gap else { gap with spaces := gap.spaces ++ indentation blanks },
        cursor.advance blanks) := by
  induction blanks generalizing gap cursor fuel with
  | zero =>
    rw [readGap_done hhead hrest]
    simp [indentation]
  | succ blanks ih =>
    obtain ⟨fuel, rfl⟩ : ∃ less, fuel = less + 1 := ⟨fuel - 1, by omega⟩
    have hblank : cursor.rest = ' ' :: (indentation blanks ++ rest) := hrest
    have hnext : cursor.skip.rest = indentation blanks ++ rest := by
      simp [Cursor.skip, Cursor.advance, hblank]
    have hstep : readGap indent (fuel + 1) gap cursor =
        readGap indent fuel (gap.addSpace ' ') cursor.skip := by
      simp [readGap, Cursor.peek?, hblank, isSpace]
    rw [hstep, ih hnext (by omega), Cursor.skip, Cursor.advance_advance, Nat.add_comm]
    cases hbroken : gap.broken <;> simp [Gap.addSpace, hbroken, indentation, List.replicate_succ]

/-- A line break that is read as itself, and the place behind it. -/
theorem IsKeptBreak.read {character : Char} (hkept : IsKeptBreak character)
    (hrest : cursor.rest = character :: rest) :
    cursor.breakText = [character] ∧ cursor.skipBreak = cursor.newLine := by
  constructor
  · rcases hkept.cases with rfl | rfl | rfl <;> simp [Cursor.breakText, hrest]
  · refine Cursor.skipBreak_eq hrest ?_
    rintro rfl
    exact absurd hkept.2 (by decide)

/-- A line break is added to a gap. -/
theorem readGap_break {character : Char} (hkept : IsKeptBreak character)
    (hrest : cursor.rest = character :: rest) :
    readGap indent (fuel + 1) gap cursor =
      readGap indent fuel (gap.addBreak [character]) cursor.newLine := by
  obtain ⟨htext, hskip⟩ := hkept.read hrest
  have hspace : isSpace character = false := by
    rcases hkept.cases with rfl | rfl | rfl <;> rfl
  simp [readGap, Cursor.peek?, hrest, hspace, hkept.1, htext, hskip]

/-- A gap is read up to a word. -/
theorem readGap_eq (hbreaks : ∀ character ∈ breaks, IsKeptBreak character)
    (hhead : ∀ character ∈ rest.head?, isGap character = false)
    (hrest : cursor.rest = breaks ++ (indentation blanks ++ rest))
    (hfuel : breaks.length + blanks < fuel) :
    readGap indent fuel .empty cursor =
      some (gapOf breaks blanks, cursor.past (breaks ++ indentation blanks)) := by
  -- Behind the first break all others are added to the breaks that follow it.
  have hmore (first : List Char) (before more : List Char) (cursor : Cursor) (fuel : ℕ)
      (hkept : ∀ character ∈ more, IsKeptBreak character)
      (hrest : cursor.rest = more ++ (indentation blanks ++ rest))
      (hfuel : more.length + blanks < fuel) :
      readGap indent fuel ⟨true, [], first, before⟩ cursor =
        some (⟨true, [], first, before ++ more⟩, cursor.past (more ++ indentation blanks)) := by
    induction more generalizing before cursor fuel with
    | nil =>
      rw [readGap_blanks hhead hrest (by simpa using hfuel)]
      simp [Cursor.past_indentation]
    | cons character more ih =>
      obtain ⟨hfirst, hkept⟩ := List.forall_mem_cons.mp hkept
      obtain ⟨fuel, rfl⟩ : ∃ less, fuel = less + 1 := ⟨fuel - 1, by omega⟩
      have hnext : cursor.newLine.rest = more ++ (indentation blanks ++ rest) := by
        simp [Cursor.newLine, hrest]
      rw [readGap_break hfirst hrest, Gap.addBreak, if_pos rfl,
        ih _ _ _ hkept hnext (by simp at hfuel; omega)]
      simp [Cursor.past, hfirst.1]
  cases breaks with
  | nil =>
    rw [readGap_blanks hhead hrest (by simpa using hfuel)]
    simp [Gap.empty, gapOf, Cursor.past_indentation]
  | cons first more =>
    obtain ⟨hfirst, hkept⟩ := List.forall_mem_cons.mp hbreaks
    obtain ⟨fuel, rfl⟩ : ∃ less, fuel = less + 1 := ⟨fuel - 1, by omega⟩
    have hnext : cursor.newLine.rest = more ++ (indentation blanks ++ rest) := by
      simp [Cursor.newLine, hrest]
    have hstart : Gap.empty.addBreak [first] = ⟨true, [], [first], []⟩ := rfl
    rw [readGap_break hfirst hrest, hstart, hmore _ _ _ _ _ hkept hnext (by simp at hfuel; omega)]
    simp [gapOf, Cursor.past, hfirst.1]

end Gaps

/-! ### Words -/

/-- A text is cut where the characters of one kind at its start end. -/
theorem exists_leading (separates : Char → Bool) (text : List Char) :
    ∃ leading others, text = leading ++ others ∧
      (∀ character ∈ leading, separates character = true) ∧
      ∀ character ∈ others.head?, separates character = false := by
  refine ⟨text.takeWhile separates, text.dropWhile separates,
    List.takeWhile_append_dropWhile.symm, fun character hmem ↦ List.mem_takeWhile_imp hmem,
    fun character hmem ↦ ?_⟩
  have hnot := List.head?_dropWhile_not separates text
  rwa [Option.mem_def.mp hmem] at hnot

/-- A text is a word, or a word and a gap before a text that begins with a word. -/
theorem word_induction (separates : Char → Bool) {motive : List Char → Prop}
    (hword : ∀ word, (∀ character ∈ word, separates character = false) → motive word)
    (hgap : ∀ word gap text, (∀ character ∈ word, separates character = false) → gap ≠ [] →
      (∀ character ∈ gap, separates character = true) →
      (∀ character ∈ text.head?, separates character = false) → motive text →
        motive (word ++ (gap ++ text))) (text : List Char) : motive text := by
  induction hlength : text.length using Nat.strongRecOn generalizing text with
  | ind length ih =>
    obtain ⟨word, tail, rfl, hinner, htail⟩ :=
      exists_leading (fun character ↦ !separates character) text
    have hletters : ∀ character ∈ word, separates character = false :=
      fun character hmem ↦ by simpa using hinner character hmem
    cases tail with
    | nil =>
      rw [List.append_nil]
      exact hword word hletters
    | cons first tail =>
      have hfirst : separates first = true := by simpa using htail first rfl
      obtain ⟨gap, text, hsplit, hblank, hhead⟩ := exists_leading separates (first :: tail)
      have hsome : gap ≠ [] := by
        rintro rfl
        have hnot := hhead first (by rw [← List.nil_append text, ← hsplit]; rfl)
        rw [hfirst] at hnot
        cases hnot
      have hless : text.length < length := by
        have := List.length_pos_iff.mpr hsome
        rw [← hlength, hsplit, List.length_append, List.length_append]
        omega
      rw [hsplit]
      exact hgap _ _ _ hletters hsome hblank hhead (ih _ hless _ rfl)

/-! ### Plain texts -/

/-- A text that can stand without quotes, from a word on. -/
structure PlainText (text : List Char) : Prop where
  /-- There is something to write. -/
  nonempty : text ≠ []
  /-- The characters are themselves, and none of them ends a line. -/
  characters : ∀ character ∈ text, standsForItself character = true ∧ isBreak character = false
  /-- No blank is in front. -/
  head : ∀ character ∈ text.head?, character ≠ ' '
  /-- No blank is behind. -/
  last : text.getLast? ≠ some ' '
  /-- Nothing in the text looks like the end of a key or like a comment. -/
  inner : hasInnerIndicator ' ' text = false

/-- What may follow a plain text, how much of it is read with the text, and whether that has a line
break: the colon of a key, or a line that is not as far in as the text has to be. -/
inductive PlainEnd (indent : ℤ) : List Char → List Char → Bool → Prop
  /-- The text is a key. -/
  | colon {rest : List Char} (hgap : atGap rest = true) : PlainEnd indent (':' :: rest) [] false
  /-- The line ends. -/
  | line {columns : ℕ} {rest : List Char} (hcolumns : (columns : ℤ) < indent)
    (hbegins : BeginsToken rest) :
    PlainEnd indent ('\n' :: (indentation columns ++ rest)) ('\n' :: indentation columns) true

section Plain

variable {text word rest after consumed : List Char} {indent : ℤ} {broken : Bool} {cursor : Cursor}

/-- The only gaps in a plain text are blanks. -/
theorem PlainText.eq_blank_of_isGap (hplain : PlainText text) {character : Char}
    (hmem : character ∈ text) (hgap : isGap character = true) : character = ' ' := by
  obtain ⟨hstands, hbreak⟩ := hplain.characters character hmem
  simp only [isGap, isSpace, hbreak, Bool.or_false, Bool.or_eq_true, decide_eq_true_eq] at hgap
  rcases hgap with rfl | rfl
  · rfl
  · exact absurd hstands (by decide)

theorem hasInnerIndicator_append {before : Char} {first second : List Char}
    (hnone : hasInnerIndicator before (first ++ second) = false) :
    hasInnerIndicator (first.getLast?.getD before) second = false := by
  induction first generalizing before with
  | nil => exact hnone
  | cons character rest ih =>
    rw [List.cons_append, hasInnerIndicator, Bool.or_eq_false_iff] at hnone
    have := ih hnone.2
    cases rest with
    | nil => simpa using this
    | cons other others => simpa [List.getLast?_cons] using this

/-- A word is read up to a gap, or up to a colon before a gap. -/
theorem plainWord_eq {before : Char} (hword : ∀ character ∈ word, isGap character = false)
    (hnone : hasInnerIndicator before (word ++ rest) = false) (hrest : atGap rest = true)
    (hend : plainWord false (rest ++ after) = some []) :
    plainWord false (word ++ (rest ++ after)) = some word := by
  induction word generalizing before with
  | nil => exact hend
  | cons character word ih =>
    obtain ⟨hcharacter, hothers⟩ := List.forall_mem_cons.mp hword
    rw [List.cons_append, hasInnerIndicator, Bool.or_eq_false_iff, Bool.or_eq_false_iff] at hnone
    obtain ⟨⟨hcolon, -⟩, hnone⟩ := hnone
    have hmore := ih hothers hnone
    rw [List.cons_append, plainWord]
    by_cases hsame : character = ':'
    · subst hsame
      have hnext : atGap (word ++ (rest ++ after)) = false := by
        cases word with
        | nil => simp [hrest] at hcolon
        | cons next word => simpa [atGap] using hothers next List.mem_cons_self
      simp [hcharacter, hnext, hmore]
    · simp [hcharacter, hsame, hmore]

/-- A text does not begin with three marks because of what follows it. -/
theorem take_three_append_ne {mark : Char} (hthree : text.take 3 ≠ [mark, mark, mark])
    (hafter : after.head? ≠ some mark) : (text ++ after).take 3 ≠ [mark, mark, mark] := by
  match text, hthree with
  | [], _ => cases after <;> grind
  | [_], _ => cases after <;> grind
  | [_, _], _ => cases after <;> grind
  | first :: second :: third :: others, hthree => simpa using hthree

/-- A plain text without its first word and the gap behind it is a plain text. -/
theorem PlainText.of_gap {gap : List Char} (hplain : PlainText (word ++ (gap ++ text)))
    (hsome : gap ≠ []) (hgap : ∀ character ∈ gap, isGap character = true)
    (hhead : ∀ character ∈ text.head?, isGap character = false) :
    PlainText text ∧ gap = indentation gap.length ∧ word ≠ [] := by
  have hblanks : ∀ character ∈ gap, character = ' ' := fun character hmem ↦
    hplain.eq_blank_of_isGap (by simp [hmem]) (hgap character hmem)
  have hreplicate : gap = indentation gap.length := List.eq_replicate_of_mem hblanks
  have hlastGap : gap.getLast? = some ' ' := by
    rw [List.getLast?_eq_some_getLast hsome, hblanks _ (List.getLast_mem hsome)]
  have hnonempty : text ≠ [] := by
    rintro rfl
    refine hplain.last ?_
    simp [hlastGap]
  refine ⟨⟨hnonempty, fun character hmem ↦ hplain.characters character (by simp [hmem]),
    fun character hmem ↦ ?_, fun hlast ↦ hplain.last ?_, ?_⟩, hreplicate, ?_⟩
  · rintro rfl
    exact absurd (hhead ' ' hmem) (by decide)
  · simp [hlast]
  · have hinner : hasInnerIndicator ((word ++ gap).getLast?.getD ' ') text = false :=
      hasInnerIndicator_append (by simpa [List.append_assoc] using hplain.inner)
    simpa [hlastGap] using hinner
  · rintro rfl
    obtain ⟨first, others, rfl⟩ := List.exists_cons_of_ne_nil hsome
    exact hplain.head first rfl (hblanks first List.mem_cons_self)

/-- The last word of a plain text ends where a plain text may end. -/
theorem PlainEnd.plainWord_eq_nil (hend : PlainEnd indent after consumed broken) :
    plainWord false after = some [] := by
  cases hend with
  | colon hgap => simp [plainWord, isGap, isSpace, isBreak, hgap]
  | line => simp [plainWord, isGap, isBreak]

/-- A plain text of a block from behind a word on. -/
def readPlainBehind (indent : ℤ) (fuel : ℕ) (reading : PlainReading) : Option PlainReading :=
  if !(reading.cursor.isAtSpace || reading.cursor.isAtBreak) then some reading
  else
    match readGap (some indent) (reading.cursor.rest.length + 1) reading.gap reading.cursor with
    | none => none
    | some (gap, next) =>
      if next.column < indent then some ⟨reading.text, gap, next⟩
      else readPlainFrom false indent fuel ⟨reading.text, gap, next⟩

/-- A plain text is read word by word. -/
theorem readPlainFrom_word {fuel blanks : ℕ} {found : List Char}
    (hmarker : cursor.isAtDocumentMarker = false) (hcomment : cursor.isAt '#' = false)
    (hread : plainWord false cursor.rest = some word) (hsome : word ≠ []) :
    readPlainFrom false indent (fuel + 1) ⟨found, gapOf [] blanks, cursor⟩ =
      readPlainBehind indent fuel
        ⟨found ++ indentation blanks ++ word, .empty, cursor.advance word.length⟩ := by
  have hgap : (gapOf [] blanks).text = indentation blanks := rfl
  simp only [readPlainFrom, hmarker, hcomment, Bool.or_self, Bool.false_eq_true, if_false, hread,
    List.isEmpty_iff, hsome, hgap, Bool.not_false, Bool.true_and, decide_eq_true_eq]
  rfl

/-- Behind its last word a plain text is over. -/
theorem PlainEnd.readPlainBehind_eq (hend : PlainEnd indent after consumed broken)
    (hrest : cursor.rest = after) (fuel : ℕ) (found : List Char) :
    ∃ gap, readPlainBehind indent fuel ⟨found, .empty, cursor⟩ =
      some ⟨found, gap, cursor.past consumed⟩ ∧ gap.broken = broken := by
  cases hend with
  | colon hgap =>
    have hspace : cursor.isAtSpace = false := by simp [Cursor.isAtSpace, hrest, isSpace]
    have hbreak : cursor.isAtBreak = false := by simp [Cursor.isAtBreak, hrest, isBreak]
    exact ⟨.empty, by simp [readPlainBehind, hspace, hbreak], rfl⟩
  | @line columns rest hcolumns hbegins =>
    have hbreak : cursor.isAtBreak = true := by simp [Cursor.isAtBreak, hrest, isBreak]
    have hread : readGap (some indent) (cursor.rest.length + 1) .empty cursor =
        some (gapOf ['\n'] columns, cursor.past ('\n' :: indentation columns)) := by
      refine readGap_eq (by simpa using isKeptBreak_lineFeed) (fun character hhead ↦ ?_) hrest ?_
      · obtain ⟨hblank, htab, hbreak, -⟩ := hbegins.head character hhead
        simp [isGap, isSpace, hblank, htab, hbreak]
      · simp [hrest]
        omega
    refine ⟨gapOf ['\n'] columns, ?_, rfl⟩
    simp [readPlainBehind, hbreak, hread, hcolumns]

/-- Behind a word and blanks a plain text goes on with the next word. -/
theorem readPlainBehind_blanks {fuel blanks : ℕ} (hblanks : 0 < blanks)
    (hhead : ∀ character ∈ rest.head?, isGap character = false)
    (hrest : cursor.rest = indentation blanks ++ rest)
    (hcolumn : indent ≤ cursor.column + blanks) (found : List Char) :
    readPlainBehind indent fuel ⟨found, .empty, cursor⟩ =
      readPlainFrom false indent fuel
        ⟨found, gapOf [] blanks, cursor.past (indentation blanks)⟩ := by
  have hspace : cursor.isAtSpace = true := by
    obtain ⟨count, rfl⟩ : ∃ count, blanks = count + 1 := ⟨blanks - 1, by omega⟩
    simp [Cursor.isAtSpace, hrest, indentation, List.replicate_succ, isSpace]
  have hread : readGap (some indent) (cursor.rest.length + 1) .empty cursor =
      some (gapOf [] blanks, cursor.past (indentation blanks)) := by
    refine readGap_eq (by simp) hhead hrest ?_
    simp only [hrest, List.length_append, Cursor.length_indentation, List.length_nil]
    omega
  have hplace : ¬ ((cursor.past (indentation blanks)).column : ℤ) < indent := by
    simp only [Cursor.past_indentation, Cursor.advance]
    omega
  simp only [readPlainBehind, hspace, Bool.true_or, Bool.not_true, Bool.false_eq_true, if_false,
    hread, hplace]

/-- A plain text does not begin with a comment. -/
theorem PlainText.isAt_comment (hplain : PlainText text) (hrest : cursor.rest = text ++ after) :
    cursor.isAt '#' = false := by
  obtain ⟨first, others, rfl⟩ := List.exists_cons_of_ne_nil hplain.nonempty
  have hinner := hplain.inner
  rw [hasInnerIndicator, Bool.or_eq_false_iff, Bool.or_eq_false_iff] at hinner
  have hfirst : first ≠ '#' := by simpa [isGap, isSpace] using hinner.1.2
  simp [Cursor.isAt, hrest, hfirst]

/-- A plain text is read from a word on. -/
theorem readPlainFrom_eq (hplain : PlainText text) (hend : PlainEnd indent after consumed broken)
    {fuel blanks : ℕ} (hfuel : text.length < fuel) (found : List Char)
    (hrest : cursor.rest = text ++ after) (hmarker : cursor.isAtDocumentMarker = false)
    (hcolumn : indent ≤ cursor.column + 1) :
    ∃ gap, readPlainFrom false indent fuel ⟨found, gapOf [] blanks, cursor⟩ =
      some ⟨found ++ indentation blanks ++ text, gap, cursor.past (text ++ consumed)⟩ ∧
        gap.broken = broken := by
  induction text using word_induction isGap generalizing cursor fuel found blanks with
  | hword word hword =>
    obtain ⟨fuel, rfl⟩ : ∃ less, fuel = less + 1 := ⟨fuel - 1, by omega⟩
    have hread : plainWord false cursor.rest = some word := by
      have hinner : hasInnerIndicator ' ' (word ++ []) = false := by simpa using hplain.inner
      rw [hrest]
      exact plainWord_eq hword hinner rfl hend.plainWord_eq_nil
    have hbehind : cursor.past word = cursor.advance word.length :=
      cursor.past_eq_advance fun character hmem ↦ (hplain.characters character hmem).2
    rw [readPlainFrom_word hmarker (hplain.isAt_comment hrest) hread hplain.nonempty, ← hbehind,
      Cursor.past_append]
    exact hend.readPlainBehind_eq (Cursor.rest_past_of_eq hrest) _ _
  | hgap word gap text hword hsome hgap hhead ih =>
    obtain ⟨fuel, rfl⟩ : ∃ less, fuel = less + 1 := ⟨fuel - 1, by omega⟩
    obtain ⟨htext, hblanks, hfirst⟩ := hplain.of_gap hsome hgap hhead
    have hread : plainWord false cursor.rest = some word := by
      obtain ⟨blank, more, rfl⟩ := List.exists_cons_of_ne_nil hsome
      have hblank : isGap blank = true := hgap blank List.mem_cons_self
      rw [hrest, List.append_assoc]
      exact plainWord_eq hword hplain.inner hblank (by simp [plainWord, hblank])
    have hbehind : cursor.past word = cursor.advance word.length :=
      cursor.past_eq_advance fun character hmem ↦ (hplain.characters character (by simp [hmem])).2
    have hrestWord : (cursor.past word).rest = indentation gap.length ++ (text ++ after) := by
      rw [← hblanks]
      exact Cursor.rest_past_of_eq (by simpa using hrest)
    have hheadNext : ∀ character ∈ (text ++ after).head?, isGap character = false := by
      obtain ⟨letter, others, rfl⟩ := List.exists_cons_of_ne_nil htext.nonempty
      exact hhead
    have hcolumnWord : (cursor.past word).column = cursor.column + word.length := by
      rw [hbehind, Cursor.advance]
    have hcolumnNext : ((cursor.past word).past (indentation gap.length)).column =
        cursor.column + word.length + gap.length := by
      rw [Cursor.past_indentation, Cursor.advance, hcolumnWord]
    have hgapLength := List.length_pos_iff.mpr hsome
    have hless : text.length < fuel := by
      simp only [List.length_append] at hfuel
      omega
    obtain ⟨last, hlast, hbroken⟩ : ∃ last, readPlainFrom false indent fuel
        ⟨found ++ indentation blanks ++ word, gapOf [] gap.length,
          (cursor.past word).past (indentation gap.length)⟩ = some ⟨_, last, _⟩ ∧
            last.broken = broken :=
      ih htext hless _ (Cursor.rest_past_of_eq hrestWord)
        (Cursor.isAtDocumentMarker_of_column_ne (by omega)) (by omega)
    refine ⟨last, ?_, hbroken⟩
    rw [readPlainFrom_word hmarker (hplain.isAt_comment hrest) hread hfirst, ← hbehind,
      readPlainBehind_blanks hgapLength hheadNext hrestWord (by omega), hlast]
    simp [Cursor.past_append, ← hblanks]

/-- A plain text is read from where it stands. -/
theorem readPlain_eq (hplain : PlainText text) (hend : PlainEnd indent after consumed broken)
    (hrest : cursor.rest = text ++ after) (hmarker : cursor.isAtDocumentMarker = false)
    (hcolumn : indent ≤ cursor.column + 1) :
    ∃ gap, readPlain false indent cursor = some ⟨text, gap, cursor.past (text ++ consumed)⟩ ∧
      gap.broken = broken := by
  have hless : text.length < cursor.rest.length + 1 := by
    rw [hrest, List.length_append]
    omega
  have hread : ∃ gap, readPlainFrom false indent (cursor.rest.length + 1)
      ⟨[], gapOf [] 0, cursor⟩ = some ⟨[] ++ indentation 0 ++ text, gap,
        cursor.past (text ++ consumed)⟩ ∧ gap.broken = broken :=
    readPlainFrom_eq hplain hend hless [] hrest hmarker hcolumn
  exact hread

end Plain

/-! ### What is written plain -/

/-- A text that is written without quotes from its beginning on. -/
structure WrittenPlain (text : List Char) : Prop extends PlainText text where
  /-- The first character has no meaning of its own. -/
  first : ∀ first ∈ text.head?, isFirstIndicator first (text.drop 1) = false
  /-- The text cannot be taken for the line that begins a document. -/
  hyphens : text.take 3 ≠ ['-', '-', '-']
  /-- The text cannot be taken for the line that ends a document. -/
  dots : text.take 3 ≠ ['.', '.', '.']

/-- A text that is written plain has no feature that forbids it. -/
theorem Features.of_style_plain {features : Features} {inKey : Bool}
    (hstyle : features.style .plain inKey = .plain) :
    features.loose = false ∧ features.needsEscapes = false ∧ features.multiline = false ∧
      features.hasIndicator = false := by
  obtain ⟨multiline, loose, blankAtEnd, blankAfterBreak, needsEscapes, hasIndicator⟩ := features
  simp only [Features.style] at hstyle
  grind

/-- What is written plain can be written plain. -/
theorem writtenPlain_of_writtenStyle {inKey : Bool} {wanted : ScalarStyle} {text : List Char}
    (hempty : text = [] → wanted = .singleQuoted)
    (hplain : writtenStyle inKey wanted text = .plain) : WrittenPlain text := by
  obtain rfl := eq_plain_of_writtenStyle hempty hplain
  cases text with
  | nil => cases hempty rfl
  | cons first rest =>
    have hstyle : (Features.ofText (first :: rest)).style .plain inKey = .plain := by
      simp only [writtenStyle, List.isEmpty_cons, Bool.false_eq_true, if_false] at hplain
      split at hplain
      · cases hplain
      · exact hplain
    obtain ⟨hloose, hescapes, hmultiline, hindicator⟩ := Features.of_style_plain hstyle
    simp only [Features.ofText, Bool.or_eq_false_iff] at hloose hescapes hmultiline hindicator
    simp only [decide_eq_false_iff_not, Bool.not_eq_eq_eq_not, Bool.not_false, List.all_eq_true,
      List.any_eq_false, Bool.not_eq_true] at hloose hescapes hmultiline hindicator
    obtain ⟨⟨⟨hhyphens, hdots⟩, hfirst⟩, hinner⟩ := hindicator
    refine ⟨⟨by simp, fun character hmem ↦ ⟨hescapes.2 character hmem, hmultiline character hmem⟩,
      ?_, ?_, ?_⟩, ?_, hhyphens, hdots⟩
    · rintro _ ⟨⟩
      exact hloose.1.1
    · intro hlast
      rw [hlast] at hloose
      simp at hloose
    · have hcolon : (first = ':' && atGap rest) = false := by
        simp only [isFirstIndicator, Bool.or_eq_false_iff] at hfirst
        grind
      have hcomment : (first = '#' && isGap ' ') = false := by
        simp only [isFirstIndicator, Bool.or_eq_false_iff] at hfirst
        by_cases hsame : first = '#'
        · subst hsame
          exact absurd hfirst.1 (by decide)
        · simp [hsame]
      rw [hasInnerIndicator, hcolon, hcomment, hinner]
      rfl
    · rintro _ ⟨⟩
      exact hfirst

end Roster.Yaml
