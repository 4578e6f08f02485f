import Roster.Proofs.Yaml.BlockTexts
import Roster.Proofs.Yaml.QuotedTexts

/-!
# The text of a scalar

The writer settles for a style (`writtenStyle`) and writes the text in it. `WrittenScalar` lists the
texts that come out with what makes each of them readable, and `writtenScalar_scalarText` says that
there are no others. It stands between writing and reading a scalar: what a scanner does with one is
shown style by style.

A key on the line of its value takes a line of limited length (`length_scalarText_le`).
-/

set_option autoImplicit false
set_option relaxedAutoImplicit false

namespace Roster.Yaml

variable {columns : ℕ} {inKey : Bool} {wanted style : ScalarStyle} {text raw : List Char}

/-! ### The written styles -/

/-- What a text is written as in a style. The lines of the scalar behind the first one are indented
by `columns`. -/
inductive WrittenScalar (columns : ℕ) : ScalarStyle → List Char → List Char → Prop
  /-- A plain text is written as it is. -/
  | plain {text : List Char} (hplain : WrittenPlain text) : WrittenScalar columns .plain text text
  /-- A text between single quotes. -/
  | singleQuoted {text : List Char}
    (hquoted : Quoted '\'' (singleQuotedFrom columns false text) text) :
    WrittenScalar columns .singleQuoted text
      ('\'' :: (singleQuotedFrom columns false text ++ ['\'']))
  /-- A text between double quotes. -/
  | doubleQuoted {text : List Char} : WrittenScalar columns .doubleQuoted text
      ('"' :: (text.flatMap doubleQuotedCharacter ++ ['"']))
  /-- A text as a block. -/
  | literal {text : List Char} (hsome : text ≠ [])
    (hstands : ∀ character ∈ text, standsForItself character = true) :
    WrittenScalar columns .literal text
      ('|' :: (blockHeader text ++ '\n' :: blockLinesFrom columns true text))

/-- A text has room between single quotes, if the writer puts it there. -/
theorem Features.of_style_singleQuoted {features : Features}
    (hstyle : features.style wanted inKey = .singleQuoted) :
    (wanted = .plain ∨ wanted = .singleQuoted) ∧ features.blankAfterBreak = false ∧
      (inKey = true → features.multiline = false) := by
  obtain ⟨multiline, loose, blankAtEnd, blankAfterBreak, needsEscapes, hasIndicator⟩ := features
  simp only [Features.style] at hstyle
  cases wanted <;> grind

/-- Only a text between double quotes may need escapes. -/
theorem Features.needsEscapes_of_style {features : Features}
    (hstyle : features.style wanted inKey ≠ .doubleQuoted) : features.needsEscapes = false := by
  obtain ⟨multiline, loose, blankAtEnd, blankAfterBreak, needsEscapes, hasIndicator⟩ := features
  simp only [Features.style] at hstyle
  cases wanted <;> grind

/-- Without the need for escapes all characters stand for themselves, and no blank is before a line
break. -/
theorem of_needsEscapes_eq_false (hnone : (Features.ofText text).needsEscapes = false) :
    (∀ character ∈ text, standsForItself character = true) ∧
      hasPair (· = ' ') isBreak text = false := by
  cases text with
  | nil => exact ⟨by simp, rfl⟩
  | cons first rest =>
    simp only [Features.ofText, Bool.or_eq_false_iff, Bool.not_eq_eq_eq_not, Bool.not_false,
      List.all_eq_true] at hnone
    exact ⟨hnone.2, hnone.1⟩

/-- What the writer puts between single quotes can be read there. -/
theorem quoted_of_writtenStyle (hlines : '\n' ∈ text → wanted ≠ .plain ∧ wanted ≠ .singleQuoted)
    (hcolumns : inKey = false → 0 < columns)
    (hstyle : (Features.ofText text).style wanted inKey = .singleQuoted) :
    Quoted '\'' (singleQuotedFrom columns false text) text := by
  obtain ⟨hwanted, hafter, hmultiline⟩ := Features.of_style_singleQuoted hstyle
  obtain ⟨hstands, hbefore⟩ := of_needsEscapes_eq_false
    (Features.needsEscapes_of_style (hstyle.trans_ne (by simp)))
  refine quoted_singleQuotedFrom ?_ hstands (fun hmem ↦ ?_) hbefore ?_
  · rintro ⟨character, hmem, hbreak⟩
    refine hcolumns ?_
    by_contra hkey
    have hnone := hmultiline (by simpa using hkey)
    cases text with
    | nil => cases hmem
    | cons first rest =>
      simp only [Features.ofText, List.any_eq_false] at hnone
      exact hnone character hmem hbreak
  · rcases hwanted with rfl | rfl
    · exact (hlines hmem).1 rfl
    · exact (hlines hmem).2 rfl
  · cases text with
    | nil => rfl
    | cons first rest => exact hafter

/-- A scalar is written in one of the styles, if it has room in the style that it asks for. -/
theorem writtenScalar_scalarText (hempty : text = [] → wanted = .singleQuoted)
    (hlines : '\n' ∈ text → wanted ≠ .plain ∧ wanted ≠ .singleQuoted)
    (hcolumns : inKey = false → 0 < columns) :
    WrittenScalar columns (writtenStyle inKey wanted text) text
      (scalarText columns inKey wanted text) := by
  by_cases hnil : text = []
  · obtain rfl := hnil
    obtain rfl := hempty rfl
    have hquotes : WrittenScalar columns .singleQuoted [] ['\'', '\''] :=
      .singleQuoted (.word .nil)
    simpa [writtenStyle, scalarText] using hquotes
  · have hplain := @writtenPlain_of_writtenStyle inKey wanted text hempty
    simp only [writtenStyle, scalarText, List.isEmpty_iff, hnil, if_false] at hplain ⊢
    cases hchosen : (Features.ofText text).style wanted inKey with
    | plain => exact .plain (hplain (by rw [hchosen]))
    | singleQuoted => exact .singleQuoted (quoted_of_writtenStyle hlines hcolumns hchosen)
    | doubleQuoted => exact .doubleQuoted
    | literal =>
      have hescapes := Features.needsEscapes_of_style (hchosen.trans_ne (by simp))
      simpa using WrittenScalar.literal hnil (of_needsEscapes_eq_false hescapes).1
    | folded =>
      have hescapes := Features.needsEscapes_of_style (hchosen.trans_ne (by simp))
      simpa using WrittenScalar.literal hnil (of_needsEscapes_eq_false hescapes).1

/-! ### The characters of a written text -/

/-- In front of a line there are only blanks. -/
theorem eq_blank_of_mem_lineStart {behindBreak : Bool} {character : Char}
    (hmem : character ∈ if behindBreak then indentation columns else []) : character = ' ' := by
  split at hmem
  · exact List.eq_of_mem_replicate hmem
  · cases hmem

/-- Between single quotes there are the characters of the text and blanks. -/
theorem mem_singleQuotedFrom {behindBreak : Bool} {character : Char}
    (hmem : character ∈ singleQuotedFrom columns behindBreak text) :
    character ∈ text ∨ character = ' ' := by
  induction text generalizing behindBreak with
  | nil =>
    rw [singleQuotedFrom] at hmem
    exact Or.inr (eq_blank_of_mem_lineStart hmem)
  | cons first rest ih =>
    rw [singleQuotedFrom] at hmem
    split at hmem
    · rcases List.mem_cons.mp hmem with rfl | hmem
      · exact Or.inl List.mem_cons_self
      · exact (ih hmem).imp_left (List.mem_cons_of_mem first)
    · rcases List.mem_append.mp hmem with hmem | hmem
      · rcases List.mem_append.mp hmem with hmem | hmem
        · exact Or.inr (eq_blank_of_mem_lineStart hmem)
        · refine Or.inl ?_
          split at hmem
          · next hquote => simp_all
          · simp_all
      · exact (ih hmem).imp_left (List.mem_cons_of_mem first)

/-- In a block there are the characters of the text and blanks. -/
theorem mem_blockLinesFrom {behindBreak : Bool} {character : Char}
    (hmem : character ∈ blockLinesFrom columns behindBreak text) :
    character ∈ text ∨ character = ' ' := by
  induction text generalizing behindBreak with
  | nil => cases hmem
  | cons first rest ih =>
    rw [blockLinesFrom] at hmem
    split at hmem
    · rcases List.mem_cons.mp hmem with rfl | hmem
      · exact Or.inl List.mem_cons_self
      · exact (ih hmem).imp_left (List.mem_cons_of_mem first)
    · rcases List.mem_append.mp hmem with hmem | hmem
      · exact Or.inr (eq_blank_of_mem_lineStart hmem)
      · rcases List.mem_cons.mp hmem with rfl | hmem
        · exact Or.inl List.mem_cons_self
        · exact (ih hmem).imp_left (List.mem_cons_of_mem first)

/-- A scalar is written with characters that stand for themselves. -/
theorem standsForItself_scalarText (columns : ℕ) (inKey : Bool) (wanted : ScalarStyle)
    (text : List Char) :
    ∀ character ∈ scalarText columns inKey wanted text, standsForItself character = true := by
  have hstands (hstyle : (Features.ofText text).style wanted inKey ≠ .doubleQuoted) :=
    (of_needsEscapes_eq_false (Features.needsEscapes_of_style hstyle)).1
  have hblank {character : Char} (hstands : ∀ other ∈ text, standsForItself other = true)
      (hmem : character ∈ text ∨ character = ' ') : standsForItself character = true := by
    rcases hmem with hmem | rfl
    · exact hstands character hmem
    · decide
  have hblock (hstands : ∀ other ∈ text, standsForItself other = true) :
      ∀ character ∈ ['|'] ++ blockHeader text ++ ['\n'] ++ blockLinesFrom columns true text,
        standsForItself character = true := by
    have hheader : ∀ character ∈ blockHeader text, standsForItself character = true := by
      rw [blockHeader_eq]
      cases isHinted text <;> cases chompingOf text <;> exact List.all_eq_true.mp (by decide)
    simp only [List.forall_mem_append, List.forall_mem_singleton]
    exact ⟨⟨⟨by decide, hheader⟩, by decide⟩,
      fun character hmem ↦ hblank hstands (mem_blockLinesFrom hmem)⟩
  rw [scalarText]
  split
  · split <;> exact List.all_eq_true.mp (by decide)
  · cases hchosen : (Features.ofText text).style wanted inKey with
    | plain => exact hstands (by simp [hchosen])
    | singleQuoted =>
      simp only [List.forall_mem_append, List.forall_mem_singleton]
      exact ⟨⟨by decide, fun character hmem ↦
        hblank (hstands (by simp [hchosen])) (mem_singleQuotedFrom hmem)⟩, by decide⟩
    | doubleQuoted =>
      simp only [List.forall_mem_append, List.forall_mem_singleton]
      refine ⟨⟨by decide, fun character hmem ↦ ?_⟩, by decide⟩
      obtain ⟨other, -, hmem⟩ := List.mem_flatMap.mp hmem
      exact (characters_doubleQuotedCharacter other character hmem).1
    | literal => exact hblock (hstands (by simp [hchosen]))
    | folded => exact hblock (hstands (by simp [hchosen]))

/-- A written scalar begins with a character that begins a token. -/
theorem WrittenScalar.beginsToken (hwritten : WrittenScalar columns style text raw) :
    ∃ first others, raw = first :: others ∧ BeginsToken raw := by
  cases hwritten with
  | plain hplain =>
    obtain ⟨first, others, rfl⟩ := List.exists_cons_of_ne_nil hplain.nonempty
    obtain ⟨hstands, hbreak⟩ := hplain.characters first List.mem_cons_self
    have hinner := hplain.inner
    rw [hasInnerIndicator, Bool.or_eq_false_iff, Bool.or_eq_false_iff] at hinner
    refine ⟨first, others, rfl, isGap_of_standsForItself hstands hbreak (hplain.head first rfl),
      ?_, ?_⟩
    · simpa [isGap, isSpace] using hinner.1.2
    · rintro rfl
      exact absurd hstands (by decide)
  | singleQuoted => exact ⟨_, _, rfl, by decide, by decide, by decide⟩
  | doubleQuoted => exact ⟨_, _, rfl, by decide, by decide, by decide⟩
  | literal => exact ⟨_, _, rfl, by decide, by decide, by decide⟩

/-! ### The line break behind a scalar -/

/-- Behind a text that ends on a line there is a line break. -/
theorem endLine_of_last (hlast : ∀ character ∈ raw.getLast?, isBreak character = false) :
    endLine raw = raw ++ ['\n'] := by
  rw [endLine, if_neg]
  simp only [Option.any_eq_true, not_exists, not_and, Bool.not_eq_true]
  exact hlast

/-- A scalar is written as lines. -/
theorem WrittenScalar.isLines_endLine (hwritten : WrittenScalar columns style text raw) :
    IsLines (endLine raw) := by
  obtain ⟨first, others, rfl, hbegins⟩ := hwritten.beginsToken
  rw [endLine]
  split
  · next hends =>
    obtain ⟨last, hlast, hbreak⟩ := (Option.any_eq_true _ _).mp hends
    exact ⟨⟨first, others, rfl, hbegins⟩, last, hlast, hbreak⟩
  · exact ⟨⟨first, others ++ ['\n'], rfl, hbegins⟩, '\n', List.getLast?_concat, by decide⟩

/-- The line of a scalar ends behind it, if it is no block. -/
theorem WrittenScalar.endLine_eq (hwritten : WrittenScalar columns style text raw)
    (hblock : style ≠ .literal) : endLine raw = raw ++ ['\n'] := by
  refine endLine_of_last fun character hlast ↦ ?_
  cases hwritten with
  | plain hplain => exact (hplain.characters character (List.mem_of_getLast? hlast)).2
  | singleQuoted =>
    rw [← List.cons_append, List.getLast?_concat] at hlast
    cases hlast
    decide
  | doubleQuoted =>
    rw [← List.cons_append, List.getLast?_concat] at hlast
    cases hlast
    decide
  | literal => exact absurd rfl hblock

/-- Lines of a block end as the text does. -/
theorem getLast?_blockLinesFrom (behindBreak : Bool) :
    (blockLinesFrom columns behindBreak text).getLast? = text.getLast? := by
  induction text generalizing behindBreak with
  | nil => rfl
  | cons first rest ih =>
    rw [blockLinesFrom]
    split
    · rw [List.getLast?_cons, ih, List.getLast?_cons]
    · rw [List.getLast?_append, List.getLast?_cons, ih, List.getLast?_cons, Option.some_or]

/-- The line of a block ends behind it, if its text does not end a line. -/
theorem endLine_block (hsome : text ≠ []) :
    endLine ('|' :: (blockHeader text ++ '\n' :: blockLinesFrom columns true text)) =
      '|' :: (blockHeader text ++ '\n' :: (blockLinesFrom columns true text ++ closing text)) := by
  have hlast : ('|' :: (blockHeader text ++ '\n' :: blockLinesFrom columns true text)).getLast? =
      text.getLast? := by
    rw [← List.cons_append, List.getLast?_append, List.getLast?_cons, getLast?_blockLinesFrom,
      Option.some_or]
    cases htext : text.getLast? with
    | none => exact absurd (List.getLast?_eq_none_iff.mp htext) hsome
    | some last => rfl
  rw [endLine, hlast, closing]
  split <;> simp

/-! ### The length of a key -/

/-- The bytes of a text are those of its characters. -/
theorem utf8ByteSize_eq_sum (text : String) :
    text.utf8ByteSize = (text.toList.map Char.utf8Size).sum := by
  rw [String.utf8ByteSize, ← String.utf8Encode_toList, List.utf8Encode, List.size_toByteArray,
    List.length_flatMap]
  simp

/-- Between single quotes a character of a line takes at most two places. -/
theorem length_singleQuotedFrom_le (behindBreak : Bool) :
    (singleQuotedFrom 0 behindBreak text).length ≤ 2 * text.length := by
  induction text generalizing behindBreak with
  | nil => cases behindBreak <;> decide
  | cons first rest ih =>
    have hfalse := ih false
    have htrue := ih true
    rw [singleQuotedFrom]
    split
    · simp only [List.length_cons]
      omega
    · have hindent : (if behindBreak then indentation 0 else []).length = 0 := by
        cases behindBreak <;> rfl
      have hplace : (if first = '\'' then ['\'', '\''] else [first]).length ≤ 2 := by
        split <;> simp
      simp only [List.length_append, List.length_cons, hindent]
      omega

/-- A text has at most as many characters as bytes. -/
theorem length_le_sum (text : List Char) : text.length ≤ (text.map Char.utf8Size).sum := by
  induction text with
  | nil => exact Nat.le_refl _
  | cons first rest ih =>
    have := first.utf8Size_pos
    simp only [List.length_cons, List.map_cons, List.sum_cons]
    omega

/-- Between double quotes a text takes at most four characters for each of its bytes. -/
theorem length_doubleQuoted_le (text : List Char) :
    (text.flatMap doubleQuotedCharacter).length ≤ 4 * (text.map Char.utf8Size).sum := by
  induction text with
  | nil => exact Nat.le_refl _
  | cons first rest ih =>
    have := length_doubleQuotedCharacter_le first
    simp only [List.flatMap_cons, List.length_append, List.map_cons, List.sum_cons]
    omega

/-- A key is not written as a block. -/
theorem writtenStyle_ne_literal (wanted : ScalarStyle) (text : List Char) :
    writtenStyle true wanted text ≠ .literal := by
  rw [writtenStyle]
  split
  · simp
  · have hstyle : (Features.ofText text).style wanted true ≠ .literal ∧
        (Features.ofText text).style wanted true ≠ .folded := by
      cases wanted <;> simp only [Features.style] <;> grind
    cases hchosen : (Features.ofText text).style wanted true <;> simp_all

/-- A key of few bytes takes a line of limited length. -/
theorem WrittenScalar.key (hwritten : WrittenScalar 0 style text raw) (hblock : style ≠ .literal)
    (hline : ∀ character ∈ text, isBreak character = false) :
    (∀ character ∈ raw, isBreak character = false) ∧
      raw.length ≤ 4 * (text.map Char.utf8Size).sum + 2 := by
  have hcount := length_le_sum text
  cases hwritten with
  | plain => exact ⟨hline, by omega⟩
  | singleQuoted =>
    have hlength := @length_singleQuotedFrom_le text false
    simp only [List.forall_mem_cons, List.forall_mem_append, List.length_cons, List.length_append,
      List.length_nil]
    refine ⟨⟨by decide, fun character hmem ↦ ?_, by simp [isBreak]⟩, by omega⟩
    rcases mem_singleQuotedFrom hmem with hmem | rfl
    · exact hline character hmem
    · decide
  | doubleQuoted =>
    have hlength := length_doubleQuoted_le text
    simp only [List.forall_mem_cons, List.forall_mem_append, List.length_cons, List.length_append,
      List.length_nil]
    refine ⟨⟨by decide, fun character hmem ↦ ?_, by simp [isBreak]⟩, by omega⟩
    obtain ⟨other, -, hmem⟩ := List.mem_flatMap.mp hmem
    exact (characters_doubleQuotedCharacter other character hmem).2
  | literal => exact absurd rfl hblock

end Roster.Yaml
