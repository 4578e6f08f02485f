import Roster.Proofs.Yaml.EscapedCharacters
import Roster.Proofs.Yaml.PlainTexts

/-!
# Quoted texts are read as they are written

Between quotes a text is written word by word (`QuotedWord`) with the gaps between the words
(`Quoted`). Such a text is read as what it stands for (`readQuoted_eq`), and the writer puts texts
between single quotes (`quoted_singleQuotedFrom`) and double quotes (`quoted_doubleQuoted`) in this
form.
-/

set_option autoImplicit false
set_option relaxedAutoImplicit false

namespace Roster.Yaml

/-! ### Words between quotes -/

/-- What is written for a word between quotes, and the word. -/
inductive QuotedWord (quote : Char) : List Char → List Char → Prop
  /-- The word is over. -/
  | nil : QuotedWord quote [] []
  /-- A character stands for itself. -/
  | letter {character : Char} {raw word : List Char} (hgap : isGap character = false)
    (hquote : character ≠ quote) (hescape : quote = '"' → character ≠ '\\')
    (hrest : QuotedWord quote raw word) : QuotedWord quote (character :: raw) (character :: word)
  /-- Two single quotes stand for one. -/
  | quotes {raw word : List Char} (hquote : quote = '\'') (hrest : QuotedWord quote raw word) :
    QuotedWord quote ('\'' :: '\'' :: raw) ('\'' :: word)
  /-- An escape stands for a character. -/
  | escape {character : Char} {text raw word : List Char} (hquote : quote = '"')
    (hescape : EscapeFor character text) (hrest : QuotedWord quote raw word) :
    QuotedWord quote (text ++ raw) (character :: word)

/-- What stands behind a word: a gap, or the closing quote. -/
def EndsQuotedWord (quote : Char) (rest : List Char) : Prop :=
  (∃ first ∈ rest.head?, isGap first = true) ∨
    ∃ others, rest = quote :: others ∧ (quote = '\'' → others.head? ≠ some '\'')

section Quoted

variable {quote : Char} {raw word text rest : List Char} {cursor : Cursor} {fuel : ℕ}

/-- The characters of a word are on one line. -/
theorem QuotedWord.line (hword : QuotedWord quote raw word) :
    ∀ character ∈ raw, isBreak character = false := by
  induction hword with
  | nil => simp
  | letter hgap _ _ _ ih =>
    exact List.forall_mem_cons.mpr ⟨(isGap_eq_false_iff.mp hgap).2, ih⟩
  | quotes _ _ ih => simpa [isBreak] using ih
  | escape _ hescape _ ih =>
    rw [List.forall_mem_append]
    exact ⟨fun character hmem ↦
      (isGap_eq_false_iff.mp (hescape.characters character hmem).2).2, ih⟩

/-- A word between quotes is read. -/
theorem readQuotedWord_eq (hquote : quote = '\'' ∨ quote = '"')
    (hword : QuotedWord quote raw word) (hend : EndsQuotedWord quote rest)
    (hrest : cursor.rest = raw ++ rest) (hfuel : raw.length < fuel) (found : List Char) :
    readQuotedWord quote fuel found cursor =
      some (found ++ word, false, cursor.advance raw.length) := by
  induction hword generalizing cursor fuel found with
  | nil =>
    obtain ⟨fuel, rfl⟩ : ∃ less, fuel = less + 1 := ⟨fuel - 1, by omega⟩
    rw [List.nil_append] at hrest
    rcases hend with ⟨first, hfirst, hgap⟩ | ⟨others, rfl, hother⟩
    · obtain ⟨others, rfl⟩ := List.head?_eq_some_iff.mp hfirst
      simp [readQuotedWord, hrest, hgap]
    · have hgap : isGap quote = false := by rcases hquote with rfl | rfl <;> decide
      have hsingle : (quote = '\'' && others.head? = some '\'') = false := by simpa using hother
      simp only [readQuotedWord, hrest, hgap, hsingle]
      simp
  | @letter character raw word hgap hother hescape _ ih =>
    obtain ⟨fuel, rfl⟩ : ∃ less, fuel = less + 1 := ⟨fuel - 1, by omega⟩
    have hletter : (quote = '"' && character = '\\') = false := by simpa using hescape
    have hskip : cursor.skip.rest = raw ++ rest := by simp [Cursor.skip, Cursor.advance, hrest]
    have hread := ih hskip (by simpa using hfuel) (found ++ [character])
    simp only [readQuotedWord, hrest, List.cons_append, hgap, hother, hletter, Bool.false_eq_true,
      if_false, hread]
    simp [Cursor.skip, Cursor.advance_advance, Nat.add_comm]
  | @quotes raw word hsingle _ ih =>
    obtain ⟨fuel, rfl⟩ : ∃ less, fuel = less + 1 := ⟨fuel - 1, by omega⟩
    subst hsingle
    have hskip : (cursor.advance 2).rest = raw ++ rest := by simp [Cursor.advance, hrest]
    have hless : raw.length < fuel := by
      simp only [List.length_cons] at hfuel
      omega
    have hread := ih hskip hless (found ++ ['\''])
    have hgap : isGap '\'' = false := by decide
    have hcount : 2 + raw.length = ('\'' :: '\'' :: raw).length := by
      simp only [List.length_cons]
      omega
    simp only [readQuotedWord, hrest, List.cons_append, hgap, List.head?_cons, hread,
      Cursor.advance_advance, hcount]
    simp
  | @escape character text raw word hdouble hescape _ ih =>
    obtain ⟨fuel, rfl⟩ : ∃ less, fuel = less + 1 := ⟨fuel - 1, by omega⟩
    subst hdouble
    have hskip : (cursor.advance text.length).rest = raw ++ rest := by
      simp [Cursor.advance, hrest]
    have hread := hescape.read cursor (raw ++ rest) (by simpa using hrest)
    obtain ⟨letter, more, rfl⟩ := hescape.backslash
    have hless : raw.length < fuel := by
      simp only [List.length_append, List.length_cons] at hfuel
      omega
    have hnext := ih hskip hless (found ++ [character])
    have hgap : isGap '\\' = false := by decide
    have hline : isBreak letter = false :=
      (isGap_eq_false_iff.mp (hescape.characters letter (by simp)).2).2
    simp only [readQuotedWord, hrest, List.cons_append, hgap, List.head?_cons, Option.any_some,
      hline, hread, hnext, Cursor.advance_advance, ← List.length_append]
    simp

/-! ### Words and gaps between quotes -/

/-- What is written between quotes, and the text that it stands for. Each line behind the first one
is indented. -/
inductive Quoted (quote : Char) : List Char → List Char → Prop
  /-- A last word. -/
  | word {raw word : List Char} (hword : QuotedWord quote raw word) : Quoted quote raw word
  /-- A word and blanks. -/
  | blanks {rawWord word raw text : List Char} {blanks : ℕ} (hword : QuotedWord quote rawWord word)
    (hblanks : 0 < blanks) (hhead : ∀ character ∈ raw.head?, isGap character = false)
    (hrest : Quoted quote raw text) :
    Quoted quote (rawWord ++ (indentation blanks ++ raw)) (word ++ (indentation blanks ++ text))
  /-- A word and line breaks, which are no line feeds at first. -/
  | breaks {rawWord word raw text more : List Char} {first : Char} {columns : ℕ}
    (hword : QuotedWord quote rawWord word)
    (hbreaks : ∀ character ∈ first :: more, IsKeptBreak character) (hfirst : first ≠ '\n')
    (hcolumns : 0 < columns) (hhead : ∀ character ∈ raw.head?, isGap character = false)
    (hrest : Quoted quote raw text) :
    Quoted quote (rawWord ++ (first :: more ++ (indentation columns ++ raw)))
      (word ++ (first :: more ++ text))

/-- Quotes are no white space. -/
theorem isGap_quote (hquote : quote = '\'' ∨ quote = '"') : isGap quote = false := by
  rcases hquote with rfl | rfl <;> decide

/-- With the characters that are left as its fuel a word is read to its end. -/
theorem readQuotedWord_rest (hquote : quote = '\'' ∨ quote = '"')
    (hword : QuotedWord quote raw word) (hend : EndsQuotedWord quote rest)
    (hrest : cursor.rest = raw ++ rest) (found : List Char) :
    readQuotedWord quote (cursor.rest.length + 1) found cursor =
      some (found ++ word, false, cursor.past raw) := by
  rw [cursor.past_eq_advance hword.line]
  refine readQuotedWord_eq hquote hword hend hrest ?_ found
  rw [hrest, List.length_append]
  omega

/-- A gap that is not empty begins with white space. -/
theorem exists_head_gap {breaks : List Char} {blanks : ℕ}
    (hbreaks : ∀ character ∈ breaks, IsKeptBreak character) (hsome : breaks ≠ [] ∨ 0 < blanks) :
    ∃ first ∈ (breaks ++ (indentation blanks ++ rest)).head?, isGap first = true := by
  cases breaks with
  | cons first more => exact ⟨first, rfl, by simp [isGap, (hbreaks first List.mem_cons_self).1]⟩
  | nil =>
    have hblanks : 0 < blanks := hsome.resolve_left (absurd rfl)
    obtain ⟨count, rfl⟩ : ∃ count, blanks = count + 1 := ⟨blanks - 1, by omega⟩
    exact ⟨' ', rfl, by decide⟩

/-- A word between quotes and the gap behind it are read. -/
theorem readQuotedFrom_gap {breaks : List Char} {blanks : ℕ} (hquote : quote = '\'' ∨ quote = '"')
    (hword : QuotedWord quote raw word) (hbreaks : ∀ character ∈ breaks, IsKeptBreak character)
    (hsome : breaks ≠ [] ∨ 0 < blanks) (hhead : ∀ character ∈ rest.head?, isGap character = false)
    (hrest : cursor.rest = raw ++ (breaks ++ (indentation blanks ++ rest)))
    (hcolumn : cursor.column ≠ 0) (found : List Char) :
    readQuotedFrom quote (fuel + 1) found cursor =
      readQuotedFrom quote fuel (found ++ word ++ (gapOf breaks blanks).text)
        (cursor.past (raw ++ (breaks ++ indentation blanks))) := by
  obtain ⟨first, hfirst, hgap⟩ := @exists_head_gap rest breaks blanks hbreaks hsome
  have hmarker : cursor.isAtDocumentMarker = false := Cursor.isAtDocumentMarker_of_column_ne hcolumn
  have hread := readQuotedWord_rest hquote hword (Or.inl ⟨first, hfirst, hgap⟩) hrest found
  have hrestGap : (cursor.past raw).rest = breaks ++ (indentation blanks ++ rest) :=
    Cursor.rest_past_of_eq hrest
  obtain ⟨others, hothers⟩ := List.head?_eq_some_iff.mp hfirst
  have hnonempty : cursor.rest.isEmpty = false := by simp [hrest, hothers]
  have hopen : (cursor.past raw).isAt quote = false := by
    have hother : first ≠ quote := by
      rintro rfl
      rw [isGap_quote hquote] at hgap
      cases hgap
    simpa [Cursor.isAt, hrestGap, hothers] using hother
  have hgapRead : readGap none ((cursor.past raw).rest.length + 1) ⟨false, [], [], []⟩
      (cursor.past raw) =
        some (gapOf breaks blanks, (cursor.past raw).past (breaks ++ indentation blanks)) := by
    refine readGap_eq hbreaks hhead hrestGap ?_
    simp only [hrestGap, List.length_append, Cursor.length_indentation]
    omega
  simp only [readQuotedFrom, hmarker, hnonempty, Bool.or_self, Bool.false_eq_true, if_false, hread,
    hopen, hgapRead, Cursor.past_append]

/-- A last word is read with the closing quote behind it. -/
theorem readQuotedFrom_word (hquote : quote = '\'' ∨ quote = '"')
    (hword : QuotedWord quote raw word) (hrest : cursor.rest = raw ++ quote :: rest)
    (hother : quote = '\'' → rest.head? ≠ some '\'') (hcolumn : cursor.column ≠ 0)
    (found : List Char) :
    readQuotedFrom quote (fuel + 1) found cursor =
      some (found ++ word, cursor.past (raw ++ [quote])) := by
  have hmarker : cursor.isAtDocumentMarker = false := Cursor.isAtDocumentMarker_of_column_ne hcolumn
  have hnonempty : cursor.rest.isEmpty = false := by simp [hrest]
  have hread := readQuotedWord_rest hquote hword (Or.inr ⟨rest, rfl, hother⟩) hrest found
  have hclosed : (cursor.past raw).isAt quote = true := by
    simp [Cursor.isAt, Cursor.rest_past_of_eq hrest]
  have hlast : (cursor.past raw).past [quote] = (cursor.past raw).skip := by
    rw [Cursor.past, (isGap_eq_false_iff.mp (isGap_quote hquote)).2]
    rfl
  simp only [readQuotedFrom, hmarker, hnonempty, Bool.or_self, Bool.false_eq_true, if_false,
    hread, hclosed, if_true, Cursor.past_append, hlast]

theorem isGap_head_append_quote (hquote : quote = '\'' ∨ quote = '"')
    (hhead : ∀ character ∈ raw.head?, isGap character = false) :
    ∀ character ∈ (raw ++ quote :: rest).head?, isGap character = false := by
  cases raw with
  | nil => simpa using isGap_quote hquote
  | cons first others => simpa using hhead

/-- A word and a gap in front of what is read to its closing quote are read with it. -/
theorem readQuotedFrom_append {rawWord : List Char} {blanks : ℕ} (breaks : List Char)
    (hquote : quote = '\'' ∨ quote = '"') (hword : QuotedWord quote rawWord word)
    (hbreaks : ∀ character ∈ breaks, IsKeptBreak character) (hblanks : 0 < blanks)
    (hhead : ∀ character ∈ raw.head?, isGap character = false)
    (hrest : cursor.rest = rawWord ++ (breaks ++ (indentation blanks ++ (raw ++ quote :: rest))))
    (hcolumn : cursor.column ≠ 0)
    (hfuel : (rawWord ++ (breaks ++ (indentation blanks ++ raw))).length < fuel)
    (hread : ∀ {cursor : Cursor} {fuel : ℕ}, cursor.rest = raw ++ quote :: rest →
      cursor.column ≠ 0 → raw.length < fuel → ∀ found, readQuotedFrom quote fuel found cursor =
        some (found ++ text, cursor.past (raw ++ [quote]))) (found : List Char) :
    readQuotedFrom quote fuel found cursor =
      some (found ++ word ++ (gapOf breaks blanks).text ++ text,
        cursor.past (rawWord ++ (breaks ++ (indentation blanks ++ (raw ++ [quote]))))) := by
  obtain ⟨fuel, rfl⟩ : ∃ less, fuel = less + 1 := ⟨fuel - 1, by omega⟩
  have hnext : (cursor.past (rawWord ++ (breaks ++ indentation blanks))).rest =
      raw ++ quote :: rest := Cursor.rest_past_of_eq (by simpa using hrest)
  have hcolumnNext : (cursor.past (rawWord ++ (breaks ++ indentation blanks))).column ≠ 0 := by
    rw [← List.append_assoc, Cursor.column_past_append_indentation]
    omega
  have hless : raw.length < fuel := by
    simp only [List.length_append, Cursor.length_indentation] at hfuel
    omega
  rw [readQuotedFrom_gap hquote hword hbreaks (Or.inr hblanks)
    (isGap_head_append_quote hquote hhead) hrest hcolumn, hread hnext hcolumnNext hless,
    ← Cursor.past_append]
  simp

/-- What is written between quotes is read up to the closing quote. -/
theorem readQuotedFrom_eq (hquote : quote = '\'' ∨ quote = '"') (hquoted : Quoted quote raw text)
    (hrest : cursor.rest = raw ++ quote :: rest) (hother : quote = '\'' → rest.head? ≠ some '\'')
    (hcolumn : cursor.column ≠ 0) (hfuel : raw.length < fuel) (found : List Char) :
    readQuotedFrom quote fuel found cursor =
      some (found ++ text, cursor.past (raw ++ [quote])) := by
  induction hquoted generalizing cursor fuel found with
  | @word raw word hword =>
    obtain ⟨fuel, rfl⟩ : ∃ less, fuel = less + 1 := ⟨fuel - 1, by omega⟩
    exact readQuotedFrom_word hquote hword hrest hother hcolumn found
  | @blanks rawWord word raw text blanks hword hblanks hhead _ ih =>
    have hgap : (gapOf [] blanks).text = indentation blanks := rfl
    have hread := readQuotedFrom_append [] hquote hword (by simp) hblanks hhead
      (by simpa using hrest) hcolumn hfuel ih found
    rw [hread, hgap]
    simp
  | @breaks rawWord word raw text more first columns hword hbreaks hfirst hcolumns hhead _ ih =>
    have hgap : (gapOf (first :: more) columns).text = first :: more := by
      simp [gapOf, Gap.text, hfirst]
    have hread := readQuotedFrom_append (first :: more) hquote hword hbreaks hcolumns hhead
      (by simpa using hrest) hcolumn hfuel ih found
    rw [hread, hgap]
    simp

/-- A text between quotes is read up to the place behind the closing quote. -/
theorem readQuoted_eq (hquote : quote = '\'' ∨ quote = '"') (hquoted : Quoted quote raw text)
    (hrest : cursor.rest = quote :: (raw ++ quote :: rest))
    (hother : quote = '\'' → rest.head? ≠ some '\'') :
    readQuoted quote cursor = some (text, cursor.past (quote :: (raw ++ [quote]))) := by
  have hskip : cursor.past [quote] = cursor.skip := by
    rw [Cursor.past, (isGap_eq_false_iff.mp (isGap_quote hquote)).2]
    rfl
  have hbehind : cursor.skip.rest = raw ++ quote :: rest := by
    simp [Cursor.skip, Cursor.advance, hrest]
  have hcolumn : cursor.skip.column ≠ 0 := by simp [Cursor.skip, Cursor.advance]
  have hless : raw.length < cursor.rest.length + 1 := by
    simp only [hrest, List.length_cons, List.length_append]
    omega
  rw [readQuoted, readQuotedFrom_eq hquote hquoted hbehind hother hcolumn hless, ← hskip,
    ← Cursor.past_append]
  simp

end Quoted

/-! ### Single quotes -/

/-- A character between single quotes. -/
def singleQuotedCharacter (character : Char) : List Char :=
  if character = '\'' then ['\'', '\''] else [character]

section SingleQuoted

variable {columns : ℕ} {word rest text : List Char}

/-- A word is written between single quotes with its quotes doubled. -/
theorem singleQuotedFrom_word (hword : ∀ character ∈ word, isGap character = false) :
    singleQuotedFrom columns false (word ++ rest) =
      word.flatMap singleQuotedCharacter ++ singleQuotedFrom columns false rest := by
  induction word with
  | nil => rfl
  | cons character word ih =>
    obtain ⟨hcharacter, hothers⟩ := List.forall_mem_cons.mp hword
    rw [List.cons_append, singleQuotedFrom, (isGap_eq_false_iff.mp hcharacter).2, ih hothers]
    simp [singleQuotedCharacter]

theorem quotedWord_singleQuoted (hword : ∀ character ∈ word, isGap character = false) :
    QuotedWord '\'' (word.flatMap singleQuotedCharacter) word := by
  induction word with
  | nil => exact .nil
  | cons character word ih =>
    obtain ⟨hcharacter, hothers⟩ := List.forall_mem_cons.mp hword
    rw [List.flatMap_cons, singleQuotedCharacter]
    split
    · next hquote =>
      subst hquote
      exact .quotes rfl (ih hothers)
    · next hquote => exact .letter hcharacter hquote (by simp) (ih hothers)

/-- Behind a line break the next line is indented. -/
theorem singleQuotedFrom_true (hhead : ∀ character ∈ rest.head?, isGap character = false) :
    singleQuotedFrom columns true rest =
      indentation columns ++ singleQuotedFrom columns false rest := by
  cases rest with
  | nil => simp [singleQuotedFrom]
  | cons character others =>
    have hbreak := (isGap_eq_false_iff.mp (hhead character rfl)).2
    simp [singleQuotedFrom, hbreak]

theorem singleQuotedFrom_blanks (count : ℕ) :
    singleQuotedFrom columns false (indentation count ++ rest) =
      indentation count ++ singleQuotedFrom columns false rest := by
  induction count with
  | zero => rfl
  | succ count ih =>
    have hblank : isBreak ' ' = false := by decide
    simp only [indentation, List.replicate_succ, List.cons_append] at ih ⊢
    simp [singleQuotedFrom, hblank, ih]

theorem singleQuotedFrom_breaks {behindBreak : Bool} {first : Char} {more : List Char}
    (hbreaks : ∀ character ∈ first :: more, isBreak character = true) :
    singleQuotedFrom columns behindBreak (first :: more ++ rest) =
      first :: more ++ singleQuotedFrom columns true rest := by
  induction more generalizing first behindBreak with
  | nil => simp [singleQuotedFrom, hbreaks first List.mem_cons_self]
  | cons second more ih =>
    obtain ⟨hfirst, hothers⟩ := List.forall_mem_cons.mp hbreaks
    rw [List.cons_append, singleQuotedFrom, if_pos hfirst, ih hothers]
    simp

theorem isGap_head_singleQuotedFrom (hhead : ∀ character ∈ rest.head?, isGap character = false) :
    ∀ character ∈ (singleQuotedFrom columns false rest).head?, isGap character = false := by
  cases rest with
  | nil => simp [singleQuotedFrom]
  | cons first others =>
    have hgap := hhead first rfl
    have hquote : isGap '\'' = false := by decide
    rw [singleQuotedFrom, (isGap_eq_false_iff.mp hgap).2]
    by_cases hsame : first = '\'' <;> simp [hsame, hgap, hquote]

theorem hasPair_append {first second : Char → Bool} {before after : List Char}
    (hnone : hasPair first second (before ++ after) = false) :
    hasPair first second before = false ∧ hasPair first second after = false := by
  induction before with
  | nil => exact ⟨rfl, hnone⟩
  | cons character before ih =>
    cases before with
    | nil =>
      cases after with
      | nil => exact ⟨rfl, rfl⟩
      | cons other after =>
        rw [List.singleton_append, hasPair, Bool.or_eq_false_iff] at hnone
        exact ⟨rfl, hnone.2⟩
    | cons other before =>
      rw [List.cons_append, List.cons_append, hasPair, Bool.or_eq_false_iff] at hnone
      obtain ⟨hbefore, hafter⟩ := ih hnone.2
      rw [hasPair, hnone.1, hbefore]
      exact ⟨rfl, hafter⟩

/-- Where blanks and line breaks are not neighbours, a gap has only one of them. -/
theorem blanks_or_breaks {gap : List Char}
    (hgap : ∀ character ∈ gap, isGap character = true ∧ standsForItself character = true)
    (hblank : hasPair (· = ' ') isBreak gap = false)
    (hbreak : hasPair isBreak (· = ' ') gap = false) :
    (∀ character ∈ gap, character = ' ') ∨ ∀ character ∈ gap, IsKeptBreak character := by
  have hkind {character : Char} (hcharacter : isGap character = true ∧
      standsForItself character = true) : character = ' ' ∨ IsKeptBreak character := by
    obtain ⟨hgap, hstands⟩ := hcharacter
    simp only [isGap, isSpace, Bool.or_eq_true, decide_eq_true_eq] at hgap
    rcases hgap with (rfl | rfl) | hbreak
    · exact Or.inl rfl
    · exact absurd hstands (by decide)
    · exact Or.inr ⟨hbreak, hstands⟩
  induction gap with
  | nil => simp
  | cons first gap ih =>
    obtain ⟨hfirst, hothers⟩ := List.forall_mem_cons.mp hgap
    cases gap with
    | nil => simpa using hkind hfirst
    | cons second gap =>
      rw [hasPair, Bool.or_eq_false_iff, Bool.and_eq_false_iff] at hblank hbreak
      rcases ih hothers hblank.2 hbreak.2 with hall | hall <;> rcases hkind hfirst with rfl | hkept
      · exact Or.inl (List.forall_mem_cons.mpr ⟨rfl, hall⟩)
      · rcases hbreak.1 with hnot | hnot
        · rw [hkept.1] at hnot
          cases hnot
        · simp [hall second] at hnot
      · rcases hblank.1 with hnot | hnot
        · simp at hnot
        · rw [(hall second List.mem_cons_self).1] at hnot
          cases hnot
      · exact Or.inr (List.forall_mem_cons.mpr ⟨hkept, hall⟩)

/-- A text is written between single quotes in their form, if no line break is beside a blank. -/
theorem quoted_singleQuotedFrom
    (hcolumns : (∃ character ∈ text, isBreak character = true) → 0 < columns)
    (hstands : ∀ character ∈ text, standsForItself character = true) (hfeed : '\n' ∉ text)
    (hblank : hasPair (· = ' ') isBreak text = false)
    (hbreak : hasPair isBreak (· = ' ') text = false) :
    Quoted '\'' (singleQuotedFrom columns false text) text := by
  induction text using word_induction isGap with
  | hword word hword =>
    have hraw : singleQuotedFrom columns false word = word.flatMap singleQuotedCharacter := by
      simpa [singleQuotedFrom] using @singleQuotedFrom_word columns word [] hword
    exact hraw ▸ .word (quotedWord_singleQuoted hword)
  | hgap word gap text hword hsome hgap hhead ih =>
    obtain ⟨hgapStands, htextStands⟩ := List.forall_mem_append.mp
      (List.forall_mem_append.mp hstands).2
    obtain ⟨hblankGap, hblankText⟩ := hasPair_append (hasPair_append hblank).2
    obtain ⟨hbreakGap, hbreakText⟩ := hasPair_append (hasPair_append hbreak).2
    simp only [List.mem_append, not_or] at hfeed
    have hrest := ih (fun ⟨character, hmem, hends⟩ ↦ hcolumns ⟨character, by simp [hmem], hends⟩)
      htextStands hfeed.2.2 hblankText hbreakText
    rw [singleQuotedFrom_word hword]
    rcases blanks_or_breaks (fun character hmem ↦
      ⟨hgap character hmem, hgapStands character hmem⟩) hblankGap hbreakGap with hall | hall
    · have hblanks : gap = indentation gap.length := List.eq_replicate_of_mem hall
      rw [hblanks, singleQuotedFrom_blanks]
      exact .blanks (quotedWord_singleQuoted hword) (List.length_pos_iff.mpr hsome)
        (isGap_head_singleQuotedFrom hhead) hrest
    · obtain ⟨first, more, rfl⟩ := List.exists_cons_of_ne_nil hsome
      rw [singleQuotedFrom_breaks fun character hmem ↦ (hall character hmem).1,
        singleQuotedFrom_true hhead]
      refine .breaks (quotedWord_singleQuoted hword) hall (fun hsame ↦ ?_) (hcolumns ?_)
        (isGap_head_singleQuotedFrom hhead) hrest
      · exact hfeed.2.1 (hsame ▸ List.mem_cons_self)
      · exact ⟨first, by simp, (hall first List.mem_cons_self).1⟩

end SingleQuoted

/-! ### Double quotes -/

/-- A character that stands for itself on a line is white space only if it is a blank. -/
theorem isGap_of_standsForItself {character : Char} (hstands : standsForItself character = true)
    (hbreak : isBreak character = false) (hblank : character ≠ ' ') :
    isGap character = false := by
  have htab : character ≠ '\t' := by
    rintro rfl
    exact absurd hstands (by decide)
  simp [isGap, isSpace, hblank, htab, hbreak]

/-- A word is written between double quotes in their form. -/
theorem quotedWord_doubleQuoted {word : List Char} (hword : ∀ character ∈ word, character ≠ ' ') :
    QuotedWord '"' (word.flatMap doubleQuotedCharacter) word := by
  induction word with
  | nil => exact .nil
  | cons character word ih =>
    obtain ⟨hcharacter, hothers⟩ := List.forall_mem_cons.mp hword
    rw [List.flatMap_cons]
    rcases doubleQuotedCharacter_cases character with
      ⟨htext, hstands, hbreak, hquote, hbackslash⟩ | hescape
    · rw [htext]
      exact .letter (isGap_of_standsForItself hstands hbreak hcharacter) hquote
        (fun _ ↦ hbackslash) (ih hothers)
    · exact .escape rfl hescape (ih hothers)

/-- Every text is written between double quotes in their form. -/
theorem quoted_doubleQuoted (text : List Char) :
    Quoted '"' (text.flatMap doubleQuotedCharacter) text := by
  induction text using word_induction (fun character ↦ character = ' ') with
  | hword word hword =>
    exact .word (quotedWord_doubleQuoted fun character hmem ↦ by simpa using hword character hmem)
  | hgap word gap text hword hsome hgap hhead ih =>
    have hblanks : gap = indentation gap.length :=
      List.eq_replicate_of_mem fun character hmem ↦ by simpa using hgap character hmem
    have hraw (count : ℕ) : (indentation count).flatMap doubleQuotedCharacter =
        indentation count := by
      have hblank : doubleQuotedCharacter ' ' = [' '] := rfl
      induction count with
      | zero => rfl
      | succ count ih =>
        simp only [indentation, List.replicate_succ] at ih ⊢
        rw [List.flatMap_cons, ih, hblank, List.singleton_append]
    have hfirst : ∀ character ∈ (text.flatMap doubleQuotedCharacter).head?,
        isGap character = false := by
      cases text with
      | nil => simp
      | cons first others =>
        have hblank : first ≠ ' ' := by simpa using hhead first rfl
        rw [List.flatMap_cons]
        rcases doubleQuotedCharacter_cases first with ⟨htext, hstands, hbreak, -⟩ | hescape
        · simpa [htext] using isGap_of_standsForItself hstands hbreak hblank
        · obtain ⟨letter, more, htext⟩ := hescape.backslash
          have hbackslash : isGap '\\' = false := by decide
          simpa [htext] using hbackslash
    rw [List.flatMap_append, List.flatMap_append, hblanks, hraw]
    exact .blanks (quotedWord_doubleQuoted fun character hmem ↦ by simpa using hword character hmem)
      (List.length_pos_iff.mpr hsome) hfirst ih

end Roster.Yaml
