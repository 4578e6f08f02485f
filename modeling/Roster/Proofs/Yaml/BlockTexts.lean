import Roster.Proofs.Yaml.PlainTexts

/-!
# Blocks are read as they are written

A text with several lines is written as a block. Its header says how far in the lines are, if their
own white space would hide it, and how many of the line breaks at the end belong to the text. The
block is read as the text (`readBlock_eq`), up to a line that is not as far in.
-/

set_option autoImplicit false
set_option relaxedAutoImplicit false

namespace Roster.Yaml

section Lines

variable {columns outer fuel widest : ℕ} {line rest text breaks : List Char} {cursor : Cursor}

/-! ### The lines of a block -/

/-- A line is written as it is. -/
theorem blockLinesFrom_line (hline : ∀ character ∈ line, isBreak character = false) :
    blockLinesFrom columns false (line ++ rest) = line ++ blockLinesFrom columns false rest := by
  induction line with
  | nil => rfl
  | cons character line ih =>
    obtain ⟨hcharacter, hothers⟩ := List.forall_mem_cons.mp hline
    simp [blockLinesFrom, hcharacter, ih hothers]

/-- Line breaks are written as they are. -/
theorem blockLinesFrom_breaks (hbreaks : ∀ character ∈ breaks, isBreak character = true) :
    blockLinesFrom columns true (breaks ++ rest) = breaks ++ blockLinesFrom columns true rest := by
  induction breaks with
  | nil => rfl
  | cons character breaks ih =>
    obtain ⟨hcharacter, hothers⟩ := List.forall_mem_cons.mp hbreaks
    simp [blockLinesFrom, hcharacter, ih hothers]

/-- Behind a line each line break is written as it is. -/
theorem blockLinesFrom_first_break {first : Char} (hfirst : isBreak first = true) :
    blockLinesFrom columns false (first :: rest) = first :: blockLinesFrom columns true rest := by
  rw [blockLinesFrom, if_pos hfirst]

/-- A line is indented. -/
theorem blockLinesFrom_true (hsome : text ≠ [])
    (hhead : ∀ character ∈ text.head?, isBreak character = false) :
    blockLinesFrom columns true text =
      indentation columns ++ blockLinesFrom columns false text := by
  obtain ⟨first, others, rfl⟩ := List.exists_cons_of_ne_nil hsome
  simp [blockLinesFrom, hhead first rfl]

/-- A line and the line breaks behind it are written as they are. -/
theorem blockLinesFrom_gap (hline : ∀ character ∈ line, isBreak character = false)
    (hsome : breaks ≠ []) (hbreaks : ∀ character ∈ breaks, isBreak character = true) :
    blockLinesFrom columns false (line ++ (breaks ++ rest)) =
      line ++ (breaks ++ blockLinesFrom columns true rest) := by
  obtain ⟨first, more, rfl⟩ := List.exists_cons_of_ne_nil hsome
  obtain ⟨hfirst, hmore⟩ := List.forall_mem_cons.mp hbreaks
  rw [blockLinesFrom_line hline, List.cons_append, blockLinesFrom_first_break hfirst,
    blockLinesFrom_breaks hmore, List.cons_append]

/-- The first character of a text is the first one of its lines. -/
theorem head?_blockLinesFrom (hsome : text ≠ [])
    (hhead : ∀ character ∈ text.head?, isBreak character = false) :
    (blockLinesFrom columns false text ++ rest).head? = text.head? := by
  obtain ⟨first, others, rfl⟩ := List.exists_cons_of_ne_nil hsome
  simp [blockLinesFrom, hhead first rfl]

/-! ### The line break at the end -/

/-- The line break behind a text that has none at its end. -/
def closing (text : List Char) : List Char :=
  if text.getLast?.any isBreak then [] else ['\n']

/-- A line has a line break behind it. -/
theorem closing_line (hline : ∀ character ∈ line, isBreak character = false) :
    closing line = ['\n'] := by
  have hlast : line.getLast?.any isBreak = false := by
    rw [Option.any_eq_false]
    exact fun character hmem ↦ by simpa using hline character (List.mem_of_getLast? hmem)
  simp [closing, hlast]

/-- Behind line breaks there is no other one. -/
theorem closing_breaks (hsome : breaks ≠ [])
    (hbreaks : ∀ character ∈ breaks, isBreak character = true) : closing breaks = [] := by
  rw [closing, List.getLast?_eq_some_getLast hsome, Option.any_some,
    if_pos (hbreaks _ (List.getLast_mem hsome))]

/-- The end of a text decides, whatever stands in front of it. -/
theorem closing_append (front : List Char) (hsome : text ≠ []) :
    closing (front ++ text) = closing text := by
  rw [closing, closing, List.getLast?_append, List.getLast?_eq_some_getLast hsome, Option.some_or]

/-! ### Empty lines -/

/-- A line of a block begins at the indentation of the block, and a line behind the block is not as
far in. -/
def LineStart (columns outer : ℕ) (rest : List Char) : Prop :=
  (∀ character ∈ rest.head?, isBreak character = false) ∧
    (outer = columns ∨ outer < columns ∧ BeginsToken rest)

/-- The line behind a block. -/
theorem lineStart_behind (hbegins : BeginsToken rest) (hless : outer < columns) :
    LineStart columns outer rest :=
  ⟨fun character hmem ↦ (hbegins.head character hmem).2.2.1, Or.inr ⟨hless, hbegins⟩⟩

/-- The first line of a text. -/
theorem lineStart_blockLinesFrom (hsome : text ≠ [])
    (hhead : ∀ character ∈ text.head?, isBreak character = false) :
    LineStart columns columns (blockLinesFrom columns false text ++ rest) :=
  ⟨by rwa [head?_blockLinesFrom hsome hhead], Or.inl rfl⟩

/-- At the start of a line its indentation is passed. -/
theorem readBlockBreaks_line (hcolumns : columns ≠ 0) (hstart : LineStart columns outer rest)
    (hrest : cursor.rest = indentation outer ++ rest) (hcolumn : cursor.column = 0) :
    readBlockBreaks columns (fuel + 1) widest breaks cursor =
      some (max widest outer, breaks, cursor.advance outer) := by
  obtain ⟨hhead, hplace⟩ := hstart
  have hcount : min (cursor.run (· = ' ')).length (columns - cursor.column) = outer := by
    have hrun : cursor.run (· = ' ') = indentation outer ++ rest.takeWhile (· = ' ') := by
      rw [Cursor.run, hrest, List.takeWhile_append_of_pos fun character hmem ↦ by
        simp [List.eq_of_mem_replicate hmem]]
    rw [hrun, hcolumn, List.length_append, Cursor.length_indentation]
    rcases hplace with rfl | ⟨hless, hbegins⟩
    · omega
    · have hnone : rest.takeWhile (· = ' ') = [] := by
        cases rest with
        | nil => rfl
        | cons first others => simp [(hbegins.head first rfl).1]
      rw [hnone, List.length_nil]
      omega
  have hbehind : (cursor.advance outer).rest = rest := by
    simp [Cursor.advance, hrest, indentation]
  have hbreak : (cursor.advance outer).isAtBreak = false := by
    rw [Cursor.isAtBreak, hbehind, Option.any_eq_false]
    exact fun character hmem ↦ by simpa using hhead character hmem
  have hplaceColumn : (cursor.advance outer).column = outer := by
    simp [Cursor.advance, hcolumn]
  have htab : (decide (outer < columns) && (cursor.advance outer).isAt '\t') = false := by
    rw [Bool.and_eq_false_iff]
    rcases hplace with rfl | ⟨-, hbegins⟩
    · exact Or.inl (by simp)
    · refine Or.inr ?_
      simp only [Cursor.isAt, hbehind, decide_eq_false_iff_not]
      exact fun hsame ↦ (hbegins.head '\t' hsame).2.1 rfl
  simp only [readBlockBreaks, hcolumns, if_false, hcount, hplaceColumn, decide_false,
    Bool.false_or, htab, hbreak, Bool.false_eq_true]

/-- Empty lines are passed up to the next line. -/
theorem readBlockBreaks_eq {more : List Char} (hcolumns : columns ≠ 0)
    (hmore : ∀ character ∈ more, IsKeptBreak character) (hstart : LineStart columns outer rest)
    (hrest : cursor.rest = more ++ (indentation outer ++ rest)) (hcolumn : cursor.column = 0)
    (hfuel : more.length < fuel) :
    ∃ width, readBlockBreaks columns fuel widest breaks cursor =
      some (width, breaks ++ more, cursor.past (more ++ indentation outer)) := by
  induction more generalizing cursor fuel widest breaks with
  | nil =>
    obtain ⟨fuel, rfl⟩ : ∃ less, fuel = less + 1 := ⟨fuel - 1, by omega⟩
    exact ⟨_, by rw [readBlockBreaks_line hcolumns hstart hrest hcolumn, List.append_nil,
      List.nil_append, Cursor.past_indentation]⟩
  | cons character more ih =>
    obtain ⟨fuel, rfl⟩ : ∃ less, fuel = less + 1 := ⟨fuel - 1, by omega⟩
    obtain ⟨hkept, hothers⟩ := List.forall_mem_cons.mp hmore
    have hhere : cursor.rest = character :: (more ++ (indentation outer ++ rest)) := hrest
    have hnext : cursor.newLine.rest = more ++ (indentation outer ++ rest) := by
      simp [Cursor.newLine, hhere]
    obtain ⟨htext, hskip⟩ := hkept.read hhere
    have hrun : (cursor.run (· = ' ')).length = 0 := by
      have hblank : character ≠ ' ' := by
        rintro rfl
        exact absurd hkept.1 (by decide)
      simp [Cursor.run, hhere, hblank]
    have htab : cursor.isAt '\t' = false := by
      have hother : character ≠ '\t' := by
        rintro rfl
        exact absurd hkept.1 (by decide)
      simp [Cursor.isAt, hhere, hother]
    have hbreak : cursor.isAtBreak = true := by simp [Cursor.isAtBreak, hhere, hkept.1]
    have hstep : readBlockBreaks columns (fuel + 1) widest breaks cursor =
        readBlockBreaks columns fuel (max widest cursor.column) (breaks ++ [character])
          cursor.newLine := by
      simp only [readBlockBreaks, hcolumns, if_false, hrun, Nat.zero_min, Cursor.advance_zero, htab,
        Bool.and_false, Bool.false_eq_true, hbreak, if_true, htext, hskip]
    have hless : more.length < fuel := by simpa using hfuel
    obtain ⟨width, hread⟩ : ∃ width, readBlockBreaks columns fuel (max widest cursor.column)
        (breaks ++ [character]) cursor.newLine = some (width, breaks ++ [character] ++ more,
          cursor.newLine.past (more ++ indentation outer)) := ih hothers hnext rfl hless
    refine ⟨width, ?_⟩
    rw [hstep, hread]
    simp [Cursor.past, hkept.1]

/-! ### Lines -/

/-- A text without the line breaks at its end, the first of these, if there is something in front of
it, and the others. -/
structure BlockParts (text body first more : List Char) : Prop where
  /-- The parts make up the text. -/
  whole : body ++ (first ++ more) = text
  /-- Line breaks are at the end. -/
  breaks : ∀ character ∈ first ++ more, isBreak character = true
  /-- The rest does not end with one. -/
  last : ∀ character ∈ body.getLast?, isBreak character = false
  /-- Something has one line break behind it that is counted first. -/
  one : body ≠ [] → first.length = 1

/-- A line of a block is read with the empty lines behind it. -/
theorem readBlockLines_line {found first before more : List Char} {last : Char} {blank : Bool}
    (hcolumns : columns ≠ 0) (hline : ∀ character ∈ line, isBreak character = false)
    (hlast : IsKeptBreak last) (hmore : ∀ character ∈ more, IsKeptBreak character)
    (hstart : LineStart columns outer rest)
    (hrest : cursor.rest = line ++ (last :: more ++ (indentation outer ++ rest)))
    (hcolumn : cursor.column = columns) :
    readBlockLines false columns (fuel + 1) ⟨found, first, before, blank, cursor⟩ =
      readBlockLines false columns fuel ⟨found ++ (first ++ before) ++ line, [last], more,
        cursor.isAtSpace, cursor.past (line ++ (last :: more ++ indentation outer))⟩ := by
  have hnonempty : cursor.rest.isEmpty = false := by simp [hrest]
  have hrun : cursor.run (fun character ↦ !isBreak character) = line := by
    rw [Cursor.run, hrest, List.takeWhile_append_of_pos fun character hmem ↦ by
      simp [hline character hmem]]
    simp [hlast.1]
  have hbehind : cursor.past line = cursor.advance line.length := cursor.past_eq_advance hline
  have hrestLine : (cursor.past line).rest = last :: (more ++ (indentation outer ++ rest)) :=
    Cursor.rest_past_of_eq hrest
  obtain ⟨htext, hskip⟩ := hlast.read hrestLine
  have hrestNext : (cursor.past line).newLine.rest = more ++ (indentation outer ++ rest) := by
    simp [Cursor.newLine, hrestLine]
  have hless : more.length < (cursor.past line).rest.length + 1 := by
    simp only [hrestLine, List.length_cons, List.length_append]
    omega
  obtain ⟨width, hread⟩ : ∃ width, readBlockBreaks columns ((cursor.past line).rest.length + 1) 0 []
      (cursor.past line).newLine = some (width, [] ++ more,
        (cursor.past line).newLine.past (more ++ indentation outer)) :=
    readBlockBreaks_eq hcolumns hmore hstart hrestNext rfl hless
  have hplace : cursor.past (line ++ (last :: more ++ indentation outer)) =
      (cursor.past line).newLine.past (more ++ indentation outer) := by
    rw [Cursor.past_append, List.cons_append, Cursor.past, if_pos hlast.1]
  simp only [readBlockLines, hcolumn, hnonempty, Bool.not_false, Bool.and_true, decide_true,
    if_true, hrun, ← hbehind, hskip, hread, htext, Bool.false_and, Bool.false_eq_true, if_false,
    hplace]
  simp

/-- A block ends at a line that is not as far in. -/
theorem readBlockLines_stop {reading : BlockReading} (hcolumn : reading.cursor.column ≠ columns) :
    readBlockLines false columns fuel reading = some reading := by
  cases fuel with
  | zero => rfl
  | succ fuel => simp [readBlockLines, hcolumn]

/-- Behind a line that was read, what was read before, the line and its breaks are the parts. -/
theorem BlockParts.add {prior found first before more : List Char} {last : Char}
    (hparts : BlockParts prior found first before)
    (hline : ∀ character ∈ line, isBreak character = false) (hsome : line ≠ [])
    (hbreaks : ∀ character ∈ last :: more, isBreak character = true) :
    BlockParts (prior ++ (line ++ last :: more)) (found ++ (first ++ before) ++ line) [last]
      more where
  whole := by simp [← hparts.whole]
  breaks := hbreaks
  last := by
    intro character hmem
    rw [List.getLast?_append, List.getLast?_eq_some_getLast hsome, Option.some_or] at hmem
    exact Option.mem_some.mp hmem ▸ hline _ (List.getLast_mem hsome)
  one := fun _ ↦ rfl

/-- With its last line, and the empty lines behind that, a block is read to its end. -/
theorem readBlockLines_last {found first before more : List Char} {last : Char} {blank : Bool}
    (hcolumns : columns ≠ 0) (hline : ∀ character ∈ line, isBreak character = false)
    (hlast : IsKeptBreak last) (hmore : ∀ character ∈ more, IsKeptBreak character)
    (hbegins : BeginsToken rest) (hless : outer < columns)
    (hrest : cursor.rest = line ++ (last :: more ++ (indentation outer ++ rest)))
    (hcolumn : cursor.column = columns) :
    readBlockLines false columns (fuel + 1) ⟨found, first, before, blank, cursor⟩ =
      some ⟨found ++ (first ++ before) ++ line, [last], more, cursor.isAtSpace,
        cursor.past (line ++ (last :: more ++ indentation outer))⟩ := by
  have hbreaks : ∀ character ∈ last :: more, isBreak character = true :=
    List.forall_mem_cons.mpr ⟨hlast.1, fun character hmem ↦ (hmore character hmem).1⟩
  rw [readBlockLines_line hcolumns hline hlast hmore (lineStart_behind hbegins hless) hrest hcolumn]
  refine readBlockLines_stop ?_
  change (cursor.past (line ++ (last :: more ++ indentation outer))).column ≠ columns
  rw [Cursor.column_past_gap _ (List.cons_ne_nil last more) hbreaks]
  exact hless.ne

/-- The lines of a block are read up to a line that is not as far in. -/
theorem readBlockLines_eq {prior found first before : List Char} (blank : Bool)
    (hcolumns : columns ≠ 0) (hsome : text ≠ [])
    (hhead : ∀ character ∈ text.head?, isBreak character = false)
    (hstands : ∀ character ∈ text, standsForItself character = true)
    (hbegins : BeginsToken rest) (hless : outer < columns)
    (hrest : cursor.rest =
      blockLinesFrom columns false text ++ (closing text ++ (indentation outer ++ rest)))
    (hcolumn : cursor.column = columns) (hparts : BlockParts prior found first before)
    (hfuel : text.length < fuel) :
    ∃ final, readBlockLines false columns fuel ⟨found, first, before, blank, cursor⟩ = some final ∧
      BlockParts (prior ++ (text ++ closing text)) final.text final.lastBreak final.moreBreaks ∧
      final.cursor =
        cursor.past (blockLinesFrom columns false text ++ (closing text ++ indentation outer)) := by
  induction text using word_induction isBreak
    generalizing cursor fuel prior found first before blank with
  | hword line hline =>
    obtain ⟨fuel, rfl⟩ : ∃ less, fuel = less + 1 := ⟨fuel - 1, by omega⟩
    have hraw : blockLinesFrom columns false line = line := by
      simpa [blockLinesFrom] using @blockLinesFrom_line columns line [] hline
    rw [hraw, closing_line hline] at hrest ⊢
    refine ⟨_, readBlockLines_last hcolumns hline isKeptBreak_lineFeed (by simp) hbegins hless hrest
      hcolumn, hparts.add hline hsome (by simpa using isKeptBreak_lineFeed.1), rfl⟩
  | hgap line gap text hline hsomeGap hgap hheadText ih =>
    obtain ⟨fuel, rfl⟩ : ∃ less, fuel = less + 1 := ⟨fuel - 1, by omega⟩
    obtain ⟨hgapStands, htextStands⟩ := List.forall_mem_append.mp
      (List.forall_mem_append.mp hstands).2
    rw [blockLinesFrom_gap hline hsomeGap hgap] at hrest ⊢
    obtain ⟨last, more, rfl⟩ := List.exists_cons_of_ne_nil hsomeGap
    obtain ⟨hlast, hmore⟩ := List.forall_mem_cons.mp fun character hmem ↦
      (⟨hgap character hmem, hgapStands character hmem⟩ : IsKeptBreak character)
    have hsomeLine : line ≠ [] := by
      rintro rfl
      exact absurd (hhead last rfl) (by simp [hgap last List.mem_cons_self])
    have hparts' := hparts.add hline hsomeLine hgap
    by_cases hover : text = []
    · subst hover
      rw [List.append_nil, closing_append line hsomeGap, closing_breaks hsomeGap hgap] at hrest ⊢
      simp only [blockLinesFrom, List.append_nil, List.nil_append, List.append_assoc] at hrest ⊢
      exact ⟨_, readBlockLines_last hcolumns hline hlast hmore hbegins hless hrest hcolumn, hparts',
        rfl⟩
    · have hclosing : closing (line ++ (last :: more ++ text)) = closing text := by
        rw [closing_append line (by simp), closing_append _ hover]
      rw [hclosing, blockLinesFrom_true hover hheadText] at hrest ⊢
      have hrestLine : cursor.rest = line ++ (last :: more ++ (indentation columns ++
          (blockLinesFrom columns false text ++
            (closing text ++ (indentation outer ++ rest))))) := by
        simpa using hrest
      have hnext : (cursor.past (line ++ (last :: more ++ indentation columns))).rest =
          blockLinesFrom columns false text ++ (closing text ++ (indentation outer ++ rest)) :=
        Cursor.rest_past_of_eq (by simpa using hrestLine)
      have hlessText : text.length < fuel := by
        simp only [List.length_append, List.length_cons] at hfuel
        omega
      obtain ⟨final, hread, hfinal, hbehind⟩ := ih cursor.isAtSpace hover hheadText htextStands
        hnext (cursor.column_past_gap hsomeGap hgap columns) hparts' hlessText
      refine ⟨final, ?_, by simpa using hfinal, ?_⟩
      · rw [readBlockLines_line hcolumns hline hlast hmore
          (lineStart_blockLinesFrom hover hheadText) hrestLine hcolumn]
        exact hread
      · rw [hbehind, ← Cursor.past_append]
        simp

end Lines

/-! ### Line breaks at the end -/

/-- What the header of the block of a text says about the line breaks at its end. -/
def chompingOf (text : List Char) : Chomping :=
  match text.reverse with
  | [] => .strip
  | last :: others =>
    if !isBreak last then .strip
    else if others.head?.all isBreak then .keep
    else .clip

/-- What is kept of a block. -/
def chomp (chomping : Chomping) (first more : List Char) : List Char :=
  match chomping with
  | .strip => []
  | .clip => first
  | .keep => first ++ more

/-- Without the line breaks at its end a text is its first part. -/
theorem BlockParts.dropWhile {text body first more : List Char}
    (hparts : BlockParts text body first more) :
    text.reverse.dropWhile isBreak = body.reverse := by
  have hbreaks : ∀ character ∈ (first ++ more).reverse, isBreak character = true :=
    fun character hmem ↦ hparts.breaks character (List.mem_reverse.mp hmem)
  have hbody : body.reverse.dropWhile isBreak = body.reverse := by
    cases hreverse : body.reverse with
    | nil => rfl
    | cons last others =>
      have hlast : isBreak last = false := hparts.last last (by
        rw [← List.head?_reverse, hreverse]
        rfl)
      simp [hlast]
  rw [← hparts.whole, List.reverse_append, List.dropWhile_append_of_pos hbreaks, hbody]

/-- What is kept of the block of a text is the text. -/
theorem BlockParts.chomp_eq {text body first more : List Char} (hsome : text ≠ [])
    (hparts : BlockParts (text ++ closing text) body first more) :
    body ++ chomp (chompingOf text) first more = text := by
  have hbody := hparts.dropWhile
  have hwhole := hparts.whole
  rw [List.reverse_append] at hbody
  cases hreverse : text.reverse with
  | nil => exact absurd (List.reverse_eq_nil_iff.mp hreverse) hsome
  | cons last others =>
    have hends : text.getLast? = some last := by
      rw [← List.head?_reverse, hreverse, List.head?_cons]
    rw [chompingOf, hreverse]
    cases hlast : isBreak last with
    | false =>
      have hclosing : closing text = ['\n'] := by simp [closing, hends, hlast]
      have hsame : last :: others = body.reverse := by
        have hfeed : isBreak '\n' = true := by decide
        simpa [hclosing, hreverse, hlast, hfeed] using hbody
      have htext : text = body := List.reverse_inj.mp (hreverse.trans hsame)
      simp [chomp, hlast, htext]
    | true =>
      have hclosing : closing text = [] := by simp [closing, hends, hlast]
      rw [hclosing, List.append_nil] at hwhole
      cases others with
      | nil => simpa [chomp, hlast] using hwhole
      | cons other others =>
        cases hother : isBreak other with
        | true => simpa [chomp, hlast, hother] using hwhole
        | false =>
          have hsame : other :: others = body.reverse := by
            simpa [hclosing, hreverse, hlast, hother] using hbody
          have htext : text = body ++ [last] := by
            rw [← List.reverse_reverse text, hreverse, hsame, List.reverse_cons,
              List.reverse_reverse]
          have hbreaks : first ++ more = [last] :=
            List.append_cancel_left (hwhole.trans htext)
          have hone : first.length = 1 := hparts.one (by
            rintro rfl
            cases hsame)
          have hfirst : first = [last] := by
            obtain ⟨character, rfl⟩ := List.length_eq_one_iff.mp hone
            exact congrArg ([·]) (List.cons.inj hbreaks).1
          simp [chomp, hlast, hother, hfirst, htext]

/-! ### The header -/

/-- The header of a block has to say how far in its lines are. -/
def isHinted (text : List Char) : Bool :=
  text.head?.any fun first ↦ first = ' ' || isBreak first

/-- Without a hint the text begins with something that shows how far in its first line is. -/
theorem head?_of_not_hinted {text : List Char} (hhint : isHinted text = false) :
    ∀ character ∈ text.head?, character ≠ ' ' ∧ isBreak character = false := by
  rw [isHinted, Option.any_eq_false] at hhint
  exact fun character hmem ↦ by simpa using hhint character hmem

/-- The sign for the line breaks at the end. -/
def chompingSign : Chomping → List Char
  | .strip => ['-']
  | .clip => []
  | .keep => ['+']

/-- A header is a digit and a sign. -/
theorem blockHeader_eq (text : List Char) :
    blockHeader text = (if isHinted text then ['2'] else []) ++ chompingSign (chompingOf text) := by
  rw [blockHeader, chompingOf, isHinted]
  congr 1
  cases text.reverse with
  | nil => rfl
  | cons last others =>
    cases hlast : isBreak last with
    | false => simp [hlast, chompingSign]
    | true => cases hothers : others.head?.all isBreak <;> simp [hlast, hothers, chompingSign]

/-- A header is read. -/
theorem readBlockHeader_eq {cursor : Cursor} {text rest : List Char}
    (hrest : cursor.rest = blockHeader text ++ '\n' :: rest) :
    readBlockHeader cursor = some (chompingOf text, if isHinted text then 2 else 0,
      cursor.advance (blockHeader text).length) := by
  obtain ⟨characters, index, line, column⟩ := cursor
  change characters = _ at hrest
  subst hrest
  rw [blockHeader_eq]
  have hdigit : Char.isDigit '\n' = false ∧ Char.isDigit '2' = true ∧ Char.isDigit '-' = false ∧
      Char.isDigit '+' = false := by decide
  generalize isHinted text = hinted
  generalize chompingOf text = chomping
  cases hinted <;> cases chomping <;>
    simp [readBlockHeader, readIncrement, readChomping, Cursor.isAt, Cursor.peek?, Cursor.skip,
      Cursor.advance, chompingSign, hdigit]

/-! ### Blocks -/

section Block

variable {columns outer : ℕ} {text rest : List Char} {cursor : Cursor}

theorem length_le_blockLinesFrom (columns : ℕ) (behindBreak : Bool) (text : List Char) :
    text.length ≤ (blockLinesFrom columns behindBreak text).length := by
  induction text generalizing behindBreak with
  | nil => exact Nat.zero_le _
  | cons character text ih =>
    rw [blockLinesFrom]
    split
    · simpa using ih true
    · have := ih false
      simp only [List.length_append, List.length_cons]
      omega

/-- Where nothing but its first line tells how far in a block is, the blanks of that line do. -/
theorem readBlockBreaks_unknown {fuel : ℕ}
    (hhead : ∀ character ∈ rest.head?, character ≠ ' ' ∧ character ≠ '\t' ∧
      isBreak character = false)
    (hrest : cursor.rest = indentation columns ++ rest) (hcolumn : cursor.column = 0) :
    readBlockBreaks 0 (fuel + 1) 0 [] cursor = some (columns, [], cursor.advance columns) := by
  have hrun : (cursor.run (· = ' ')).length = columns := by
    have hnone : rest.takeWhile (· = ' ') = [] := by
      cases rest with
      | nil => rfl
      | cons first others => simp [(hhead first rfl).1]
    rw [Cursor.run, hrest, List.takeWhile_append_of_pos fun character hmem ↦ by
      simp [List.eq_of_mem_replicate hmem], hnone, List.append_nil, Cursor.length_indentation]
  have hbehind : (cursor.advance columns).rest = rest := by
    simp [Cursor.advance, hrest, indentation]
  have htab : (cursor.advance columns).isAt '\t' = false := by
    simp only [Cursor.isAt, hbehind, decide_eq_false_iff_not]
    exact fun hsame ↦ (hhead '\t' hsame).2.1 rfl
  have hbreak : (cursor.advance columns).isAtBreak = false := by
    rw [Cursor.isAtBreak, hbehind, Option.any_eq_false]
    exact fun character hmem ↦ by simpa using (hhead character hmem).2.2
  simp only [readBlockBreaks, if_true, hrun, htab, hbreak, Bool.and_false, Bool.false_eq_true,
    if_false]
  simp [Cursor.advance, hcolumn]

/-- Line breaks at the start of a line lead to the start of a line. -/
theorem column_past_leading_breaks {breaks : List Char}
    (hbreaks : ∀ character ∈ breaks, isBreak character = true) (hcolumn : cursor.column = 0) :
    (cursor.past (breaks ++ indentation outer)).column = outer := by
  have hstart : (cursor.past breaks).column = 0 := by
    by_cases hnone : breaks = []
    · rw [hnone, Cursor.past_nil, hcolumn]
    · exact cursor.column_past_breaks hnone hbreaks
  rw [Cursor.column_past_append_indentation, hstart, Nat.zero_add]

/-- The lines of a block are read as the parts of a text, from the empty lines in front of them up
to a last place. Without a hint the blanks of the first line tell how far in the lines are. -/
def ReadsLines (columns fuel : ℕ) (text : List Char) (cursor last : Cursor) : Prop :=
  ∃ breaks next final,
    (∃ width, readBlockBreaks columns fuel 0 [] cursor = some (width, breaks, next)) ∧
    (isHinted text = false → readBlockBreaks 0 fuel 0 [] cursor = some (columns, breaks, next)) ∧
    readBlockLines false columns (next.rest.length + 1) ⟨[], [], breaks, false, next⟩ =
      some final ∧
    BlockParts (text ++ closing text) final.text final.lastBreak final.moreBreaks ∧
    final.cursor = last

/-- Empty lines have only line breaks. -/
theorem blockParts_of_breaks {breaks : List Char}
    (hbreaks : ∀ character ∈ breaks, isBreak character = true) : BlockParts breaks [] [] breaks :=
  ⟨rfl, hbreaks, by simp, fun hnot ↦ absurd rfl hnot⟩

/-- A text without a hint does not begin with a line break. -/
theorem eq_nil_of_not_hinted {breaks : List Char}
    (hbreaks : ∀ character ∈ breaks, isBreak character = true)
    (hhint : isHinted (breaks ++ text) = false) : breaks = [] := by
  by_contra hnot
  obtain ⟨first, others, rfl⟩ := List.exists_cons_of_ne_nil hnot
  have hfirst := (head?_of_not_hinted hhint first rfl).2
  rw [hbreaks first List.mem_cons_self] at hfirst
  cases hfirst

/-- Empty lines are read up to a line that is not as far in. -/
theorem readsLines_of_breaks {breaks : List Char} (hcolumns : columns ≠ 0) (hsome : breaks ≠ [])
    (hkept : ∀ character ∈ breaks, IsKeptBreak character)
    (hbegins : BeginsToken rest) (hless : outer < columns)
    (hrest : cursor.rest = breaks ++ (indentation outer ++ rest)) (hcolumn : cursor.column = 0)
    {fuel : ℕ} (hfuel : breaks.length < fuel) :
    ReadsLines columns fuel breaks cursor (cursor.past (breaks ++ indentation outer)) := by
  have hbreaks : ∀ character ∈ breaks, isBreak character = true :=
    fun character hmem ↦ (hkept character hmem).1
  have hplace : (cursor.past (breaks ++ indentation outer)).column ≠ columns := by
    rw [column_past_leading_breaks hbreaks hcolumn]
    exact hless.ne
  have hunhinted (hhint : isHinted breaks = false) : breaks = [] :=
    eq_nil_of_not_hinted hbreaks (by rwa [List.append_nil])
  have hparts : BlockParts (breaks ++ closing breaks) [] [] breaks := by
    rw [closing_breaks hsome hbreaks, List.append_nil]
    exact blockParts_of_breaks hbreaks
  exact ⟨breaks, _, _, readBlockBreaks_eq hcolumns hkept (lineStart_behind hbegins hless) hrest
    hcolumn hfuel, fun hhint ↦ absurd (hunhinted hhint) hsome, readBlockLines_stop hplace,
    hparts, rfl⟩

/-- Empty lines and the lines behind them are read up to a line that is not as far in. -/
theorem readsLines_of_lines {breaks lines : List Char} (hcolumns : columns ≠ 0)
    (hsome : lines ≠ []) (hkept : ∀ character ∈ breaks, IsKeptBreak character)
    (hhead : ∀ character ∈ lines.head?, isBreak character = false)
    (hstands : ∀ character ∈ lines, standsForItself character = true)
    (hbegins : BeginsToken rest) (hless : outer < columns)
    (hrest : cursor.rest = breaks ++ (indentation columns ++ (blockLinesFrom columns false lines ++
      (closing lines ++ (indentation outer ++ rest)))))
    (hcolumn : cursor.column = 0) {fuel : ℕ} (hfuel : breaks.length < fuel) :
    ReadsLines columns fuel (breaks ++ lines) cursor
      (cursor.past (breaks ++ (indentation columns ++ (blockLinesFrom columns false lines ++
        (closing lines ++ indentation outer))))) := by
  have hbreaks : ∀ character ∈ breaks, isBreak character = true :=
    fun character hmem ↦ (hkept character hmem).1
  have hnext : (cursor.past (breaks ++ indentation columns)).rest =
      blockLinesFrom columns false lines ++ (closing lines ++ (indentation outer ++ rest)) :=
    Cursor.rest_past_of_eq (by simpa using hrest)
  have hlessLines : lines.length <
      (cursor.past (breaks ++ indentation columns)).rest.length + 1 := by
    have := length_le_blockLinesFrom columns false lines
    rw [hnext, List.length_append]
    omega
  obtain ⟨final, hread, hfinal, hbehind⟩ := readBlockLines_eq false hcolumns hsome hhead hstands
    hbegins hless hnext (column_past_leading_breaks hbreaks hcolumn)
    (blockParts_of_breaks hbreaks) hlessLines
  refine ⟨breaks, _, final, readBlockBreaks_eq hcolumns hkept
    (lineStart_blockLinesFrom hsome hhead) hrest hcolumn hfuel, fun hhint ↦ ?_, hread, ?_, ?_⟩
  · obtain ⟨fuel, rfl⟩ : ∃ less, fuel = less + 1 := ⟨fuel - 1, by omega⟩
    obtain rfl := eq_nil_of_not_hinted hbreaks hhint
    rw [List.nil_append, Cursor.past_indentation]
    refine readBlockBreaks_unknown (fun character hmem ↦ ?_) hrest hcolumn
    rw [head?_blockLinesFrom hsome hhead] at hmem
    obtain ⟨hblank, hbreak⟩ := head?_of_not_hinted hhint character hmem
    refine ⟨hblank, ?_, hbreak⟩
    rintro rfl
    exact absurd (hstands '\t' (List.mem_of_head? hmem)) (by decide)
  · rw [closing_append breaks hsome]
    simpa using hfinal
  · rw [hbehind, ← Cursor.past_append]
    simp

/-- The lines of a block are read from the empty lines in front of them on. -/
theorem readsLines_blockLines (hcolumns : columns ≠ 0) (hsome : text ≠ [])
    (hstands : ∀ character ∈ text, standsForItself character = true)
    (hbegins : BeginsToken rest) (hless : outer < columns)
    (hrest : cursor.rest =
      blockLinesFrom columns true text ++ (closing text ++ (indentation outer ++ rest)))
    (hcolumn : cursor.column = 0) {fuel : ℕ} (hfuel : text.length < fuel) :
    ReadsLines columns fuel text cursor
      (cursor.past (blockLinesFrom columns true text ++ (closing text ++ indentation outer))) := by
  obtain ⟨breaks, lines, rfl, hbreaks, hhead⟩ := exists_leading isBreak text
  obtain ⟨hbreaksStand, hlinesStand⟩ := List.forall_mem_append.mp hstands
  have hkept : ∀ character ∈ breaks, IsKeptBreak character :=
    fun character hmem ↦ ⟨hbreaks character hmem, hbreaksStand character hmem⟩
  have hfuelBreaks : breaks.length < fuel := by
    rw [List.length_append] at hfuel
    omega
  rw [blockLinesFrom_breaks hbreaks] at hrest ⊢
  by_cases hnone : lines = []
  · subst hnone
    rw [List.append_nil] at hsome hrest ⊢
    rw [closing_breaks hsome hbreaks] at hrest ⊢
    simp only [blockLinesFrom, List.append_nil, List.nil_append] at hrest ⊢
    exact readsLines_of_breaks hcolumns hsome hkept hbegins hless hrest hcolumn hfuelBreaks
  · rw [closing_append breaks hnone, blockLinesFrom_true hnone hhead] at hrest ⊢
    simp only [List.append_assoc] at hrest ⊢
    exact readsLines_of_lines hcolumns hnone hkept hhead hlinesStand hbegins hless hrest hcolumn
      hfuelBreaks

/-- A text that is written as a block is read up to a line that is not as far in. -/
theorem readBlock_eq {parent : ℤ} (hparent : parent + 2 = columns) (hinside : 0 ≤ parent)
    (hsome : text ≠ []) (hstands : ∀ character ∈ text, standsForItself character = true)
    (hbegins : BeginsToken rest) (hless : outer < columns)
    (hrest : cursor.rest = '|' :: (blockHeader text ++ '\n' ::
      (blockLinesFrom columns true text ++ (closing text ++ (indentation outer ++ rest))))) :
    readBlock false parent cursor = some (text, cursor.past ('|' :: (blockHeader text ++ '\n' ::
      (blockLinesFrom columns true text ++ (closing text ++ indentation outer))))) := by
  have hskip : cursor.skip.rest = blockHeader text ++ '\n' ::
      (blockLinesFrom columns true text ++ (closing text ++ (indentation outer ++ rest))) := by
    simp [Cursor.skip, Cursor.advance, hrest]
  have hheaderLine : ∀ character ∈ '|' :: blockHeader text, isBreak character = false := by
    rw [blockHeader_eq]
    cases isHinted text <;> cases chompingOf text <;> simp [chompingSign, isBreak]
  generalize hbehind : cursor.skip.advance (blockHeader text).length = behind
  have hbehindPast : cursor.past ('|' :: blockHeader text) = behind := by
    rw [cursor.past_eq_advance hheaderLine, ← hbehind, Cursor.skip, Cursor.advance_advance,
      List.length_cons, Nat.add_comm]
  have hrestHeader : behind.rest = '\n' ::
      (blockLinesFrom columns true text ++ (closing text ++ (indentation outer ++ rest))) := by
    rw [← hbehindPast]
    exact Cursor.rest_past_of_eq (by simpa using hrest)
  have hspaces : (behind.skipWhile isSpace).skipComment = behind := by
    have hspace : isSpace '\n' = false := by decide
    simp [Cursor.skipWhile, Cursor.skipComment, Cursor.isAt, hrestHeader, hspace]
  have hend : behind.isAtLineEnd = true := by
    have hfeed : isBreak '\n' = true := by decide
    simp [Cursor.isAtLineEnd, Cursor.isAtBreak, hrestHeader, hfeed]
  have hnewLine : behind.skipBreak = behind.newLine := Cursor.skipBreak_eq hrestHeader (by decide)
  have hrestLines : behind.newLine.rest =
      blockLinesFrom columns true text ++ (closing text ++ (indentation outer ++ rest)) := by
    simp [Cursor.newLine, hrestHeader]
  have hfuel : text.length < behind.newLine.rest.length + 1 := by
    have := length_le_blockLinesFrom columns true text
    rw [hrestLines, List.length_append]
    omega
  obtain ⟨breaks, next, final, ⟨width, hknown⟩, hunknown, hread, hparts, hfinal⟩ :=
    readsLines_blockLines (by omega) hsome hstands hbegins hless hrestLines rfl hfuel
  have hplace : cursor.past ('|' :: (blockHeader text ++ '\n' ::
      (blockLinesFrom columns true text ++ (closing text ++ indentation outer)))) =
        final.cursor := by
    rw [hfinal, ← List.cons_append, Cursor.past_append, hbehindPast, Cursor.past,
      if_pos (by decide)]
  have htext := hparts.chomp_eq hsome
  rw [hplace]
  have hindent : (max parent 0 + 2).toNat = columns := by omega
  have hwidest : (max (columns : ℤ) (max (parent + 1) 1)).toNat = columns := by omega
  simp only [readBlock, readBlockHeader_eq hskip, Option.bind_eq_bind, Option.bind_some, hbehind,
    hspaces, hend, hnewLine]
  cases hhint : isHinted text with
  | true =>
    cases hchomp : chompingOf text <;>
      simpa [hindent, hknown, hread, hchomp, chomp] using htext
  | false =>
    cases hchomp : chompingOf text <;>
      simpa [hunknown hhint, hwidest, hread, hchomp, chomp] using htext

end Block

end Roster.Yaml
