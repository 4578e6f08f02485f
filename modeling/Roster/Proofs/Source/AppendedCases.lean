import Roster.Proofs.Source.LiteralCases

/-!
# A case behind a file

A case with a literal is written as one more line of a file (`literalCall`). The lines before it are
not touched, so that they declare what they did. The new line declares a test in the suite that the
file ends in, unless it opens a block comment: a description with an opening marker hides its own
line. Two slashes in a description would cut the line off, and are excluded
(`declarationsOf_append_literalCall`).

Two quotes stand on the new line, those of its description. They are too few for a suite line, where
two more of them stand behind the call.
-/

set_option autoImplicit false
set_option relaxedAutoImplicit false

namespace Roster

/-! ### Lines and markers -/

namespace Text

/-- There is one piece more than there are separators. -/
theorem length_splitOn (separator : Char) (text : List Char) :
    (splitOn separator text).length = text.count separator + 1 := by
  induction text with
  | nil => rfl
  | cons character rest ih =>
    rw [splitOn]
    split
    · next hsame => rw [List.length_cons, ih, hsame, List.count_cons_self]
    · next hother =>
      rw [List.count_cons_of_ne hother, ← ih]
      split
      · next hnothing => exact absurd hnothing (splitOn_ne_nil separator rest)
      · next hsplit => rw [hsplit]; rfl

/-- Two characters that stand side by side do so on one side of a third one. -/
theorem pair_infix_append_cons_iff {first second separator : Char} (hfirst : first ≠ separator)
    (hsecond : second ≠ separator) {front back : List Char} :
    [first, second] <:+: front ++ separator :: back ↔
      [first, second] <:+: front ∨ [first, second] <:+: back := by
  induction front with
  | nil => simp [List.infix_cons_iff, List.cons_prefix_cons, hfirst]
  | cons character rest ih =>
    have hstart : [first, second] <+: character :: (rest ++ separator :: back) ↔
        [first, second] <+: character :: rest := by
      cases rest <;> simp [List.cons_prefix_cons, hsecond]
    rw [List.cons_append, List.infix_cons_iff, hstart, ih, ← or_assoc, ← List.infix_cons_iff]

end Text

namespace Source

/-- A line with a case whose description is a literal. -/
def literalCall (description : String) : String :=
  "It(\"" ++ description ++ "\", func() \x7b"

variable {description : List Char}

/-- The parts of the line of a case before, between and behind its quotes. -/
theorem caseLine_inQuotes (description : List Char) :
    caseLine (inQuotes description) =
      "It(".toList ++ '"' :: (description ++ '"' :: ", func() \x7b".toList) := by
  rw [caseLine, List.append_assoc, inQuotes_append]

theorem toList_literalCall (description : String) :
    (literalCall description).toList = caseLine (inQuotes description.toList) := by
  have hopening : "It(\"".toList = "It(".toList ++ ['"'] := by decide
  have hclosing : "\", func() \x7b".toList = '"' :: ", func() \x7b".toList := by decide
  rw [caseLine_inQuotes, literalCall, String.toList_append, String.toList_append, hopening,
    hclosing, List.append_assoc, List.append_assoc, List.singleton_append]

/-- Nothing is trimmed off the line of a case. -/
theorem trim_caseLine (description : List Char) :
    Text.trim (caseLine description) = caseLine description := by
  have hfirst : Text.isBlank 'I' = false := by decide
  have hlast : Text.isBlank '\x7b' = false := by decide
  have hstart : Text.trimStart (caseLine description) = caseLine description :=
    Text.trimStart_cons_of_not_blank _ hfirst
  have hend : caseLine description =
      "It(".toList ++ description ++ ", func() ".toList ++ ['\x7b'] := by
    rw [List.append_assoc _ ", func() ".toList]
    rfl
  rw [Text.trim, hstart, hend, Text.trimEnd, List.reverse_concat, List.dropWhile_cons, hlast,
    if_neg Bool.false_ne_true, List.reverse_cons, List.reverse_reverse]

/-- Only the description can bring markers of comments into the line of a case. -/
theorem pair_infix_caseLine_iff {second : Char} (hsecond : second ≠ '"') :
    ['/', second] <:+: caseLine (inQuotes description) ↔ ['/', second] <:+: description := by
  have hfirst : '/' ≠ '"' := by decide
  have hopening : ¬ ['/', second] <:+: "It(".toList := fun hpair ↦
    absurd (hpair.subset List.mem_cons_self) (by decide)
  have hclosing : ¬ ['/', second] <:+: ", func() \x7b".toList := fun hpair ↦
    absurd (hpair.subset List.mem_cons_self) (by decide)
  rw [caseLine_inQuotes, Text.pair_infix_append_cons_iff hfirst hsecond,
    Text.pair_infix_append_cons_iff hfirst hsecond, or_iff_right hopening, or_iff_left hclosing]

/-- The patterns of a suite line up to its description. -/
def suitePatterns : List Pattern :=
  [anything, .one (.only '='), packageStart, Pattern.literal "Describe", Pattern.spaces,
    .one (.only '('), Pattern.spaces]

theorem body_describe : describe.body =
    Pattern.inTurn (suitePatterns ++ quotedGroup "desc" :: argumentPatterns) := rfl

/-- A suite line has an assignment before its description in quotes. -/
theorem exists_assignment_of_describe {text : List Char} {found : LineMatch}
    (hfound : describe.first text = some found) :
    ∃ front body behind, text = front ++ inQuotes body ++ behind ∧ '=' ∈ front := by
  rw [LinePattern.first_eq_here rfl, LinePattern.here, body_describe,
    Pattern.first_inTurn_append] at hfound
  have hfront := Pattern.Spells.cons (.run .any) (.cons (.one '=') (.cons spells_packageStart
    (.cons (.exactly "Describe".toList) (.cons spells_spaces (.cons (.one '(')
      (.cons spells_spaces .nil))))))
  obtain ⟨front, _, ⟨before, _, -, ⟨_, _, rfl, -, rfl⟩, hsplit⟩, rfl, hrest⟩ :=
    hfront.exists_of_first hfound
  rw [Pattern.first_inTurn_cons] at hrest
  obtain ⟨body, behind, rfl, -, -⟩ := exists_longest_of_quotedGroup hrest
  exact ⟨front, body, behind, (List.append_assoc ..).symm, by simp [hsplit]⟩

/-- The line of a case without more quotes has one text in quotes, its description. -/
theorem inQuotes_eq_of_caseLine {front body behind : List Char} (hquote : '"' ∉ description)
    (hsplit : caseLine (inQuotes description) = front ++ inQuotes body ++ behind) :
    front = "It(".toList ∧ body = description := by
  rw [caseLine_inQuotes, List.append_assoc, inQuotes_append] at hsplit
  have hopening : '"' ∉ "It(".toList := by decide
  have hclosing : '"' ∉ ", func() \x7b".toList := by decide
  -- There are two quotes on the line, so that none is left for the other parts.
  have hcount := congrArg (List.count '"') hsplit
  simp only [List.count_append, List.count_cons_self, List.count_eq_zero.mpr hquote,
    List.count_eq_zero.mpr hopening, List.count_eq_zero.mpr hclosing] at hcount
  have hfront : '"' ∉ front := List.count_eq_zero.mp (by omega)
  have hbody : '"' ∉ body := List.count_eq_zero.mp (by omega)
  obtain ⟨hstart, hrest⟩ := append_quote_inj hopening hfront hsplit
  exact ⟨hstart.symm, (append_quote_inj hquote hbody hrest).1.symm⟩

/-- A line of a case without more quotes is no suite line. -/
theorem describe_caseLine (hquote : '"' ∉ description) :
    describe.first (caseLine (inQuotes description)) = none := by
  by_contra hsome
  obtain ⟨found, hfound⟩ := Option.ne_none_iff_exists'.mp hsome
  obtain ⟨front, body, behind, hsplit, hassigned⟩ := exists_assignment_of_describe hfound
  obtain ⟨rfl, -⟩ := inQuotes_eq_of_caseLine hquote hsplit
  exact absurd hassigned (by decide)

theorem isCaseText_caseLine (hquote : '"' ∉ description) :
    IsCaseText (caseLine (inQuotes description)) description := by
  refine ⟨described_caseLine _, fun other hother ↦ ?_⟩
  obtain ⟨opening, argument, rest, -, -, hsplit⟩ := hother
  rw [List.append_assoc _ argument] at hsplit
  rw [(inQuotes_eq_of_caseLine hquote hsplit).2]

/-- Without two slashes in its description, the line of a case stays as it is. -/
theorem withoutComment_caseLine (hslashes : ¬ ['/', '/'] <:+: description) :
    withoutComment (caseLine (inQuotes description)) = caseLine (inQuotes description) := by
  rw [withoutComment_eq_trim, trim_caseLine]
  exact fun hpair ↦ hslashes ((pair_infix_caseLine_iff (by decide)).mp hpair)

/-- The line of a case opens a block comment when its description has the marker. -/
theorem opensComment_caseLine_iff :
    opensComment (caseLine (inQuotes description)) = true ↔ ['/', '*'] <:+: description := by
  rw [opensComment, Text.occursIn_iff]
  exact pair_infix_caseLine_iff (by decide)

/-- What the line of a case declares to a scanner outside comments. -/
theorem declarationOn_caseLine {file : Path} {classname : String} {scanner : Scanner} {number : Nat}
    (houtside : scanner.inside = false) (hquote : '"' ∉ description) (hline : '\n' ∉ description) :
    scanner.declarationOn file classname ⟨number, caseLine (inQuotes description)⟩ =
      if opensComment (caseLine (inQuotes description)) then none
      else some (.test
        (definitionKey classname (String.ofList scanner.suite) (String.ofList description))
        ⟨file, number, String.ofList (caseLine (inQuotes description))⟩) := by
  have hclean : '\n' ∉ caseLine (inQuotes description) := by
    simp [caseLine_inQuotes, hline]
  obtain ⟨found, hfound, hcase⟩ :=
    (exists_capture_iff_isCaseText hclean).mpr (isCaseText_caseLine hquote)
  have hdeclared : Source.declarationOn file classname
      (suiteFrom scanner.suite (caseLine (inQuotes description)))
      ⟨number, caseLine (inQuotes description)⟩ = some (.test
        (definitionKey classname (String.ofList scanner.suite) (String.ofList description))
        ⟨file, number, String.ofList (caseLine (inQuotes description))⟩) := by
    simp only [Source.declarationOn, suiteFrom, describe_caseLine hquote, Option.bind_none,
      Option.getD_none, hfound, Option.bind_some, hcase]
  rw [Scanner.declarationOn, Scanner.skips, houtside, Bool.false_or, hdeclared]

/-! ### A file with one more line -/

/-- The lines of a file whose last line is complete, and those of the file when it goes on. -/
theorem exists_lines_of_complete {content : String}
    (hcomplete : content = "" ∨ content.toList.getLast? = some '\n') :
    ∃ earlier, writtenLines content = earlier ++ [[]] ∧
      earlier.length = content.toList.count '\n' ∧
      ∀ more, writtenLines (content ++ more) = earlier ++ Text.splitOn '\n' more.toList := by
  rcases hcomplete with rfl | hlast
  · exact ⟨[], rfl, rfl, fun more ↦ by rw [writtenLines, String.empty_append]; rfl⟩
  · obtain ⟨front, hfront⟩ := List.getLast?_eq_some_iff.mp hlast
    have hsplit (behind : List Char) : Text.splitOn '\n' (front ++ '\n' :: behind) =
        Text.splitOn '\n' front ++ Text.splitOn '\n' behind := by
      simp only [Text.splitOn_eq_listSplitOn, List.splitOn_append_cons_self]
    refine ⟨Text.splitOn '\n' front, ?_, ?_, fun more ↦ ?_⟩
    · rw [writtenLines, hfront, hsplit]
      rfl
    · rw [Text.length_splitOn, hfront, List.count_append, List.count_singleton_self]
    · rw [writtenLines, String.toList_append, hfront, List.append_assoc, List.singleton_append,
        hsplit]

/-- The lines of a file with a case behind it: those before it, and the case. -/
theorem declarationsOf_eq_scan_concat {content description ending : String}
    {earlier : List (List Char)}
    (hmore : ∀ more, writtenLines (content ++ more) = earlier ++ Text.splitOn '\n' more.toList)
    (hline : '\n' ∉ description.toList) (hending : ending = "" ∨ ending = "\n") (file : Path)
    (classname : String) :
    declarationsOf (content ++ literalCall description ++ ending) file classname =
      Scanner.start.scan file classname 1
        ((earlier ++ [caseLine (inQuotes description.toList)]).map withoutComment) := by
  have hclean : '\n' ∉ caseLine (inQuotes description.toList) := by
    simp [caseLine_inQuotes, hline]
  rw [declarationsOf_eq_scan, lineTexts, String.append_assoc, hmore, String.toList_append,
    toList_literalCall, Text.splitOn_eq_listSplitOn]
  rcases hending with rfl | rfl
  · rw [String.toList_empty, List.append_nil, List.splitOn_eq_singleton hclean]
  · have hbreak : "\n".toList = ['\n'] := rfl
    have hempty : withoutComment [] = [] := rfl
    rw [hbreak, List.splitOn_append_cons_self, List.splitOn_eq_singleton hclean, List.splitOn_nil,
      ← List.append_assoc, List.map_append, List.map_singleton, hempty, Scanner.scan_concat_empty]

/-- Let a case with a literal be written behind a file that ends with a complete line, outside block
comments, and let there be no line break, no quote and no two slashes in its description. The file
then declares what it did and, behind that, a test in the suite that it ends in. With the marker of
a block comment in its description the case declares nothing. -/
theorem declarationsOf_append_literalCall {content description ending : String} {suite : List Char}
    (hcomplete : content = "" ∨ content.toList.getLast? = some '\n')
    (houtside : ¬ IsInside (lineTexts content) (content.toList.count '\n'))
    (hsuite : IsSuite (lineTexts content) (content.toList.count '\n') suite)
    (hquote : '"' ∉ description.toList) (hline : '\n' ∉ description.toList)
    (hslashes : ¬ "//".toList <:+: description.toList) (hending : ending = "" ∨ ending = "\n")
    (file : Path) (classname : String) :
    (¬ "/*".toList <:+: description.toList →
      declarationsOf (content ++ literalCall description ++ ending) file classname =
        declarationsOf content file classname ++
          [.test (definitionKey classname (String.ofList suite) description)
            ⟨file, content.toList.count '\n' + 1, literalCall description⟩]) ∧
    ("/*".toList <:+: description.toList →
      declarationsOf (content ++ literalCall description ++ ending) file classname =
        declarationsOf content file classname) := by
  obtain ⟨earlier, hlines, hlength, hmore⟩ := exists_lines_of_complete hcomplete
  have htexts : lineTexts content = earlier.map withoutComment ++ [[]] := by
    rw [lineTexts, hlines, List.map_append]
    rfl
  have hscanner : scannerAt (lineTexts content) (content.toList.count '\n') =
      Scanner.start.readAll (earlier.map withoutComment) := by
    rw [scannerAt, htexts, ← hlength, ← List.length_map withoutComment, List.take_left]
  have hinside : (Scanner.start.readAll (earlier.map withoutComment)).inside = false := by
    rw [← hscanner, Bool.eq_false_iff, Ne, inside_scannerAt_iff]
    exact houtside
  have hnamed : (Scanner.start.readAll (earlier.map withoutComment)).suite = suite := by
    rw [← hscanner]
    exact (isSuite_scannerAt _ _).unique hsuite
  have hbefore : declarationsOf content file classname =
      Scanner.start.scan file classname 1 (earlier.map withoutComment) := by
    rw [declarationsOf_eq_scan, htexts, Scanner.scan_concat_empty]
  have hbehind : declarationsOf (content ++ literalCall description ++ ending) file classname =
      declarationsOf content file classname ++
        ((Scanner.start.readAll (earlier.map withoutComment)).declarationOn file classname
          ⟨content.toList.count '\n' + 1, caseLine (inQuotes description.toList)⟩).toList := by
    rw [declarationsOf_eq_scan_concat hmore hline hending, List.map_append, List.map_singleton,
      withoutComment_caseLine hslashes, Scanner.scan_append, Scanner.scan_cons, Scanner.scan_nil,
      List.append_nil, List.length_map, hlength, Nat.add_comm 1, hbefore]
  have hopens : opensComment (literalCall description).toList = true ↔
      "/*".toList <:+: description.toList := by
    rw [toList_literalCall]
    exact opensComment_caseLine_iff
  rw [hbehind, declarationOn_caseLine hinside hquote hline, hnamed, ← toList_literalCall,
    String.ofList_toList, String.ofList_toList]
  constructor
  · intro hnone
    rw [if_neg (hopens.not.mpr hnone), Option.toList_some]
  · intro hmarker
    rw [if_pos (hopens.mpr hmarker), Option.toList_none, List.append_nil]

/-! ### A marker in a description -/

/-- A file of one line, which opens a suite. -/
def suiteSource : String := "var _ = Describe(\"IO\", func() \x7b\n"

/-- The suite is open behind the line, and no comment is. -/
theorem scannerAt_suiteSource :
    scannerAt (lineTexts suiteSource) 1 = ⟨false, "IO".toList⟩ := by
  decide +kernel

/-- A case is appended to the suite. With the marker of a block comment in its description it is
lost. -/
theorem declarationsOf_append_literalCall_suiteSource :
    declarationsOf (suiteSource ++ literalCall "reads a\\b" ++ "\n") ⟨"a.go"⟩ "c" =
      declarationsOf suiteSource ⟨"a.go"⟩ "c" ++
        [.test "c.IO reads ab" ⟨⟨"a.go"⟩, 2, literalCall "reads a\\b"⟩] ∧
    declarationsOf (suiteSource ++ literalCall "see /* here" ++ "") ⟨"a.go"⟩ "c" =
      declarationsOf suiteSource ⟨"a.go"⟩ "c" := by
  have hcomplete : suiteSource = "" ∨ suiteSource.toList.getLast? = some '\n' :=
    .inr (by decide +kernel)
  have hcount : suiteSource.toList.count '\n' = 1 := by decide +kernel
  have houtside : ¬ IsInside (lineTexts suiteSource) (suiteSource.toList.count '\n') := by
    rw [← inside_scannerAt_iff, hcount, scannerAt_suiteSource]
    exact Bool.false_ne_true
  have hsuite : IsSuite (lineTexts suiteSource) (suiteSource.toList.count '\n') "IO".toList := by
    have hnamed := isSuite_scannerAt (lineTexts suiteSource) 1
    rwa [scannerAt_suiteSource, ← hcount] at hnamed
  have hkey : definitionKey "c" (String.ofList "IO".toList) "reads a\\b" = "c.IO reads ab" := by
    decide +kernel
  constructor
  · obtain ⟨hkept, -⟩ := declarationsOf_append_literalCall hcomplete houtside hsuite
      (by decide +kernel : '"' ∉ "reads a\\b".toList) (by decide +kernel) (by decide +kernel)
      (.inr rfl) ⟨"a.go"⟩ "c"
    rw [hkept (by decide +kernel), hkey, hcount]
  · obtain ⟨-, hlost⟩ := declarationsOf_append_literalCall hcomplete houtside hsuite
      (by decide +kernel : '"' ∉ "see /* here".toList) (by decide +kernel) (by decide +kernel)
      (.inl rfl) ⟨"a.go"⟩ "c"
    exact hlost (by decide +kernel)

/-- So a case with a literal behind a file does not always declare a test. -/
theorem not_forall_declarationsOf_append :
    ¬ ∀ (content description : String) (suite : List Char) (file : Path) (classname : String),
      content.toList.getLast? = some '\n' →
      ¬ IsInside (lineTexts content) (content.toList.count '\n') →
      IsSuite (lineTexts content) (content.toList.count '\n') suite →
      '"' ∉ description.toList → '\\' ∉ description.toList → '\n' ∉ description.toList →
      declarationsOf (content ++ literalCall description ++ "\n") file classname =
        declarationsOf content file classname ++
          [.test (definitionKey classname (String.ofList suite) description)
            ⟨file, content.toList.count '\n' + 1, literalCall description⟩] := by
  intro hall
  have hscanner : scannerAt (lineTexts "\n") ("\n".toList.count '\n') = ⟨false, []⟩ := by
    decide +kernel
  have houtside : ¬ IsInside (lineTexts "\n") ("\n".toList.count '\n') := by
    rw [← inside_scannerAt_iff, hscanner]
    exact Bool.false_ne_true
  have hsuite : IsSuite (lineTexts "\n") ("\n".toList.count '\n') [] := by
    have hnamed := isSuite_scannerAt (lineTexts "\n") ("\n".toList.count '\n')
    rwa [hscanner] at hnamed
  have hdeclared := hall "\n" "see /* here" [] ⟨"a.go"⟩ "c" rfl houtside hsuite (by decide +kernel)
    (by decide +kernel) (by decide +kernel)
  have hnone : declarationsOf ("\n" ++ literalCall "see /* here" ++ "\n") ⟨"a.go"⟩ "c" = [] := by
    decide +kernel
  rw [hnone] at hdeclared
  exact List.append_ne_nil_of_right_ne_nil _ (List.cons_ne_nil _ _) hdeclared.symm

end Source

end Roster
