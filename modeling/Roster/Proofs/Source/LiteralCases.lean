import Roster.Proofs.Source.CaseLines

/-!
# Cases with a literal

A case is recorded as a test when its description can be read as a text in quotes, and then with the
longest such text. Every other line with a description is reported as unresolved.
`declarationsOf_described` says this of a file. The description is a literal unless a quote stands
bare in it, as in a sum of two literals, whose outer quotes are taken for those of one literal.

Two patterns find these lines, and each line that the one for cases with a literal finds is found by
the one for any case (`declarationsOf_iff_matchesLine`). This is true of lines, which have no line
feeds, and not of all texts.
-/

set_option autoImplicit false
set_option relaxedAutoImplicit false

namespace Roster

namespace Source

variable {texts : List (List Char)} {content : String} {file : Path} {classname : String}
variable {index : Nat}

/-! ### One declaration for a line -/

/-- There is one suite behind the first lines of a file. -/
theorem IsSuite.unique {count : Nat} {first second : List Char} (hfirst : IsSuite texts count first)
    (hsecond : IsSuite texts count second) : first = second := by
  cases hfirst with
  | unnamed hnone =>
    cases hsecond with
    | unnamed => rfl
    | named hcount hlive hfound =>
      rw [hnone _ hcount hlive] at hfound
      cases hfound
  | @named index found _ hcount hlive hfound hsuite hlater =>
    cases hsecond with
    | unnamed hnone =>
      rw [hnone _ hcount hlive] at hfound
      cases hfound
    | @named other again _ hother hotherLive hagain hotherSuite hotherLater =>
      rcases Nat.lt_trichotomy index other with hlt | rfl | hlt
      · rw [hlater other hlt hother hotherLive] at hagain
        cases hagain
      · rw [hfound] at hagain
        cases hagain
        exact Option.some.inj (hsuite.symm.trans hotherSuite)
      · rw [hotherLater index hlt hcount hlive] at hfound
        cases hfound

/-- A line makes one declaration. -/
theorem DeclaredAt.unique {first second : Declaration}
    (hfirst : DeclaredAt texts file classname index first)
    (hsecond : DeclaredAt texts file classname index second) : first = second := by
  cases hfirst with
  | test hfound hcase hsuite =>
    cases hsecond with
    | test hagain hother hsame =>
      rw [hfound] at hagain
      cases hagain
      rw [Option.some.inj (hcase.symm.trans hother), hsuite.unique hsame]
    | unresolved hliteral =>
      rw [LinePattern.matchesLine, hfound] at hliteral
      cases hliteral
  | unresolved hliteral =>
    cases hsecond with
    | test hfound =>
      rw [LinePattern.matchesLine, hfound] at hliteral
      cases hliteral
    | unresolved => rfl

/-- The declarations of a file are those of its lines that are not skipped. -/
theorem mem_declarationsOf_iff_declaredAt {declaration : Declaration} :
    declaration ∈ declarationsOf content file classname ↔
      ∃ index, ¬ IsSkipped (lineTexts content) index ∧
        DeclaredAt (lineTexts content) file classname index declaration := by
  rw [mem_declarationsOf_iff]
  refine exists_congr fun index ↦ ⟨declaredAt_of_declarationOn, ?_⟩
  rintro ⟨hlive, hdeclared⟩
  obtain ⟨other, hmade⟩ := exists_declarationOn hlive hdeclared.looksLikeCase
  rw [hmade, hdeclared.unique (declaredAt_of_declarationOn hmade).2]

/-! ### Tests and unresolved cases -/

/-- What is left of the lines has no line feed either. -/
theorem lineFeed_not_mem_lineAt (content : String) (index : Nat) :
    '\n' ∉ lineAt (lineTexts content) index := by
  rw [lineAt_lineTexts]
  have hwritten := lineFeed_not_mem_writtenLine content index
  exact fun hmem ↦ hwritten ((isInfix_withoutComment hwritten).subset hmem)

/-- The place of a line. -/
def placeOf (content : String) (file : Path) (index : Nat) : SourceLocation :=
  ⟨file, index + 1, String.ofList (lineAt (lineTexts content) index)⟩

/-- On a line outside comments, a description in quotes makes a test of the longest such text, in
the suite of the line. -/
theorem test_mem_declarationsOf_iff {key : String} {location : SourceLocation} :
    .test key location ∈ declarationsOf content file classname ↔
      ∃ index suite case, ¬ IsSkipped (lineTexts content) index ∧
        location = placeOf content file index ∧ IsSuite (lineTexts content) (index + 1) suite ∧
        IsCaseText (lineAt (lineTexts content) index) case ∧
        key = definitionKey classname (String.ofList suite) (String.ofList case) := by
  rw [mem_declarationsOf_iff_declaredAt]
  refine exists_congr fun index ↦ ?_
  have hline := lineFeed_not_mem_lineAt content index
  constructor
  · rintro ⟨hlive, hdeclared⟩
    cases hdeclared with
    | @test found suite case hfound hcase hsuite =>
      have htext := (exists_capture_iff_isCaseText hline).mp ⟨found, hfound, hcase⟩
      exact ⟨suite, case, hlive, rfl, hsuite, htext, rfl⟩
  · rintro ⟨suite, case, hlive, rfl, hsuite, htext, rfl⟩
    obtain ⟨found, hfound, hcase⟩ := (exists_capture_iff_isCaseText hline).mpr htext
    exact ⟨hlive, .test hfound hcase hsuite⟩

/-- The places of the unresolved declarations of a file are those of its cases outside comments that
have no literal. -/
theorem unresolved_mem_iff_not_literalCase {location : SourceLocation} :
    .unresolved location ∈ declarationsOf content file classname ↔
      ∃ index, location = placeOf content file index ∧ ¬ IsSkipped (lineTexts content) index ∧
        anyCase.matchesLine (lineAt (lineTexts content) index) = true ∧
        literalCase.matchesLine (lineAt (lineTexts content) index) = false := by
  rw [mem_declarationsOf_iff_declaredAt]
  refine exists_congr fun index ↦ ?_
  constructor
  · rintro ⟨hlive, hdeclared⟩
    cases hdeclared with
    | unresolved hliteral hany => exact ⟨rfl, hlive, hany, hliteral⟩
  · rintro ⟨rfl, hlive, hany, hliteral⟩
    exact ⟨hlive, .unresolved hliteral hany⟩

/-- On a line outside comments, a description that is not in quotes is reported. -/
theorem unresolved_mem_declarationsOf_iff {location : SourceLocation} :
    .unresolved location ∈ declarationsOf content file classname ↔
      ∃ index, ¬ IsSkipped (lineTexts content) index ∧ location = placeOf content file index ∧
        (∃ description, Described (lineAt (lineTexts content) index) description) ∧
        ∀ body, ¬ Described (lineAt (lineTexts content) index) (inQuotes body) := by
  rw [unresolved_mem_iff_not_literalCase]
  refine exists_congr fun index ↦ ?_
  have hline := lineFeed_not_mem_lineAt content index
  rw [← not_exists, ← matchesLine_literalCase_iff hline, ← matchesLine_anyCase_iff hline,
    Bool.not_eq_true]
  exact and_left_comm

/-- A case outside comments is a test when its description can be read as a text in quotes, and it
is the longest such text that gives the test its name; otherwise it is reported. This text is a
literal unless a quote stands bare in some description in quotes on the line. -/
theorem declarationsOf_described (content : String) (file : Path) (classname : String) :
    (∀ key location, .test key location ∈ declarationsOf content file classname ↔
      ∃ index suite case, ¬ IsSkipped (lineTexts content) index ∧
        location = placeOf content file index ∧ IsSuite (lineTexts content) (index + 1) suite ∧
        IsCaseText (lineAt (lineTexts content) index) case ∧
        key = definitionKey classname (String.ofList suite) (String.ofList case)) ∧
    (∀ location, .unresolved location ∈ declarationsOf content file classname ↔
      ∃ index, ¬ IsSkipped (lineTexts content) index ∧ location = placeOf content file index ∧
        (∃ description, Described (lineAt (lineTexts content) index) description) ∧
        ∀ body, ¬ Described (lineAt (lineTexts content) index) (inQuotes body)) ∧
    ∀ text case, IsCaseText text case →
      (hasBareQuote case = false ↔
        ∀ other, Described text (inQuotes other) → hasBareQuote other = false) :=
  ⟨fun _ _ ↦ test_mem_declarationsOf_iff, fun _ ↦ unresolved_mem_declarationsOf_iff,
    fun _ _ hcase ↦ hcase.hasBareQuote_eq_false_iff⟩

/-! ### Cases with a literal among all cases -/

/-- A line that is a case with a literal is a case. -/
theorem matchesLine_anyCase_of_literalCase {text : List Char} (hline : '\n' ∉ text)
    (hliteral : literalCase.matchesLine text = true) : anyCase.matchesLine text = true := by
  obtain ⟨body, hdescribed⟩ := (matchesLine_literalCase_iff hline).mp hliteral
  exact (matchesLine_anyCase_iff hline).mpr ⟨inQuotes body, hdescribed⟩

/-- Without line feeds, what looks like a case is a case. -/
theorem looksLikeCase_iff {text : List Char} (hline : '\n' ∉ text) :
    LooksLikeCase text ↔ anyCase.matchesLine text = true :=
  ⟨fun hcase ↦ hcase.elim (matchesLine_anyCase_of_literalCase hline) id, .inr⟩

/-- A declaration has the place of its line. -/
theorem DeclaredAt.location {declaration : Declaration}
    (hdeclared : DeclaredAt (lineTexts content) file classname index declaration) :
    declaration.location = placeOf content file index := by
  cases hdeclared <;> rfl

/-- The places of the declarations of a file are those of its cases outside comments. -/
theorem exists_declaration_iff_anyCase {location : SourceLocation} :
    (∃ declaration ∈ declarationsOf content file classname, declaration.location = location) ↔
      ∃ index, location = placeOf content file index ∧ ¬ IsSkipped (lineTexts content) index ∧
        anyCase.matchesLine (lineAt (lineTexts content) index) = true := by
  have hcase (index : Nat) := looksLikeCase_iff (lineFeed_not_mem_lineAt content index)
  constructor
  · rintro ⟨declaration, hmem, rfl⟩
    obtain ⟨index, hlive, hdeclared⟩ := mem_declarationsOf_iff_declaredAt.mp hmem
    exact ⟨index, hdeclared.location, hlive, (hcase index).mp hdeclared.looksLikeCase⟩
  · rintro ⟨index, rfl, hlive, hany⟩
    obtain ⟨declaration, hmade⟩ := exists_declarationOn hlive ((hcase index).mpr hany)
    have hdeclared := (declaredAt_of_declarationOn hmade).2
    exact ⟨declaration, mem_declarationsOf_iff_declaredAt.mpr ⟨index, hlive, hdeclared⟩,
      hdeclared.location⟩

/-- A line without a line feed that the pattern for cases with a literal finds is found by the one
for any case. So the second pattern decides where a file has declarations, which is on the lines
outside comments that it finds, and the first one which of these are unresolved, which are those
that it does not find. -/
theorem declarationsOf_iff_matchesLine :
    (∀ line : List Char, '\n' ∉ line →
      literalCase.matchesLine line = true → anyCase.matchesLine line = true) ∧
    ∀ (content : String) (file : Path) (classname : String),
      (∀ location,
        (∃ declaration ∈ declarationsOf content file classname, declaration.location = location) ↔
          ∃ index, location = placeOf content file index ∧ ¬ IsSkipped (lineTexts content) index ∧
            anyCase.matchesLine (lineAt (lineTexts content) index) = true) ∧
      ∀ location, .unresolved location ∈ declarationsOf content file classname ↔
        ∃ index, location = placeOf content file index ∧ ¬ IsSkipped (lineTexts content) index ∧
          anyCase.matchesLine (lineAt (lineTexts content) index) = true ∧
          literalCase.matchesLine (lineAt (lineTexts content) index) = false :=
  ⟨fun _ ↦ matchesLine_anyCase_of_literalCase, fun _ _ _ ↦
    ⟨fun _ ↦ exists_declaration_iff_anyCase, fun _ ↦ unresolved_mem_iff_not_literalCase⟩⟩

/-- A text with a line feed can be found by the first pattern only: a line feed is one of the blanks
that may stand between a literal and the comma, but no description has one in it. -/
example :
    literalCase.matchesLine "It(\"a\"\n, func() \x7b".toList = true ∧
      anyCase.matchesLine "It(\"a\"\n, func() \x7b".toList = false := by
  decide

/-- A case with a literal, and one whose description is computed. -/
def computedSource : String := "It(\"a\", func() \x7b\nIt(n(), func() \x7b\n"

/-- The first line is found by both patterns and the second one by one of them, so that both lines
have a declaration and that of the second one is unresolved. -/
theorem declarationsOf_iff_matchesLine_computedSource :
    anyCase.matchesLine "It(\"a\", func() \x7b".toList = true ∧
    (∃ declaration ∈ declarationsOf computedSource ⟨"a.go"⟩ "c",
      declaration.location = placeOf computedSource ⟨"a.go"⟩ 0) ∧
    .unresolved (placeOf computedSource ⟨"a.go"⟩ 1) ∈
      declarationsOf computedSource ⟨"a.go"⟩ "c" := by
  obtain ⟨hincluded, hdeclared⟩ := declarationsOf_iff_matchesLine
  obtain ⟨hplaces, hunresolved⟩ := hdeclared computedSource ⟨"a.go"⟩ "c"
  have hlive : ¬ IsSkipped (lineTexts computedSource) 0 ∧
      ¬ IsSkipped (lineTexts computedSource) 1 := by
    rw [← skips_scannerAt_iff, ← skips_scannerAt_iff]
    decide
  have hliteral : literalCase.matchesLine "It(\"a\", func() \x7b".toList = true := by decide
  have hfirst := hincluded "It(\"a\", func() \x7b".toList (by decide) hliteral
  have hline : lineAt (lineTexts computedSource) 0 = "It(\"a\", func() \x7b".toList := by decide
  refine ⟨hfirst, (hplaces _).mpr ⟨0, rfl, hlive.1, hline ▸ hfirst⟩,
    (hunresolved _).mpr ⟨1, rfl, hlive.2, by decide⟩⟩

/-! ### A sum of two literals -/

/-- A case whose description is put together from two literals. -/
def summedSource : String := "It(\"a\" + \"b\", func() \x7b\n"

/-- It is taken for a case with one literal. -/
theorem declarationsOf_summedSource :
    declarationsOf summedSource ⟨"a.go"⟩ "c" =
      [.test "c. a\" + \"b" ⟨⟨"a.go"⟩, 1, "It(\"a\" + \"b\", func() \x7b"⟩] := by
  decide

/-- So the text of a case is not always a literal, and a description that is not one literal is not
always reported. -/
theorem not_forall_isLiteral :
    (¬ ∀ (content : String) (index : Nat) (found : LineMatch) (case : List Char),
      ¬ IsSkipped (lineTexts content) index →
      literalCase.first (lineAt (lineTexts content) index) = some found →
      found.capture? "it" = some case → hasBareQuote case = false) ∧
    ¬ ∀ (content : String) (file : Path) (classname : String) (index : Nat)
        (description : List Char),
      ¬ IsSkipped (lineTexts content) index →
      Described (lineAt (lineTexts content) index) description →
      (∀ body, description = inQuotes body → hasBareQuote body = true) →
      .unresolved (placeOf content file index) ∈ declarationsOf content file classname := by
  have hlive : ¬ IsSkipped (lineTexts summedSource) 0 := by
    rw [← skips_scannerAt_iff]
    decide
  have hline : lineAt (lineTexts summedSource) 0 = caseLine (inQuotes "a\" + \"b".toList) := by
    decide
  refine ⟨fun hall ↦ ?_, fun hall ↦ ?_⟩
  · have hcase : ((literalCase.first (lineAt (lineTexts summedSource) 0)).bind
        (·.capture? "it")) = some "a\" + \"b".toList := by
      decide
    obtain ⟨found, hfound, hcapture⟩ := Option.bind_eq_some_iff.mp hcase
    exact absurd (hall summedSource 0 found _ hlive hfound hcapture) (by decide)
  · have hdescribed : Described (lineAt (lineTexts summedSource) 0)
        (inQuotes "a\" + \"b".toList) := hline ▸ described_caseLine _
    have hbare : ∀ body, inQuotes "a\" + \"b".toList = inQuotes body →
        hasBareQuote body = true := by
      intro body hsame
      rw [← inQuotes_inj.mp hsame]
      decide
    have hmem := hall summedSource ⟨"a.go"⟩ "c" 0 _ hlive hdescribed hbare
    rw [declarationsOf_summedSource, List.mem_singleton] at hmem
    cases hmem

end Source

end Roster
