import Roster.Proofs.Pattern.Matches
import Roster.Proofs.Source.LineScanner

/-!
# Declarations line by line

Which lines of a file declare what can be told line by line, from the texts of the lines. A line is
inside a block comment when an earlier line opens one and no line from that one on closes it
(`Source.IsInside`), and it is skipped when it is inside one or opens one (`Source.IsSkipped`). Its
suite is that of the last suite line up to it that is not skipped (`Source.IsSuite`).

A scanner goes over the lines one after the other, and knows before each line whether it is inside a
comment (`Source.inside_scannerAt_iff`) and which suite it is in (`Source.isSuite_scannerAt`). Hence
`Source.declarationsOf_lines`: the declarations of a file stand in the order of its lines, one on
each line that is not skipped and looks like a case, and none on any other line.
-/

set_option autoImplicit false
set_option relaxedAutoImplicit false

namespace Roster.Source

variable {texts : List (List Char)} {index : Nat} {file : Path} {classname : String}

/-! ### What can be told of a line -/

/-- A line is inside a block comment: an earlier line opens one, and none from that one on, up to
this line, closes it. -/
def IsInside (texts : List (List Char)) (index : Nat) : Prop :=
  ∃ opening, opening < index ∧ opensComment (lineAt texts opening) = true ∧
    ∀ between, opening ≤ between → between < index → closesComment (lineAt texts between) = false

/-- A line is skipped: it or an earlier line opens a block comment, and none from that one on, up to
this line, closes it. -/
def IsSkipped (texts : List (List Char)) (index : Nat) : Prop :=
  ∃ opening, opening ≤ index ∧ opensComment (lineAt texts opening) = true ∧
    ∀ between, opening ≤ between → between < index → closesComment (lineAt texts between) = false

/-- The suite behind the first lines of a file. -/
inductive IsSuite (texts : List (List Char)) (count : Nat) : List Char → Prop
  /-- None of these lines that is not skipped names a suite. -/
  | unnamed (hnone : ∀ index, index < count → ¬ IsSkipped texts index →
      describe.first (lineAt texts index) = none) : IsSuite texts count []
  /-- A line names it, and no later one of these lines that is not skipped names another one. -/
  | named {index : Nat} {found : LineMatch} {suite : List Char} (hcount : index < count)
      (hlive : ¬ IsSkipped texts index) (hfound : describe.first (lineAt texts index) = some found)
      (hsuite : found.capture? "desc" = some suite)
      (hlater : ∀ later, index < later → later < count → ¬ IsSkipped texts later →
        describe.first (lineAt texts later) = none) : IsSuite texts count suite

/-- What a line declares that is not skipped. -/
inductive DeclaredAt (texts : List (List Char)) (file : Path) (classname : String) (index : Nat) :
    Declaration → Prop
  /-- A case with a literal is a test in the suite of the line. -/
  | test {found : LineMatch} {suite case : List Char}
      (hfound : literalCase.first (lineAt texts index) = some found)
      (hcase : found.capture? "it" = some case) (hsuite : IsSuite texts (index + 1) suite) :
      DeclaredAt texts file classname index
        (.test (definitionKey classname (String.ofList suite) (String.ofList case))
          ⟨file, index + 1, String.ofList (lineAt texts index)⟩)
  /-- Any other case has no name. -/
  | unresolved (hliteral : literalCase.matchesLine (lineAt texts index) = false)
      (hcase : anyCase.matchesLine (lineAt texts index) = true) :
      DeclaredAt texts file classname index
        (.unresolved ⟨file, index + 1, String.ofList (lineAt texts index)⟩)

/-- A line is skipped when it is inside a block comment or opens one. -/
theorem isSkipped_iff :
    IsSkipped texts index ↔ IsInside texts index ∨ opensComment (lineAt texts index) = true := by
  constructor
  · rintro ⟨opening, hle, hopens, hopen⟩
    rcases Nat.lt_or_eq_of_le hle with hlt | rfl
    · exact .inl ⟨opening, hlt, hopens, hopen⟩
    · exact .inr hopens
  · rintro (⟨opening, hlt, hopens, hopen⟩ | hopens)
    · exact ⟨opening, Nat.le_of_lt hlt, hopens, hopen⟩
    · exact ⟨index, Nat.le_refl index, hopens, fun between hfrom hto ↦
        absurd hto (Nat.not_lt_of_le hfrom)⟩

/-- The line behind a skipped one is inside a block comment unless the skipped one closes it. -/
theorem isInside_succ_iff : IsInside texts (index + 1) ↔
    IsSkipped texts index ∧ closesComment (lineAt texts index) = false := by
  constructor
  · rintro ⟨opening, hlt, hopens, hopen⟩
    have hle : opening ≤ index := Nat.le_of_lt_succ hlt
    exact ⟨⟨opening, hle, hopens, fun between hfrom hto ↦
      hopen between hfrom (Nat.lt_succ_of_lt hto)⟩, hopen index hle (Nat.lt_succ_self index)⟩
  · rintro ⟨⟨opening, hle, hopens, hopen⟩, hlast⟩
    refine ⟨opening, Nat.lt_succ_of_le hle, hopens, fun between hfrom hto ↦ ?_⟩
    rcases Nat.lt_or_eq_of_le (Nat.le_of_lt_succ hto) with hlt | rfl
    · exact hopen between hfrom hlt
    · exact hlast

/-! ### The scanner before a line -/

/-- The scanner before a line. -/
def scannerAt (texts : List (List Char)) (index : Nat) : Scanner :=
  Scanner.start.readAll (texts.take index)

/-- An empty line changes nothing. -/
theorem Scanner.read_empty (scanner : Scanner) : scanner.read [] = scanner := by
  have hopens : opensComment [] = false := by decide
  have hcloses : closesComment [] = false := by decide
  have hsuite : describe.first [] = none := by decide
  cases scanner with
  | mk inside suite => cases inside <;> simp [read, skips, suiteFrom, hopens, hcloses, hsuite]

/-- The scanner before the next line has read this one. -/
theorem scannerAt_succ (texts : List (List Char)) (index : Nat) :
    scannerAt texts (index + 1) = (scannerAt texts index).read (lineAt texts index) := by
  rw [scannerAt, lineAt, List.getD_eq_getElem?_getD, List.take_add_one, Scanner.readAll,
    List.foldl_append]
  cases texts[index]? with
  | some text => rfl
  | none => exact (Scanner.read_empty _).symm

/-- The scanner knows which lines are inside block comments. -/
theorem inside_scannerAt_iff : (scannerAt texts index).inside = true ↔ IsInside texts index := by
  induction index with
  | zero => simp [scannerAt, Scanner.readAll, Scanner.start, IsInside]
  | succ index ih =>
    rw [scannerAt_succ, isInside_succ_iff, isSkipped_iff, ← ih, ← Bool.or_eq_true]
    rw [Scanner.read, Scanner.skips]
    split
    · next hskips => simp [hskips]
    · next hskips => simp [hskips]

/-- The scanner skips the lines that are to be skipped. -/
theorem skips_scannerAt_iff :
    (scannerAt texts index).skips (lineAt texts index) = true ↔ IsSkipped texts index := by
  rw [isSkipped_iff, ← inside_scannerAt_iff, Scanner.skips, Bool.or_eq_true]

/-- A suite line has a description. -/
theorem exists_description {text : List Char} {found : LineMatch}
    (hfound : describe.first text = some found) : ∃ suite, found.capture? "desc" = some suite :=
  LinePattern.exists_capture? hfound (by decide)

/-- A case with a literal has a description. -/
theorem exists_case {text : List Char} {found : LineMatch}
    (hfound : literalCase.first text = some found) : ∃ case, found.capture? "it" = some case :=
  LinePattern.exists_capture? hfound (by decide)

/-- A line that names no suite, or is skipped, leaves the suite as it is. -/
theorem IsSuite.succ {suite : List Char} (hsuite : IsSuite texts index suite)
    (hsilent : ¬ IsSkipped texts index → describe.first (lineAt texts index) = none) :
    IsSuite texts (index + 1) suite := by
  cases hsuite with
  | unnamed hnone =>
    refine .unnamed fun other hother hlive ↦ ?_
    rcases Nat.lt_or_eq_of_le (Nat.le_of_lt_succ hother) with hlt | rfl
    · exact hnone other hlt hlive
    · exact hsilent hlive
  | named hcount hlive hfound hdescription hlater =>
    refine .named (Nat.lt_succ_of_lt hcount) hlive hfound hdescription ?_
    intro later hfrom hto hother
    rcases Nat.lt_or_eq_of_le (Nat.le_of_lt_succ hto) with hlt | rfl
    · exact hlater later hfrom hlt hother
    · exact hsilent hother

/-- The scanner knows the suite. -/
theorem isSuite_scannerAt (texts : List (List Char)) (count : Nat) :
    IsSuite texts count (scannerAt texts count).suite := by
  induction count with
  | zero => exact .unnamed fun _ hindex ↦ absurd hindex (Nat.not_lt_zero _)
  | succ index ih =>
    rw [scannerAt_succ, Scanner.read]
    split
    · next hskips => exact ih.succ fun hlive ↦ absurd (skips_scannerAt_iff.mp hskips) hlive
    · next hreads =>
      have hlive : ¬ IsSkipped texts index := fun hskipped ↦
        hreads (skips_scannerAt_iff.mpr hskipped)
      rw [suiteFrom]
      cases hfound : describe.first (lineAt texts index) with
      | none => exact ih.succ fun _ ↦ hfound
      | some found =>
        obtain ⟨suite, hsuite⟩ := exists_description hfound
        rw [Option.bind_some, hsuite, Option.getD_some]
        exact .named (Nat.lt_succ_self index) hlive hfound hsuite fun later hfrom hto ↦
          absurd (Nat.le_of_lt_succ hto) (Nat.not_le_of_lt hfrom)

/-! ### The declarations of a file -/

/-- The text of a line that looks like a case. -/
def LooksLikeCase (text : List Char) : Prop :=
  literalCase.matchesLine text = true ∨ anyCase.matchesLine text = true

/-- The declarations of a file are what its lines declare, each to the scanner before it. -/
theorem declarationsOf_eq_filterMap (content : String) (file : Path) (classname : String) :
    declarationsOf content file classname =
      (List.range (lineTexts content).length).filterMap fun index ↦
        (scannerAt (lineTexts content) index).declarationOn file classname
          ⟨index + 1, lineAt (lineTexts content) index⟩ := by
  rw [declarationsOf_eq_scan, Scanner.scan_eq_filterMap]
  simp only [scannerAt, Nat.add_comm 1]

/-- Behind the last line nothing is declared. -/
theorem lt_length_of_declarationOn {scanner : Scanner} {number : Nat} {declaration : Declaration}
    (hmade : scanner.declarationOn file classname ⟨number, lineAt texts index⟩ =
      some declaration) : index < texts.length := by
  by_contra hbehind
  rw [lineAt, List.getD_eq_getElem?_getD, List.getElem?_eq_none (Nat.le_of_not_lt hbehind),
    Option.getD_none, Scanner.declarationOn_empty] at hmade
  cases hmade

theorem mem_declarationsOf_iff {content : String} {declaration : Declaration} :
    declaration ∈ declarationsOf content file classname ↔
      ∃ index, (scannerAt (lineTexts content) index).declarationOn file classname
        ⟨index + 1, lineAt (lineTexts content) index⟩ = some declaration := by
  rw [declarationsOf_eq_filterMap, List.mem_filterMap]
  constructor
  · rintro ⟨index, -, hmade⟩
    exact ⟨index, hmade⟩
  · rintro ⟨index, hmade⟩
    exact ⟨index, List.mem_range.mpr (lt_length_of_declarationOn hmade), hmade⟩

/-- What a line declares to the scanner before it. -/
theorem declaredAt_of_declarationOn {declaration : Declaration}
    (hmade : (scannerAt texts index).declarationOn file classname
      ⟨index + 1, lineAt texts index⟩ = some declaration) :
    ¬ IsSkipped texts index ∧ DeclaredAt texts file classname index declaration := by
  rw [Scanner.declarationOn] at hmade
  split at hmade
  · cases hmade
  · next hreads =>
    refine ⟨fun hskipped ↦ hreads (skips_scannerAt_iff.mpr hskipped), ?_⟩
    have hsuite : IsSuite texts (index + 1) (suiteFrom (scannerAt texts index).suite
        (lineAt texts index)) := by
      have hread := isSuite_scannerAt texts (index + 1)
      rwa [scannerAt_succ, Scanner.read, if_neg hreads] at hread
    rw [Source.declarationOn] at hmade
    split at hmade
    · next case hcase =>
      cases hmade
      obtain ⟨found, hfound, hcapture⟩ := Option.bind_eq_some_iff.mp hcase
      exact .test hfound hcapture hsuite
    · next hliteral =>
      split at hmade
      · next hany =>
        cases hmade
        refine .unresolved ?_ hany
        rw [LinePattern.matchesLine, Option.isSome_eq_false_iff, Option.isNone_iff_eq_none]
        by_contra hmatch
        obtain ⟨found, hfound⟩ := Option.ne_none_iff_exists'.mp hmatch
        obtain ⟨case, hcase⟩ := exists_case hfound
        rw [hfound, Option.bind_some, hcase] at hliteral
        cases hliteral
      · cases hmade

/-- A line that is not skipped and looks like a case declares something to the scanner before it. -/
theorem exists_declarationOn (hlive : ¬ IsSkipped texts index)
    (hcase : LooksLikeCase (lineAt texts index)) :
    ∃ declaration, (scannerAt texts index).declarationOn file classname
      ⟨index + 1, lineAt texts index⟩ = some declaration := by
  have hreads : (scannerAt texts index).skips (lineAt texts index) = false := by
    rw [← Bool.not_eq_true, skips_scannerAt_iff]
    exact hlive
  rw [Scanner.declarationOn, hreads, if_neg Bool.false_ne_true, Source.declarationOn]
  split
  · exact ⟨_, rfl⟩
  · next hliteral =>
    have hany : anyCase.matchesLine (lineAt texts index) = true := by
      refine hcase.resolve_left fun hmatch ↦ ?_
      obtain ⟨found, hfound⟩ := Option.isSome_iff_exists.mp hmatch
      obtain ⟨case, hdescription⟩ := exists_case hfound
      rw [hfound, Option.bind_some, hdescription] at hliteral
      cases hliteral
    exact ⟨_, if_pos hany⟩

theorem DeclaredAt.line {declaration : Declaration}
    (hdeclared : DeclaredAt texts file classname index declaration) :
    declaration.location.line = index + 1 := by
  cases hdeclared <;> rfl

theorem DeclaredAt.looksLikeCase {declaration : Declaration}
    (hdeclared : DeclaredAt texts file classname index declaration) :
    LooksLikeCase (lineAt texts index) := by
  cases hdeclared with
  | test hfound =>
    left
    rw [LinePattern.matchesLine, hfound, Option.isSome_some]
  | unresolved _ hany => exact .inr hany

/-- The declarations of a file stand in the order of its lines, one on a line at most. There is one
on a line exactly when the line is not skipped and looks like a case, and it is what this line
declares. -/
theorem declarationsOf_lines (content : String) (file : Path) (classname : String) :
    ((declarationsOf content file classname).map fun declaration ↦
      declaration.location.line).Pairwise (· < ·) ∧
    (∀ index, (∃ declaration ∈ declarationsOf content file classname,
        declaration.location.line = index + 1) ↔
      ¬ IsSkipped (lineTexts content) index ∧ LooksLikeCase (lineAt (lineTexts content) index)) ∧
    ∀ declaration ∈ declarationsOf content file classname, ∃ index,
      ¬ IsSkipped (lineTexts content) index ∧
        DeclaredAt (lineTexts content) file classname index declaration := by
  have hdeclared : ∀ declaration ∈ declarationsOf content file classname, ∃ index,
      ¬ IsSkipped (lineTexts content) index ∧
        DeclaredAt (lineTexts content) file classname index declaration := by
    intro declaration hdeclaration
    obtain ⟨index, hmade⟩ := mem_declarationsOf_iff.mp hdeclaration
    exact ⟨index, declaredAt_of_declarationOn hmade⟩
  refine ⟨pairwise_line_declarationsOf content file classname, fun index ↦ ⟨?_, ?_⟩, hdeclared⟩
  · rintro ⟨declaration, hdeclaration, hline⟩
    obtain ⟨other, hlive, hother⟩ := hdeclared declaration hdeclaration
    obtain rfl : index = other := Nat.succ.inj (hline.symm.trans hother.line)
    exact ⟨hlive, hother.looksLikeCase⟩
  · rintro ⟨hlive, hcase⟩
    obtain ⟨declaration, hmade⟩ := exists_declarationOn hlive hcase
    exact ⟨declaration, mem_declarationsOf_iff.mpr ⟨index, hmade⟩,
      (declaredAt_of_declarationOn hmade).2.line⟩

/-- A source file with three comments: one on a single line, one with a closing marker behind
slashes before the one that counts, and one that nothing closes. -/
def commentedSource : String :=
  "/* _ = Describe(\"none\", func() \x7b */\n" ++ "var _ = Describe(\"IO\", func() \x7b\n" ++
    "/* opened\n" ++ "var _ = Describe(\"hidden\", func() \x7b\n" ++ "still open // */\n" ++
    "*/\n" ++ "It(\"reads\", func() \x7b // a case\n" ++ "It(name, func() \x7b\n" ++ "/*\n" ++
    "It(\"lost\", func() \x7b\n"

/-- What that file declares. -/
def commentedDeclarations : List Declaration :=
  [.test "io.IO reads" ⟨⟨"/src/io/io_test.go"⟩, 7, "It(\"reads\", func() \x7b "⟩,
    .unresolved ⟨⟨"/src/io/io_test.go"⟩, 8, "It(name, func() \x7b"⟩]

/-- Comments hide the line of the second suite and of the last case. -/
theorem declarationsOf_lines_commentedSource :
    declarationsOf commentedSource ⟨"/src/io/io_test.go"⟩ "io" = commentedDeclarations ∧
      ¬ IsSkipped (lineTexts commentedSource) 7 ∧ IsSkipped (lineTexts commentedSource) 9 := by
  have hdeclarations : declarationsOf commentedSource ⟨"/src/io/io_test.go"⟩ "io" =
      commentedDeclarations := by
    -- With its characters in the goal, the text need not be decoded again for each of its lines.
    rw [declarationsOf_eq_filterMap, lineTexts, writtenLines]
    delta commentedSource
    simp only [String.toList_append, String.reduceToList]
    decide +kernel
  obtain ⟨-, hlines, -⟩ := declarationsOf_lines commentedSource ⟨"/src/io/io_test.go"⟩ "io"
  rw [hdeclarations] at hlines
  refine ⟨hdeclarations, ((hlines 7).mp (by decide)).1, ?_⟩
  by_contra hlive
  have hcase : LooksLikeCase (lineAt (lineTexts commentedSource) 9) := by
    rw [lineTexts, writtenLines]
    delta commentedSource
    simp only [String.toList_append, String.reduceToList]
    exact .inl (by decide +kernel)
  have hnone : ¬ ∃ declaration ∈ commentedDeclarations, declaration.location.line = 9 + 1 := by
    decide
  exact hnone ((hlines 9).mpr ⟨hlive, hcase⟩)

end Roster.Source
