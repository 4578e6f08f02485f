import Roster.Proofs.Pattern.Search
import Roster.Proofs.Source.BlockComments

/-!
# What stands on the line of a case

A line declares a case with a description (`Described`): the description stands between the opening
of the call (`IsCaseOpening`) and a function (`IsFunctionArgument`), and the line may go on behind
the function. These notions are about texts only.

A line has some description exactly when it is found to be a case (`matchesLine_anyCase_iff`), and
one in quotes exactly when it is found to be a case with a literal (`matchesLine_literalCase_iff`).
The text of such a case is the longest that can be read there between quotes (`IsCaseText`,
`exists_capture_iff_isCaseText`). A quote inside it does not end it.
-/

set_option autoImplicit false
set_option relaxedAutoImplicit false

namespace Roster

namespace Source

open Pattern

/-! ### Texts -/

/-- White space, or no text at all. -/
def IsBlankText (text : List Char) : Prop :=
  ∀ character ∈ text, Text.isBlank character = true

/-- The beginning of a case, up to its description: the name of the call, perhaps with the name of
the test package before it, and a bracket. -/
def IsCaseOpening (opening : List Char) : Prop :=
  ∃ lead package inner behind, IsBlankText lead ∧ (package = "" ∨ package = "ginkgo.") ∧
    IsBlankText inner ∧ IsBlankText behind ∧
    opening = lead ++ package.toList ++ "It".toList ++ inner ++ ['('] ++ behind

/-- The beginning of a function without parameters, up to its opening brace. -/
def IsFunctionHead (head : List Char) : Prop :=
  ∃ named within closed, IsBlankText named ∧ IsBlankText within ∧ IsBlankText closed ∧
    head = "func".toList ++ named ++ ['('] ++ within ++ [')'] ++ closed ++ ['\x7b']

/-- The beginning of a function as one more argument, from the comma on. -/
def IsFunctionArgument (argument : List Char) : Prop :=
  ∃ before behind head, IsBlankText before ∧ IsBlankText behind ∧ IsFunctionHead head ∧
    argument = before ++ [','] ++ behind ++ head

/-- A line that declares a case with a description. -/
def Described (text description : List Char) : Prop :=
  ∃ opening argument rest, IsCaseOpening opening ∧ IsFunctionArgument argument ∧
    text = opening ++ description ++ argument ++ rest

/-- A text between double quotes. -/
def inQuotes (body : List Char) : List Char :=
  '"' :: body ++ ['"']

/-- The longest text between quotes that is a description on the line. -/
structure IsCaseText (text body : List Char) : Prop where
  described : Described text (inQuotes body)
  longest : ∀ other, Described text (inQuotes other) → other.length ≤ body.length

variable {text body rest : List Char}

/-- A case with a description, spelled as usual. -/
def caseLine (description : List Char) : List Char :=
  "It(".toList ++ description ++ ", func() \x7b".toList

theorem isCaseOpening_it : IsCaseOpening "It(".toList :=
  ⟨[], "", [], [], List.forall_mem_nil _, .inl rfl, List.forall_mem_nil _, List.forall_mem_nil _,
    by decide⟩

theorem isFunctionArgument_func : IsFunctionArgument ", func() \x7b".toList := by
  have hhead : IsFunctionHead "func() \x7b".toList :=
    ⟨[], [], [' '], List.forall_mem_nil _, List.forall_mem_nil _,
      List.forall_mem_singleton.mpr (by decide), by decide⟩
  exact ⟨[], [' '], _, List.forall_mem_nil _, List.forall_mem_singleton.mpr (by decide), hhead,
    by decide⟩

theorem described_caseLine (description : List Char) :
    Described (caseLine description) description :=
  ⟨_, _, [], isCaseOpening_it, isFunctionArgument_func, (List.append_nil _).symm⟩

/-! ### Patterns of these texts -/

theorem spells_spaces : spaces.Spells IsBlankText := .run .blank

theorem spells_packageStart : packageStart.Spells fun text ↦
    ∃ lead package, IsBlankText lead ∧ (package = "" ∨ package = "ginkgo.") ∧
      text = lead ++ package.toList := by
  refine Spells.congr (.orElse spells_spaces (.cons spells_spaces (.cons (.exactly _) .nil)))
    fun text ↦ ⟨?_, ?_⟩
  · rintro (hblank | ⟨lead, _, hlead, ⟨_, _, rfl, rfl, rfl⟩, rfl⟩)
    · exact ⟨text, "", hblank, .inl rfl, (List.append_nil text).symm⟩
    · exact ⟨lead, "ginkgo.", hlead, .inr rfl, by rw [List.append_nil]⟩
  · rintro ⟨lead, package, hlead, rfl | rfl, rfl⟩
    · exact .inl (by simpa using hlead)
    · exact .inr ⟨lead, _, hlead, ⟨_, [], rfl, rfl, rfl⟩, by rw [List.append_nil]⟩

/-- The patterns up to the description of a case. -/
def openingPatterns : List Pattern :=
  [packageStart, literal "It", spaces, .one (.only '('), spaces]

theorem spells_opening : (inTurn openingPatterns).Spells IsCaseOpening := by
  refine Spells.congr (.cons spells_packageStart (.cons (.exactly _) (.cons spells_spaces
    (.cons (.one _) (.cons spells_spaces .nil))))) fun text ↦ ⟨?_, ?_⟩
  · rintro ⟨_, _, ⟨lead, package, hlead, hpackage, rfl⟩, ⟨_, _, rfl, ⟨inner, _, hinner,
      ⟨_, _, rfl, ⟨behind, _, hbehind, rfl, rfl⟩, rfl⟩, rfl⟩, rfl⟩, rfl⟩
    exact ⟨lead, package, inner, behind, hlead, hpackage, hinner, hbehind, by simp⟩
  · rintro ⟨lead, package, inner, behind, hlead, hpackage, hinner, hbehind, rfl⟩
    exact ⟨_, _, ⟨lead, package, hlead, hpackage, rfl⟩, ⟨_, _, rfl, ⟨inner, _, hinner,
      ⟨_, _, rfl, ⟨behind, [], hbehind, rfl, rfl⟩, rfl⟩, rfl⟩, rfl⟩, by simp⟩

/-- The patterns behind a quoted description. -/
def argumentPatterns : List Pattern :=
  [comma, functionHead]

theorem spells_functionHead : functionHead.Spells IsFunctionHead := by
  refine Spells.congr (.cons (.exactly _) (.cons spells_spaces (.cons (.one _) (.cons spells_spaces
    (.cons (.one _) (.cons spells_spaces (.cons (.one _) .nil))))))) fun text ↦ ⟨?_, ?_⟩
  · rintro ⟨_, _, rfl, ⟨named, _, hnamed, ⟨_, _, rfl, ⟨within, _, hwithin, ⟨_, _, rfl,
      ⟨closed, _, hclosed, ⟨_, _, rfl, rfl, rfl⟩, rfl⟩, rfl⟩, rfl⟩, rfl⟩, rfl⟩, rfl⟩
    exact ⟨named, within, closed, hnamed, hwithin, hclosed, by simp⟩
  · rintro ⟨named, within, closed, hnamed, hwithin, hclosed, rfl⟩
    exact ⟨_, _, rfl, ⟨named, _, hnamed, ⟨_, _, rfl, ⟨within, _, hwithin, ⟨_, _, rfl,
      ⟨closed, _, hclosed, ⟨_, [], rfl, rfl, rfl⟩, rfl⟩, rfl⟩, rfl⟩, rfl⟩, rfl⟩, by simp⟩

theorem spells_comma : comma.Spells fun text ↦ ∃ before behind,
    IsBlankText before ∧ IsBlankText behind ∧ text = before ++ [','] ++ behind := by
  refine Spells.congr (.cons spells_spaces (.cons (.one _) (.cons spells_spaces .nil)))
    fun text ↦ ⟨?_, ?_⟩
  · rintro ⟨before, _, hbefore, ⟨_, _, rfl, ⟨behind, _, hbehind, rfl, rfl⟩, rfl⟩, rfl⟩
    exact ⟨before, behind, hbefore, hbehind, by simp⟩
  · rintro ⟨before, behind, hbefore, hbehind, rfl⟩
    exact ⟨before, _, hbefore, ⟨_, _, rfl, ⟨behind, [], hbehind, rfl, rfl⟩, rfl⟩, by simp⟩

theorem spells_argument : (inTurn argumentPatterns).Spells IsFunctionArgument := by
  refine Spells.congr (.cons spells_comma (.cons spells_functionHead .nil)) fun text ↦ ⟨?_, ?_⟩
  · rintro ⟨_, _, ⟨before, behind, hbefore, hbehind, rfl⟩, ⟨head, _, hhead, rfl, rfl⟩, rfl⟩
    exact ⟨before, behind, head, hbefore, hbehind, hhead, by simp⟩
  · rintro ⟨before, behind, head, hbefore, hbehind, hhead, rfl⟩
    exact ⟨_, _, ⟨before, behind, hbefore, hbehind, rfl⟩, ⟨head, [], hhead, rfl, rfl⟩, by simp⟩

/-- The patterns behind any description. -/
def strictArgumentPatterns : List Pattern :=
  [.one (.only ','), spaces, functionHead]

theorem spells_strictArgument : (inTurn strictArgumentPatterns).Spells fun text ↦
    ∃ behind head, IsBlankText behind ∧ IsFunctionHead head ∧ text = ',' :: behind ++ head := by
  refine Spells.congr (.cons (.one _) (.cons spells_spaces (.cons spells_functionHead .nil)))
    fun text ↦ ⟨?_, ?_⟩
  · rintro ⟨_, _, rfl, ⟨behind, _, hbehind, ⟨head, _, hhead, rfl, rfl⟩, rfl⟩, rfl⟩
    exact ⟨behind, head, hbehind, hhead, by simp⟩
  · rintro ⟨behind, head, hbehind, hhead, rfl⟩
    exact ⟨_, _, rfl, ⟨behind, _, hbehind, ⟨head, [], hhead, rfl, rfl⟩, rfl⟩, by simp⟩

/-! ### Texts in quotes -/

theorem quote_not_mem_of_isCaseOpening {opening : List Char} (hopening : IsCaseOpening opening) :
    '"' ∉ opening := by
  obtain ⟨lead, package, inner, behind, hlead, hpackage, hinner, hbehind, rfl⟩ := hopening
  have hquote : Text.isBlank '"' = false := by decide
  have hblank {blanks : List Char} (hblanks : IsBlankText blanks) : '"' ∉ blanks := by
    intro hmem
    rw [hblanks _ hmem] at hquote
    cases hquote
  have hname : '"' ∉ package.toList := by
    rcases hpackage with rfl | rfl <;> decide
  simp [hblank hlead, hname, hblank hinner, hblank hbehind]

/-- A text is cut in one way only before its first quote. -/
theorem append_quote_inj {first second behind later : List Char} (hfirst : '"' ∉ first)
    (hsecond : '"' ∉ second) (hsame : first ++ '"' :: behind = second ++ '"' :: later) :
    first = second ∧ behind = later := by
  induction first generalizing second with
  | nil =>
    cases second with
    | nil => exact ⟨rfl, (List.cons.inj hsame).2⟩
    | cons other others =>
      rw [(List.cons.inj hsame).1] at hsecond
      exact absurd List.mem_cons_self hsecond
  | cons character rest ih =>
    cases second with
    | nil =>
      rw [← (List.cons.inj hsame).1] at hfirst
      exact absurd List.mem_cons_self hfirst
    | cons other others =>
      obtain ⟨rfl, hrest⟩ := List.cons.inj hsame
      obtain ⟨rfl, hbehind⟩ := ih (List.not_mem_of_not_mem_cons hfirst)
        (List.not_mem_of_not_mem_cons hsecond) hrest
      exact ⟨rfl, hbehind⟩

theorem inQuotes_append (body rest : List Char) :
    inQuotes body ++ rest = '"' :: (body ++ '"' :: rest) := by
  simp [inQuotes]

theorem inQuotes_inj {other : List Char} : inQuotes body = inQuotes other ↔ body = other := by
  simp [inQuotes]

theorem take_length_sub (front back : List Char) :
    (front ++ back).take ((front ++ back).length - back.length) = front := by
  simp

theorem holds_any_iff : (∀ character ∈ text, CharacterClass.any.holds character = true) ↔
    '\n' ∉ text := by
  simp only [CharacterClass.holds, decide_eq_true_iff]
  exact ⟨fun hholds hmem ↦ hholds _ hmem rfl, fun hline _ ↦ (ne_of_mem_of_not_mem · hline)⟩

theorem matches_anything (name : String) {taken : List Char} (hline : '\n' ∉ taken)
    (rest : List Char) :
    (Pattern.group name anything).Matches (taken ++ rest) rest [(name, taken)] :=
  matches_group_iff.mpr ⟨[], .run (holds_any_iff.mpr hline), by rw [take_length_sub]; rfl⟩

theorem matches_quotedGroup (name : String) (hline : '\n' ∉ body) (rest : List Char) :
    (quotedGroup name).Matches (inQuotes body ++ rest) rest [(name, body)] := by
  have hgroup : (Pattern.group name anything).Matches (body ++ '"' :: rest) ('"' :: rest)
      [(name, body)] := matches_anything name hline _
  rw [inQuotes_append, quotedGroup, matches_inTurn_cons_iff]
  refine ⟨_, [], _, .one rfl, ?_, rfl⟩
  rw [matches_inTurn_cons_iff]
  exact ⟨_, _, [], hgroup, .one rfl, rfl⟩

/-- A search for a text in quotes finds the longest one behind which anything is accepted. -/
theorem exists_longest_of_quotedGroup {Result : Type} {result : Result} {name : String}
    {captures : Captures} {accept : Captures → List Char → Option Result}
    (hfound : (quotedGroup name).first captures text accept = some result) :
    ∃ body rest, text = inQuotes body ++ rest ∧
      accept (captures ++ [(name, body)]) rest = some result ∧
      ∀ longer later, text = inQuotes longer ++ later → '\n' ∉ longer →
        body.length < longer.length → accept (captures ++ [(name, longer)]) later = none := by
  simp only [quotedGroup, first_inTurn_cons, first_inTurn_nil] at hfound
  obtain ⟨_, behind, rfl, rfl, hbehind⟩ := (Spells.one '"').exists_of_first hfound
  obtain ⟨body, rest, rfl, hbody, hrest, hlongest⟩ := exists_longest_of_behindRun hbehind
  obtain ⟨_, rest, rfl, rfl, haccept⟩ := (Spells.one '"').exists_of_first hrest
  rw [List.singleton_append, take_length_sub] at haccept
  refine ⟨body, rest, (inQuotes_append body rest).symm, haccept,
    fun longer later hsame hline hlength ↦ ?_⟩
  have hsplit : body ++ (['"'] ++ rest) = longer ++ '"' :: later := by
    rw [inQuotes_append] at hsame
    exact (List.cons.inj hsame).2
  have hlater := hlongest longer ('"' :: later) hsplit (holds_any_iff.mpr hline) hlength
  beta_reduce at hlater
  rw [hsplit, take_length_sub] at hlater
  exact hlater

/-! ### Lines of cases -/

theorem body_anyCase : anyCase.body =
    inTurn (openingPatterns ++ .group "it" anything :: strictArgumentPatterns) := rfl

theorem body_literalCase : literalCase.body =
    inTurn (openingPatterns ++ quotedGroup "it" :: argumentPatterns) := rfl

/-- A line is found to be a case when it has a description. -/
theorem matchesLine_anyCase_iff (hline : '\n' ∉ text) :
    anyCase.matchesLine text = true ↔ ∃ description, Described text description := by
  rw [LinePattern.matchesLine_iff rfl, body_anyCase]
  constructor
  · rintro ⟨rest, captures, hmatch⟩
    obtain ⟨_, _, _, hfront, hback, -⟩ := matches_inTurn_append_iff.mp hmatch
    obtain ⟨-, opening, hopening, rfl⟩ := (spells_opening _ _ _).mp hfront
    obtain ⟨_, _, _, hgroup, hstrict, -⟩ := matches_inTurn_cons_iff.mp hback
    obtain ⟨-, argument, ⟨behind, head, hbehind, hhead, rfl⟩, rfl⟩ :=
      (spells_strictArgument _ _ _).mp hstrict
    obtain ⟨_, hrun, -⟩ := matches_group_iff.mp hgroup
    obtain ⟨-, description, -, rfl⟩ := matches_run_iff.mp hrun
    exact ⟨description, opening, _, rest, hopening,
      ⟨[], behind, head, List.forall_mem_nil _, hbehind, hhead, rfl⟩, by simp⟩
  · rintro ⟨description, opening, _, rest, hopening, ⟨before, behind, head, hbefore, hbehind, hhead,
      rfl⟩, rfl⟩
    -- White space before the comma is read with the description.
    have hany : '\n' ∉ description ++ before := by
      simp_all
    have hfront := spells_opening.matches_append hopening
      ((description ++ before) ++ (',' :: behind ++ head ++ rest))
    have hgroup := matches_anything "it" hany (',' :: behind ++ head ++ rest)
    have hback := spells_strictArgument.matches_append ⟨behind, head, hbehind, hhead, rfl⟩ rest
    refine ⟨rest, _, matches_inTurn_append_iff.mpr ⟨_, [], _, ?_,
      matches_inTurn_cons_iff.mpr ⟨_, _, [], hgroup, hback, rfl⟩, rfl⟩⟩
    simpa using hfront

/-- A line with a description in quotes is found to be a case with a literal. -/
theorem matchesLine_literalCase (hline : '\n' ∉ text)
    (hdescribed : Described text (inQuotes body)) : literalCase.matchesLine text = true := by
  obtain ⟨opening, argument, rest, hopening, hargument, rfl⟩ := hdescribed
  have hbody : '\n' ∉ body := by
    simp_all [inQuotes]
  have hfront := spells_opening.matches_append hopening (inQuotes body ++ (argument ++ rest))
  have hquoted := matches_quotedGroup "it" hbody (argument ++ rest)
  have hback := spells_argument.matches_append hargument rest
  rw [LinePattern.matchesLine_iff rfl, body_literalCase]
  refine ⟨rest, _, matches_inTurn_append_iff.mpr ⟨_, [], _, ?_,
    matches_inTurn_cons_iff.mpr ⟨_, _, [], hquoted, hback, rfl⟩, rfl⟩⟩
  simpa using hfront

/-- No opening has a quote, so that all descriptions in quotes on a line start at the same place. -/
theorem Described.exists_argument {opening behind : List Char} (hopening : IsCaseOpening opening)
    (hdescribed : Described (opening ++ '"' :: behind) (inQuotes body)) :
    ∃ argument rest, IsFunctionArgument argument ∧ behind = body ++ '"' :: (argument ++ rest) := by
  obtain ⟨other, argument, rest, hother, hargument, hsame⟩ := hdescribed
  rw [List.append_assoc, List.append_assoc, inQuotes_append] at hsame
  obtain ⟨-, hbehind⟩ := append_quote_inj (quote_not_mem_of_isCaseOpening hopening)
    (quote_not_mem_of_isCaseOpening hother) hsame
  exact ⟨argument, rest, hargument, hbehind⟩

/-- The text of a case with a literal is the longest description in quotes. -/
theorem isCaseText_of_literalCase (hline : '\n' ∉ text) {found : LineMatch}
    (hfound : literalCase.first text = some found) :
    ∃ body, found.capture? "it" = some body ∧ IsCaseText text body := by
  rw [LinePattern.first_eq_here rfl, LinePattern.here, body_literalCase,
    first_inTurn_append] at hfound
  obtain ⟨opening, _, hopening, rfl, hrest⟩ := spells_opening.exists_of_first hfound
  rw [first_inTurn_cons] at hrest
  obtain ⟨body, behind, rfl, hbehind, hlongest⟩ := exists_longest_of_quotedGroup hrest
  obtain ⟨argument, rest, hargument, rfl, haccept⟩ := spells_argument.exists_of_first hbehind
  refine ⟨body, ?_, ⟨opening, argument, rest, hopening, hargument, by simp⟩, ?_⟩
  · cases haccept
    rfl
  · intro other hother
    rw [inQuotes_append] at hother
    obtain ⟨second, later, hsecond, hsplit⟩ := hother.exists_argument hopening
    by_contra hlonger
    have hclean : '\n' ∉ other := by
      intro hmem
      rw [inQuotes_append, hsplit] at hline
      exact hline (by simp [hmem])
    have htail : inQuotes body ++ (argument ++ rest) = inQuotes other ++ (second ++ later) := by
      rw [inQuotes_append, hsplit, inQuotes_append]
    have hnone := hlongest other _ htail hclean (Nat.lt_of_not_le hlonger)
    exact first_ne_none_of_matches (spells_argument.matches_append hsecond later)
      (Option.some_ne_none _) hnone

/-- Whether a text has a quote that no backslash stands before. -/
def hasBareQuote : List Char → Bool
  | [] => false
  | '\\' :: _ :: rest => hasBareQuote rest
  | character :: rest => character = '"' || hasBareQuote rest

/-- A bare quote stays bare when the text goes on. -/
theorem hasBareQuote_append {front : List Char} (hfront : hasBareQuote front = true)
    (behind : List Char) : hasBareQuote (front ++ behind) = true := by
  fun_induction hasBareQuote front with
  | case1 => cases hfront
  | case2 escaped rest ih => exact ih hfront
  | case3 character rest hplain ih =>
    rw [Bool.or_eq_true, decide_eq_true_iff] at hfront
    rcases hfront with rfl | hrest
    · simp [hasBareQuote]
    · cases rest with
      | nil => cases hrest
      | cons next others =>
        have hslash : character ≠ '\\' := fun hsame ↦ hplain next others hsame rfl
        simp only [List.cons_append] at ih ⊢
        simp [hasBareQuote, hslash, ih hrest]

namespace IsCaseText

variable {other : List Char}

/-- All descriptions in quotes on a line are beginnings of the longest one. -/
theorem isPrefix (hbody : IsCaseText text body) (hother : Described text (inQuotes other)) :
    other <+: body := by
  have hlength : other.length ≤ body.length := hbody.longest other hother
  obtain ⟨opening, argument, rest, hopening, -, rfl⟩ := hbody.described
  rw [List.append_assoc, List.append_assoc, inQuotes_append] at hother
  obtain ⟨second, later, -, hsplit⟩ := hother.exists_argument hopening
  exact List.prefix_of_prefix_length_le ⟨_, hsplit.symm⟩ (List.prefix_append _ _) hlength

theorem unique (hbody : IsCaseText text body) (hother : IsCaseText text other) : body = other :=
  (hother.isPrefix hbody.described).eq_of_length_le (hbody.longest other hother.described)

/-- The text of a case has no bare quote exactly when no description in quotes on the line has
one. -/
theorem hasBareQuote_eq_false_iff (hbody : IsCaseText text body) :
    hasBareQuote body = false ↔
      ∀ other, Described text (inQuotes other) → hasBareQuote other = false := by
  refine ⟨fun hnone other hother ↦ ?_, fun hnone ↦ hnone body hbody.described⟩
  obtain ⟨behind, rfl⟩ := hbody.isPrefix hother
  by_contra hbare
  rw [Bool.not_eq_false] at hbare
  rw [hasBareQuote_append hbare] at hnone
  cases hnone

end IsCaseText

/-- A line is a case with a literal when it has a description in quotes. -/
theorem matchesLine_literalCase_iff {text : List Char} (hline : '\n' ∉ text) :
    literalCase.matchesLine text = true ↔ ∃ body, Described text (inQuotes body) := by
  refine ⟨fun hmatch ↦ ?_, fun ⟨body, hdescribed⟩ ↦ matchesLine_literalCase hline hdescribed⟩
  obtain ⟨found, hfound⟩ := Option.isSome_iff_exists.mp hmatch
  obtain ⟨body, -, hbody⟩ := isCaseText_of_literalCase hline hfound
  exact ⟨body, hbody.described⟩

/-- The search for a case with a literal finds the longest description in quotes. -/
theorem exists_capture_iff_isCaseText {text case : List Char} (hline : '\n' ∉ text) :
    (∃ found, literalCase.first text = some found ∧ found.capture? "it" = some case) ↔
      IsCaseText text case := by
  constructor
  · rintro ⟨found, hfound, hcase⟩
    obtain ⟨body, hcapture, hbody⟩ := isCaseText_of_literalCase hline hfound
    rwa [Option.some.inj (hcase.symm.trans hcapture)]
  · intro hcase
    have hmatch := matchesLine_literalCase hline hcase.described
    obtain ⟨found, hfound⟩ := Option.isSome_iff_exists.mp hmatch
    obtain ⟨body, hcapture, hbody⟩ := isCaseText_of_literalCase hline hfound
    exact ⟨found, hfound, by rw [hcapture, hbody.unique hcase]⟩

end Source

end Roster
