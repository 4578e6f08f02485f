import Roster.Proofs.Pattern.Matches

/-!
# What the search for a match finds

The search for a match gives nothing up that could be accepted: if any match of a pattern is
accepted, the search finds one (`Pattern.first_ne_none_of_matches`). So a pattern that may start
only at the beginning of a line is found in the line exactly when it matches there
(`LinePattern.matchesLine_iff`), whatever it prefers.

Which match is found depends on the order of preference. A run takes as many characters as what
follows lets it (`Pattern.exists_longest_of_behindRun`).

`Pattern.Matches` is read piece by piece, with one law for each kind of pattern. Patterns in turn
can be taken apart anywhere, for the matches (`Pattern.matches_inTurn_append_iff`) as for the search
(`Pattern.first_inTurn_append`).
-/

set_option autoImplicit false
set_option relaxedAutoImplicit false

namespace Roster

namespace Pattern

variable {Result : Type} {result : Result} {characters : CharacterClass} {text rest : List Char}
variable {captures more : Captures} {accept : Captures → List Char → Option Result}

/-! ### What a pattern matches, piece by piece -/

theorem matches_one_iff : (one characters).Matches text rest captures ↔
    captures = [] ∧ ∃ character, characters.holds character = true ∧ text = character :: rest := by
  constructor
  · rintro ⟨hholds⟩
    exact ⟨rfl, _, hholds, rfl⟩
  · rintro ⟨rfl, character, hholds, rfl⟩
    exact .one hholds

theorem matches_exactly_iff {expected : List Char} :
    (exactly expected).Matches text rest captures ↔ captures = [] ∧ text = expected ++ rest := by
  constructor
  · rintro ⟨⟩
    exact ⟨rfl, rfl⟩
  · rintro ⟨rfl, rfl⟩
    exact .exactly

theorem matches_run_iff : (run characters).Matches text rest captures ↔
    captures = [] ∧ ∃ taken, (∀ character ∈ taken, characters.holds character = true) ∧
      text = taken ++ rest := by
  constructor
  · rintro (_ | _ | ⟨hholds⟩)
    exact ⟨rfl, _, hholds, rfl⟩
  · rintro ⟨rfl, taken, hholds, rfl⟩
    exact .run hholds

theorem matches_thenMatch_iff {before after : Pattern} :
    (thenMatch before after).Matches text rest captures ↔
      ∃ middle earlier later, before.Matches text middle earlier ∧
        after.Matches middle rest later ∧ captures = earlier ++ later := by
  constructor
  · rintro ⟨⟩
    exact ⟨_, _, _, ‹_›, ‹_›, rfl⟩
  · rintro ⟨middle, earlier, later, hbefore, hafter, rfl⟩
    exact .thenMatch hbefore hafter

theorem matches_orElse_iff {preferred other : Pattern} :
    (orElse preferred other).Matches text rest captures ↔
      preferred.Matches text rest captures ∨ other.Matches text rest captures := by
  constructor
  · intro hmatch
    cases hmatch with
    | preferred hmatch => exact .inl hmatch
    | other hmatch => exact .inr hmatch
  · rintro (hmatch | hmatch)
    · exact .preferred hmatch
    · exact .other hmatch

theorem matches_group_iff {name : String} {body : Pattern} :
    (group name body).Matches text rest captures ↔ ∃ inner, body.Matches text rest inner ∧
      captures = inner ++ [(name, text.take (text.length - rest.length))] := by
  constructor
  · rintro ⟨⟩
    exact ⟨_, ‹_›, rfl⟩
  · rintro ⟨inner, hmatch, rfl⟩
    exact .group hmatch

theorem matches_inTurn_nil_iff :
    (inTurn []).Matches text rest captures ↔ captures = [] ∧ text = rest := by
  rw [inTurn, matches_exactly_iff, List.nil_append]

/-- Patterns in turn match when the first one does, and behind it the others. -/
theorem matches_inTurn_cons_iff {next : Pattern} {others : List Pattern} :
    (inTurn (next :: others)).Matches text rest captures ↔
      ∃ middle earlier later, next.Matches text middle earlier ∧
        (inTurn others).Matches middle rest later ∧ captures = earlier ++ later := by
  cases others with
  | nil =>
    simp only [matches_inTurn_nil_iff]
    constructor
    · exact fun hnext ↦ ⟨rest, captures, [], hnext, ⟨rfl, rfl⟩, (List.append_nil _).symm⟩
    · rintro ⟨middle, earlier, later, hnext, ⟨rfl, rfl⟩, rfl⟩
      rwa [List.append_nil]
  | cons second remaining =>
    rw [inTurn, matches_thenMatch_iff]
    exact List.cons_ne_nil second remaining

/-- Patterns in turn match when those of a first part do, and behind them those of the other
part. -/
theorem matches_inTurn_append_iff {front back : List Pattern} :
    (inTurn (front ++ back)).Matches text rest captures ↔
      ∃ middle earlier later, (inTurn front).Matches text middle earlier ∧
        (inTurn back).Matches middle rest later ∧ captures = earlier ++ later := by
  induction front generalizing text captures with
  | nil =>
    simp only [matches_inTurn_nil_iff]
    constructor
    · exact fun hback ↦ ⟨text, [], captures, ⟨rfl, rfl⟩, hback, rfl⟩
    · rintro ⟨middle, earlier, later, ⟨rfl, rfl⟩, hback, rfl⟩
      exact hback
  | cons next others ih =>
    rw [List.cons_append, matches_inTurn_cons_iff]
    constructor
    · rintro ⟨middle, earlier, later, hnext, hlater, rfl⟩
      obtain ⟨second, between, behind, hothers, hback, rfl⟩ := ih.mp hlater
      refine ⟨second, earlier ++ between, behind, ?_, hback, (List.append_assoc ..).symm⟩
      exact matches_inTurn_cons_iff.mpr ⟨middle, earlier, between, hnext, hothers, rfl⟩
    · rintro ⟨second, before, behind, hfront, hback, rfl⟩
      obtain ⟨middle, earlier, between, hnext, hothers, rfl⟩ := matches_inTurn_cons_iff.mp hfront
      refine ⟨middle, earlier, between ++ behind, hnext, ?_, List.append_assoc ..⟩
      exact ih.mpr ⟨second, between, behind, hothers, hback, rfl⟩

/-! ### Patterns without groups -/

/-- A pattern without groups matches the texts of a kind, wherever they stand. -/
def Spells (pattern : Pattern) (IsText : List Char → Prop) : Prop :=
  ∀ text rest captures, pattern.Matches text rest captures ↔
    captures = [] ∧ ∃ taken, IsText taken ∧ text = taken ++ rest

namespace Spells

variable {pattern other : Pattern} {others : List Pattern} {IsText IsOther : List Char → Prop}

theorem congr (hspells : pattern.Spells IsText) (hsame : ∀ text, IsText text ↔ IsOther text) :
    pattern.Spells IsOther := by
  simpa only [Spells, hsame] using hspells

theorem one (character : Char) : (Pattern.one (.only character)).Spells (· = [character]) := by
  intro text rest captures
  simp [matches_one_iff, CharacterClass.holds]

theorem exactly (expected : List Char) : (Pattern.exactly expected).Spells (· = expected) := by
  intro text rest captures
  simp [matches_exactly_iff]

theorem run (characters : CharacterClass) : (Pattern.run characters).Spells fun text ↦
    ∀ character ∈ text, characters.holds character = true :=
  fun _ _ _ ↦ matches_run_iff

theorem orElse (hpattern : pattern.Spells IsText) (hother : other.Spells IsOther) :
    (Pattern.orElse pattern other).Spells fun text ↦ IsText text ∨ IsOther text := by
  intro text rest captures
  simp only [matches_orElse_iff, hpattern text, hother text, ← and_or_left, ← exists_or,
    or_and_right]

theorem nil : (inTurn []).Spells (· = []) := by
  intro text rest captures
  simp [matches_inTurn_nil_iff]

/-- Patterns in turn match what the first one matches, and behind it what the others do. -/
theorem cons (hpattern : pattern.Spells IsText) (hothers : (inTurn others).Spells IsOther) :
    (inTurn (pattern :: others)).Spells fun text ↦
      ∃ first second, IsText first ∧ IsOther second ∧ text = first ++ second := by
  intro text rest captures
  rw [matches_inTurn_cons_iff]
  simp only [hpattern _, hothers _]
  constructor
  · rintro ⟨_, _, _, ⟨rfl, first, hfirst, rfl⟩, ⟨rfl, second, hsecond, rfl⟩, rfl⟩
    exact ⟨rfl, _, ⟨first, second, hfirst, hsecond, rfl⟩, (List.append_assoc ..).symm⟩
  · rintro ⟨rfl, _, ⟨first, second, hfirst, hsecond, rfl⟩, rfl⟩
    exact ⟨_, [], [], ⟨rfl, first, hfirst, List.append_assoc ..⟩, ⟨rfl, second, hsecond, rfl⟩, rfl⟩

/-- What is found for such a pattern is accepted behind a text of the kind. -/
theorem exists_of_first (hspells : pattern.Spells IsText)
    (hfound : pattern.first captures text accept = some result) :
    ∃ taken rest, IsText taken ∧ text = taken ++ rest ∧ accept captures rest = some result := by
  obtain ⟨rest, more, hmatch, haccept⟩ := exists_matches_of_first hfound
  obtain ⟨rfl, taken, htaken, htext⟩ := (hspells _ _ _).mp hmatch
  exact ⟨taken, rest, htaken, htext, by rwa [List.append_nil] at haccept⟩

theorem matches_append (hspells : pattern.Spells IsText) {taken : List Char} (htaken : IsText taken)
    (rest : List Char) : pattern.Matches (taken ++ rest) rest [] :=
  (hspells _ _ _).mpr ⟨rfl, taken, htaken, rfl⟩

end Spells

/-! ### What is accepted is not given up -/

theorem afterText_append (expected rest : List Char) :
    afterText expected (expected ++ rest) = some rest := by
  induction expected with
  | nil => rfl
  | cons character others ih => rw [List.cons_append, afterText, if_pos rfl, ih]

/-- Nothing is found behind a run when it is accepted behind no characters of the class. -/
theorem behindRun_eq_none_iff {accept : List Char → Option Result} :
    behindRun characters accept text = none ↔
      ∀ taken rest, text = taken ++ rest →
        (∀ character ∈ taken, characters.holds character = true) → accept rest = none := by
  induction text with
  | nil =>
    rw [behindRun]
    constructor
    · intro hnone taken rest hsplit _
      rwa [(List.append_eq_nil_iff.mp hsplit.symm).2]
    · exact fun hnone ↦ hnone [] [] rfl (List.forall_mem_nil _)
  | cons first behind ih =>
    rw [behindRun]
    split
    · next hholds =>
      split
      · next longer hlonger =>
        refine ⟨fun hnone ↦ absurd hnone (Option.some_ne_none longer), fun hnone ↦ ?_⟩
        have hbehind : behindRun characters accept behind = none :=
          ih.mpr fun taken rest hsplit htaken ↦ hnone (first :: taken) rest (by rw [hsplit]; rfl)
            (List.forall_mem_cons.mpr ⟨hholds, htaken⟩)
        rw [hlonger] at hbehind
        cases hbehind
      · next hbehind =>
        refine ⟨fun hnone taken rest hsplit htaken ↦ ?_, fun hnone ↦ ?_⟩
        · rcases List.cons_eq_append_iff.mp hsplit with ⟨-, rfl⟩ | ⟨others, rfl, hothers⟩
          · exact hnone
          · exact ih.mp hbehind others rest hothers (List.forall_mem_cons.mp htaken).2
        · exact hnone [] _ rfl (List.forall_mem_nil _)
    · next hother =>
      refine ⟨fun hnone taken rest hsplit htaken ↦ ?_, fun hnone ↦ ?_⟩
      · rcases List.cons_eq_append_iff.mp hsplit with ⟨-, rfl⟩ | ⟨others, rfl, -⟩
        · exact hnone
        · exact absurd (List.forall_mem_cons.mp htaken).1 hother
      · exact hnone [] _ rfl (List.forall_mem_nil _)

/-- What is found behind a run is what is accepted behind the longest run for which anything is. -/
theorem exists_longest_of_behindRun {accept : List Char → Option Result}
    (hfound : behindRun characters accept text = some result) :
    ∃ taken rest, text = taken ++ rest ∧
      (∀ character ∈ taken, characters.holds character = true) ∧ accept rest = some result ∧
      ∀ longer later, text = longer ++ later →
        (∀ character ∈ longer, characters.holds character = true) → taken.length < longer.length →
        accept later = none := by
  induction text with
  | nil =>
    refine ⟨[], [], rfl, List.forall_mem_nil _, hfound, fun longer later hsplit _ hlength ↦ ?_⟩
    rw [(List.append_eq_nil_iff.mp hsplit.symm).1] at hlength
    exact absurd hlength (Nat.lt_irrefl _)
  | cons first behind ih =>
    rw [behindRun] at hfound
    split at hfound
    · next hholds =>
      split at hfound
      · next found hlonger =>
        cases hfound
        obtain ⟨taken, rest, rfl, htaken, haccept, hlongest⟩ := ih hlonger
        refine ⟨first :: taken, rest, rfl, List.forall_mem_cons.mpr ⟨hholds, htaken⟩, haccept,
          fun longer later hsplit hlonger hlength ↦ ?_⟩
        rcases List.cons_eq_append_iff.mp hsplit with ⟨rfl, -⟩ | ⟨others, rfl, hothers⟩
        · exact absurd hlength (Nat.not_lt_zero _)
        · exact hlongest others later hothers (List.forall_mem_cons.mp hlonger).2
            (Nat.lt_of_succ_lt_succ hlength)
      · next hbehind =>
        refine ⟨[], _, rfl, List.forall_mem_nil _, hfound,
          fun longer later hsplit hlonger hlength ↦ ?_⟩
        rcases List.cons_eq_append_iff.mp hsplit with ⟨rfl, -⟩ | ⟨others, rfl, hothers⟩
        · exact absurd hlength (Nat.lt_irrefl _)
        · exact behindRun_eq_none_iff.mp hbehind others later hothers
            (List.forall_mem_cons.mp hlonger).2
    · next hother =>
      refine ⟨[], _, rfl, List.forall_mem_nil _, hfound,
        fun longer later hsplit hlonger hlength ↦ ?_⟩
      rcases List.cons_eq_append_iff.mp hsplit with ⟨rfl, -⟩ | ⟨others, rfl, -⟩
      · exact absurd hlength (Nat.lt_irrefl _)
      · exact absurd (List.forall_mem_cons.mp hlonger).1 hother

/-- If a match of a pattern is accepted, one is found. -/
theorem first_ne_none_of_matches {pattern : Pattern} (hmatch : pattern.Matches text rest more)
    (haccept : accept (captures ++ more) rest ≠ none) :
    pattern.first captures text accept ≠ none := by
  induction hmatch generalizing captures accept with
  | one hholds => rwa [first, if_pos hholds, ← List.append_nil captures]
  | exactly => simpa [first, afterText_append] using haccept
  | run hholds =>
    rw [first]
    intro hnone
    refine haccept ?_
    simpa using behindRun_eq_none_iff.mp hnone _ _ rfl hholds
  | thenMatch hbefore hafter ihbefore ihafter =>
    rw [first]
    refine ihbefore (ihafter ?_)
    rwa [List.append_assoc]
  | preferred hmatch ih =>
    rw [first]
    split
    · simp
    · next hnone => exact absurd hnone (ih haccept)
  | other hmatch ih =>
    rw [first]
    split
    · simp
    · exact ih haccept
  | group hmatch ih =>
    rw [first]
    refine ih ?_
    rwa [List.append_assoc]

theorem first_inTurn_nil : (inTurn []).first captures text accept = accept captures text := rfl

/-- The search for patterns in turn searches for the first one, and accepts what the search for the
others finds behind it. -/
theorem first_inTurn_cons {next : Pattern} {others : List Pattern} :
    (inTurn (next :: others)).first captures text accept =
      next.first captures text fun captures rest ↦ (inTurn others).first captures rest accept := by
  cases others with
  | nil => rfl
  | cons second remaining =>
    rw [inTurn]
    · rfl
    · exact List.cons_ne_nil second remaining

/-- The search for patterns in turn searches for those of a first part, and accepts what the search
for the others finds behind them. -/
theorem first_inTurn_append {front back : List Pattern} :
    (inTurn (front ++ back)).first captures text accept =
      (inTurn front).first captures text fun captures rest ↦
        (inTurn back).first captures rest accept := by
  induction front generalizing captures text with
  | nil => rfl
  | cons next others ih => simp only [List.cons_append, first_inTurn_cons, ih]

end Pattern

namespace LinePattern

variable {pattern : LinePattern} {line : List Char}

/-- A pattern that may start only at the beginning of a line is searched for there. -/
theorem first_eq_here (hstart : pattern.atStart = true) (line : List Char) :
    pattern.first line = pattern.here [] line := by
  cases line with
  | nil => rfl
  | cons character rest =>
    rw [first, firstFrom, hstart]
    cases pattern.here [] (character :: rest) <;> rfl

/-- A line has a pattern that may start only at its beginning when it has a match there. -/
theorem matchesLine_iff (hstart : pattern.atStart = true) :
    pattern.matchesLine line = true ↔ ∃ rest captures, pattern.body.Matches line rest captures := by
  rw [matchesLine, first_eq_here hstart, Option.isSome_iff_ne_none]
  constructor
  · intro hsome
    obtain ⟨found, hfound⟩ := Option.ne_none_iff_exists'.mp hsome
    obtain ⟨rest, captures, hmatch, -⟩ := Pattern.exists_matches_of_first hfound
    exact ⟨rest, captures, hmatch⟩
  · rintro ⟨rest, captures, hmatch⟩
    exact Pattern.first_ne_none_of_matches hmatch (Option.some_ne_none _)

end LinePattern

end Roster
