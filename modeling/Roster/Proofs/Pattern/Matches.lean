import Roster.Pattern

/-!
# What a pattern matches

`Pattern.Matches` relates a pattern to a text, the rest behind a match at the start of the text, and
the groups of the match, whatever order the pattern prefers its matches in. The search for the
preferred match finds only such matches (`Pattern.exists_matches_of_first`).

Some groups are in every match, namely those outside all choices (`Pattern.certainNames`). A line
that a pattern is found in has therefore a text for each of them
(`LinePattern.exists_capture?`).
-/

set_option autoImplicit false
set_option relaxedAutoImplicit false

namespace Roster

namespace Pattern

/-- A pattern matches at the start of a text, with a rest behind the match and the groups of the
match. -/
inductive Matches : Pattern → List Char → List Char → Captures → Prop
  /-- A character of a class. -/
  | one {characters : CharacterClass} {character : Char} {rest : List Char}
      (hholds : characters.holds character = true) :
      Matches (.one characters) (character :: rest) rest []
  /-- A fixed text. -/
  | exactly {expected rest : List Char} : Matches (.exactly expected) (expected ++ rest) rest []
  /-- Some characters of a class. -/
  | run {characters : CharacterClass} {taken rest : List Char}
      (hholds : ∀ character ∈ taken, characters.holds character = true) :
      Matches (.run characters) (taken ++ rest) rest []
  /-- Two matches, one behind the other. -/
  | thenMatch {before after : Pattern} {text middle rest : List Char} {earlier later : Captures}
      (hbefore : Matches before text middle earlier) (hafter : Matches after middle rest later) :
      Matches (.thenMatch before after) text rest (earlier ++ later)
  /-- A match of the preferred branch. -/
  | preferred {preferred other : Pattern} {text rest : List Char} {captures : Captures}
      (hmatch : Matches preferred text rest captures) :
      Matches (.orElse preferred other) text rest captures
  /-- A match of the other branch. -/
  | other {preferred other : Pattern} {text rest : List Char} {captures : Captures}
      (hmatch : Matches other text rest captures) :
      Matches (.orElse preferred other) text rest captures
  /-- A match with its text under a name. -/
  | group {name : String} {body : Pattern} {text rest : List Char} {captures : Captures}
      (hmatch : Matches body text rest captures) :
      Matches (.group name body) text rest
        (captures ++ [(name, text.take (text.length - rest.length))])

variable {Result : Type} {result : Result}

theorem eq_append_of_afterText {expected text rest : List Char}
    (hafter : afterText expected text = some rest) : text = expected ++ rest := by
  fun_induction afterText expected text with
  | case1 text => exact Option.some.inj hafter
  | case2 => cases hafter
  | case3 expected others text ih => rw [ih hafter, List.cons_append]
  | case4 => cases hafter

/-- What is accepted behind a run stands behind characters of its class. -/
theorem exists_run_of_behindRun {characters : CharacterClass} {accept : List Char → Option Result}
    {text : List Char} (hfound : behindRun characters accept text = some result) :
    ∃ taken rest, text = taken ++ rest ∧
      (∀ character ∈ taken, characters.holds character = true) ∧ accept rest = some result := by
  induction text with
  | nil => exact ⟨[], [], rfl, List.forall_mem_nil _, hfound⟩
  | cons character rest ih =>
    rw [behindRun] at hfound
    split at hfound
    · next hholds =>
      split at hfound
      · next longer hlonger =>
        cases hfound
        obtain ⟨taken, behind, rfl, htaken, haccept⟩ := ih hlonger
        exact ⟨character :: taken, behind, rfl, List.forall_mem_cons.mpr ⟨hholds, htaken⟩, haccept⟩
      · exact ⟨[], _, rfl, List.forall_mem_nil _, hfound⟩
    · exact ⟨[], _, rfl, List.forall_mem_nil _, hfound⟩

/-- What is found for a pattern was accepted for one of its matches. -/
theorem exists_matches_of_first {pattern : Pattern} {captures : Captures} {text : List Char}
    {accept : Captures → List Char → Option Result}
    (hfound : pattern.first captures text accept = some result) :
    ∃ rest more, pattern.Matches text rest more ∧ accept (captures ++ more) rest = some result := by
  induction pattern generalizing captures text accept with
  | one characters =>
    cases text with
    | nil => cases hfound
    | cons character rest =>
      rw [first] at hfound
      split at hfound
      · next hholds => exact ⟨rest, [], .one hholds, by rwa [List.append_nil]⟩
      · cases hfound
  | exactly expected =>
    rw [first] at hfound
    split at hfound
    · next rest hrest =>
      rw [eq_append_of_afterText hrest]
      exact ⟨rest, [], .exactly, by rwa [List.append_nil]⟩
    · cases hfound
  | run characters =>
    obtain ⟨taken, rest, rfl, htaken, haccept⟩ := exists_run_of_behindRun hfound
    exact ⟨rest, [], .run htaken, by rwa [List.append_nil]⟩
  | thenMatch before after ihbefore ihafter =>
    obtain ⟨middle, earlier, hbefore, hbehind⟩ := ihbefore hfound
    obtain ⟨rest, later, hafter, haccept⟩ := ihafter hbehind
    exact ⟨rest, earlier ++ later, .thenMatch hbefore hafter, by rwa [← List.append_assoc]⟩
  | orElse preferred other ihpreferred ihother =>
    rw [first] at hfound
    split at hfound
    · next found hpreferred =>
      cases hfound
      obtain ⟨rest, more, hmatch, haccept⟩ := ihpreferred hpreferred
      exact ⟨rest, more, .preferred hmatch, haccept⟩
    · obtain ⟨rest, more, hmatch, haccept⟩ := ihother hfound
      exact ⟨rest, more, .other hmatch, haccept⟩
  | group name body ih =>
    obtain ⟨rest, more, hmatch, haccept⟩ := ih hfound
    exact ⟨rest, _, .group hmatch, by rwa [← List.append_assoc]⟩

/-- The names of the groups outside all choices. -/
def certainNames : Pattern → List String
  | .one _ | .exactly _ | .run _ | .orElse _ _ => []
  | .thenMatch before after => before.certainNames ++ after.certainNames
  | .group name body => name :: body.certainNames

/-- A match has a text for each group outside all choices. -/
theorem Matches.certain {pattern : Pattern} {text rest : List Char} {captures : Captures}
    (hmatch : pattern.Matches text rest captures) :
    ∀ name ∈ pattern.certainNames, name ∈ captures.map Prod.fst := by
  induction hmatch with
  | one | exactly | run | preferred | other => exact List.forall_mem_nil _
  | thenMatch _ _ ihbefore ihafter =>
    intro name hname
    rw [List.map_append, List.mem_append]
    exact (List.mem_append.mp hname).imp (ihbefore name) (ihafter name)
  | group _ ih =>
    intro name hname
    rw [List.map_append, List.mem_append]
    rcases List.mem_cons.mp hname with rfl | hbody
    · exact .inr List.mem_cons_self
    · exact .inl (ih name hbody)

end Pattern

namespace LinePattern

variable {pattern : LinePattern} {before line : List Char} {found : LineMatch}

/-- What is found from some place on is a match at that place or behind it. -/
theorem exists_matches_of_firstFrom (hfound : pattern.firstFrom before line = some found) :
    ∃ text rest, pattern.body.Matches text rest found.captures := by
  have hhere {before text : List Char} (hplace : pattern.here before text = some found) :
      ∃ text rest, pattern.body.Matches text rest found.captures := by
    obtain ⟨rest, captures, hmatch, haccept⟩ := Pattern.exists_matches_of_first hplace
    cases haccept
    exact ⟨text, rest, hmatch⟩
  induction line generalizing before with
  | nil => exact hhere hfound
  | cons character rest ih =>
    rw [firstFrom] at hfound
    split at hfound
    · next hplace =>
      cases hfound
      exact hhere hplace
    · split at hfound
      · cases hfound
      · exact ih hfound

/-- A line that a pattern is found in has a text for each group outside all choices. -/
theorem exists_capture? (hfound : pattern.first line = some found) {name : String}
    (hname : name ∈ pattern.body.certainNames) : ∃ text, found.capture? name = some text := by
  obtain ⟨_, _, hmatch⟩ := exists_matches_of_firstFrom hfound
  obtain ⟨capture, hcapture, rfl⟩ := List.mem_map.mp (hmatch.certain name hname)
  have hsome : (found.captures.find? fun other ↦ other.1 = capture.1).isSome = true :=
    List.find?_isSome.mpr ⟨capture, hcapture, decide_eq_true rfl⟩
  obtain ⟨other, hother⟩ := Option.isSome_iff_exists.mp hsome
  exact ⟨other.2, by rw [LineMatch.capture?, hother, Option.map_some]⟩

end LinePattern

end Roster
