import Mathlib.Data.Int.Notation
import Mathlib.Logic.Relation
import Roster.Proofs.Yaml.Places

/-!
# Turns of the scanner

Taking a token has two parts: the way to its place, on which collections end that the place is not
in (`Scanner.prepare`), and the token itself with those that its place announces (`fetchAt`). A turn
leads from the place of one token to the place of the next one (`Scanner.Turns`). A run of turns
that comes to the end of a text gives the tokens of the text (`scanFrom_of_run`).

Outside of brackets a place is described by `Scanner.inBlock`. This module has the ways to a place,
which only white space is on, and the turns over the marks of items, keys and values.
-/

set_option autoImplicit false
set_option relaxedAutoImplicit false

namespace Roster.Yaml

open Relation (ReflTransGen)

namespace Scanner

/-! ### Turns -/

/-- The place of the next token. The collections that it is not in have ended. -/
def prepare (scanner : Scanner) : Option Scanner := do
  let scanner ← (scanner.toNextToken (scanner.cursor.rest.length + 1)).dropStale
  some (scanner.closeTo scanner.cursor.column)

/-- Taking a token at one place leads to the place of the next one. -/
def Turns (first next : Scanner) : Prop :=
  ∃ taken, first.fetchAt.bind dropStale = some taken ∧ taken.tokens.head? ≠ some .streamEnd ∧
    taken.prepare = some next ∧ next.cursor.rest.length < first.cursor.rest.length

theorem fetch_eq (scanner : Scanner) :
    scanner.fetch = scanner.prepare.bind fun ready ↦ ready.fetchAt.bind dropStale := by
  simp only [fetch, prepare, Option.bind_eq_bind]
  cases (scanner.toNextToken (scanner.cursor.rest.length + 1)).dropStale <;> rfl

/-- No token is lost with the nodes that are forgotten. -/
theorem tokens_of_dropStale {scanner next : Scanner} (hdrop : scanner.dropStale = some next) :
    next.tokens = scanner.tokens := by
  rw [dropStale] at hdrop
  split at hdrop
  · cases hdrop
  · cases hdrop
    rfl

/-- A turn takes one token, which does not end the text. -/
theorem Turns.of_fetchAt {first taken next : Scanner} {token : Token} {others : List Token}
    (hfetch : first.fetchAt = some taken) (htokens : taken.tokens = token :: others)
    (hmore : token ≠ .streamEnd) (hnext : taken.dropStale.bind prepare = some next)
    (hless : next.cursor.rest.length < first.cursor.rest.length) : Turns first next := by
  obtain ⟨settled, hdrop, hprepare⟩ := Option.bind_eq_some_iff.mp hnext
  refine ⟨settled, ?_, ?_, hprepare, hless⟩
  · rw [hfetch, Option.bind_some, hdrop]
  · rw [tokens_of_dropStale hdrop, htokens]
    simpa using hmore

end Scanner

open Scanner

/-- A run of turns to the end of a text gives its tokens. -/
theorem scanFrom_of_run {ready last ended : Scanner} (hrun : ReflTransGen Turns ready last)
    (hended : last.fetchAt.bind dropStale = some ended)
    (hend : ended.tokens.head? = some .streamEnd) :
    ∀ {scanner : Scanner} {fuel : ℕ}, scanner.prepare = some ready →
      ready.cursor.rest.length < fuel → scanFrom fuel scanner = ⟨ended.tokens.reverse, false⟩ := by
  induction hrun using ReflTransGen.head_induction_on with
  | refl =>
    intro scanner fuel hready hfuel
    obtain ⟨fuel, rfl⟩ : ∃ less, fuel = less + 1 := ⟨fuel - 1, by omega⟩
    rw [scanFrom, fetch_eq, hready, Option.bind_some, hended]
    simp [hend]
  | head hturn _ ih =>
    intro scanner fuel hready hfuel
    obtain ⟨fuel, rfl⟩ : ∃ less, fuel = less + 1 := ⟨fuel - 1, by omega⟩
    obtain ⟨taken, htaken, hmore, hprepare, hless⟩ := hturn
    rw [scanFrom, fetch_eq, hready, Option.bind_some, htaken]
    simp only [hmore, if_false]
    exact ih hprepare (by omega)

namespace Scanner

variable {cursor : Cursor} {tokens : List Token} {pending : Option PendingKey} {keyAllowed : Bool}
  {indent : ℤ} {outer : List ℤ} {rest : List Char} {columns : ℕ} {scanner : Scanner}

/-! ### Places outside of brackets -/

/-- A place outside of brackets. -/
def inBlock (cursor : Cursor) (tokens : List Token) (pending : Option PendingKey)
    (keyAllowed : Bool) (indent : ℤ) (outer : List ℤ) : Scanner :=
  ⟨cursor, tokens, tokens.length, pending, [], keyAllowed, indent, outer⟩

theorem allPending_inBlock :
    (inBlock cursor tokens pending keyAllowed indent outer).allPending = pending.toList := by
  cases pending <;> rfl

theorem cursor_closeFrom (column : ℤ) (indents : List ℤ) (scanner : Scanner) :
    (closeFrom column indents scanner).cursor = scanner.cursor := by
  induction indents generalizing scanner with
  | nil =>
    rw [closeFrom]
    split <;> rfl
  | cons outer others ih =>
    rw [closeFrom]
    split
    · rw [ih, push]
    · rfl

/-- Collections end where they are. -/
@[simp] theorem cursor_closeTo (scanner : Scanner) (column : ℤ) :
    (scanner.closeTo column).cursor = scanner.cursor := by
  rw [closeTo]
  split
  · rfl
  · exact cursor_closeFrom column _ scanner

/-- No collection ends that the place is in. -/
theorem closeTo_of_le {column : ℤ} (hle : indent ≤ column) :
    (inBlock cursor tokens pending keyAllowed indent outer).closeTo column =
      inBlock cursor tokens pending keyAllowed indent outer := by
  have hnot : ¬column < indent := by omega
  cases outer <;> simp [closeTo, inFlow, inBlock, closeFrom, hnot]

/-- A collection ends that the place is not in. -/
theorem closeTo_of_lt {column inner : ℤ} (hless : column < inner) :
    (inBlock cursor tokens pending keyAllowed inner (indent :: outer)).closeTo column =
      (inBlock cursor (.blockEnd :: tokens) pending keyAllowed indent outer).closeTo column := by
  simp [closeTo, inFlow, inBlock, closeFrom, hless, push]

/-! ### The way to a token -/

/-- Nothing is forgotten while every remembered node may still become a key. -/
theorem dropStale_of_fresh (hfresh : ∀ key ∈ scanner.allPending, scanner.isStale key = false) :
    scanner.dropStale = some scanner := by
  have hnone : (scanner.allPending.any fun key ↦ scanner.isStale key && key.required) = false := by
    simp only [List.any_eq_false, Bool.and_eq_true, not_and, Bool.not_eq_true]
    exact fun key hmem hstale ↦ absurd hstale (by simp [hfresh key hmem])
  have hkeep (pending : Option PendingKey)
      (hmem : ∀ key ∈ pending, key ∈ scanner.allPending) :
      pending.filter (fun key ↦ !scanner.isStale key) = pending := by
    cases pending with
    | none => rfl
    | some key => simp [Option.filter, hfresh key (hmem key rfl)]
  have houter : scanner.outerPending.map
      (fun pending ↦ pending.filter fun key ↦ !scanner.isStale key) = scanner.outerPending := by
    refine List.map_congr_left (g := id) (fun pending hmem ↦ hkeep pending fun key hkey ↦ ?_)
      |>.trans (List.map_id _)
    simp only [allPending, List.mem_filterMap, id]
    exact ⟨pending, List.mem_cons_of_mem _ hmem, hkey⟩
  rw [dropStale, hnone]
  simp only [Bool.false_eq_true, if_false, houter]
  rw [hkeep scanner.pending fun key hkey ↦ by
    simp only [allPending, List.mem_filterMap, id]
    exact ⟨scanner.pending, List.mem_cons_self, hkey⟩]

/-- Outside of brackets a node is forgotten that no longer can and need not become a key. -/
theorem dropStale_inBlock (hoptional : ∀ key ∈ pending, key.required = false) :
    (inBlock cursor tokens pending keyAllowed indent outer).dropStale =
      some (inBlock cursor tokens
        (pending.filter fun key ↦
          !(inBlock cursor tokens pending keyAllowed indent outer).isStale key)
        keyAllowed indent outer) := by
  cases pending with
  | none => rfl
  | some key => simp [dropStale, allPending, inBlock, hoptional key rfl]

/-- A node that began on an earlier line is forgotten. -/
theorem dropStale_of_line
    (hpending : ∀ key ∈ pending, key.required = false ∧ key.line < cursor.line) :
    (inBlock cursor tokens pending keyAllowed indent outer).dropStale =
      some (inBlock cursor tokens none keyAllowed indent outer) := by
  rw [dropStale_inBlock fun key hkey ↦ (hpending key hkey).1]
  cases pending with
  | none => rfl
  | some key =>
    have hstale :
        (inBlock cursor tokens (some key) keyAllowed indent outer).isStale key = true := by
      simp [isStale, inBlock, (hpending key rfl).2]
    simp [Option.filter, hstale]

/-- The next token is behind the blanks of the line. -/
theorem prepare_blanks (hrest : cursor.rest = indentation columns ++ rest)
    (hbegins : BeginsToken rest) (hindent : indent ≤ cursor.column + columns) :
    (inBlock cursor tokens none keyAllowed indent outer).prepare =
      some (inBlock (cursor.advance columns) tokens none keyAllowed indent outer) := by
  have hway := @toNextToken_indentation (inBlock cursor tokens none keyAllowed indent outer) rest
    columns cursor.rest.length hrest hbegins
  have hclose := @closeTo_of_le (cursor.advance columns) tokens none keyAllowed indent outer
    (cursor.advance columns).column (by simpa [Cursor.advance] using hindent)
  have hsettled := @dropStale_of_line (cursor.advance columns) tokens none keyAllowed indent outer
    (by simp)
  simp only [inBlock] at hway hclose hsettled ⊢
  simp [prepare, hway, hsettled, hclose]

/-- The next token is at the place, on a line behind the remembered node. -/
theorem prepare_place (hpending : ∀ key ∈ pending, key.required = false ∧ key.line < cursor.line)
    (hbegins : BeginsToken cursor.rest) :
    (inBlock cursor tokens pending keyAllowed indent outer).dropStale.bind prepare =
      some ((inBlock cursor tokens none keyAllowed indent outer).closeTo cursor.column) := by
  have hway := @toNextToken_indentation (inBlock cursor tokens none keyAllowed indent outer)
    cursor.rest 0 cursor.rest.length rfl hbegins
  have hsettled := @dropStale_of_line cursor tokens none keyAllowed indent outer (by simp)
  rw [dropStale_of_line hpending, Option.bind_some]
  simp only [inBlock, Cursor.advance_zero] at hway hsettled ⊢
  simp [prepare, hway, hsettled]

/-- The next token is on the next line, where a key may begin. -/
theorem prepare_line (hpending : ∀ key ∈ pending, key.required = false ∧ key.line ≤ cursor.line)
    (hrest : cursor.rest = '\n' :: (indentation columns ++ rest)) (hbegins : BeginsToken rest) :
    (inBlock cursor tokens pending keyAllowed indent outer).dropStale.bind prepare =
      some ((inBlock (cursor.past ('\n' :: indentation columns)) tokens none true indent
        outer).closeTo columns) := by
  rw [dropStale_inBlock fun key hkey ↦ (hpending key hkey).1, Option.bind_some]
  generalize hkept : pending.filter (fun key ↦
    !(inBlock cursor tokens pending keyAllowed indent outer).isStale key) = kept
  have hkeptLine : ∀ key ∈ kept, key.required = false ∧
      key.line < (cursor.past ('\n' :: indentation columns)).line := by
    intro key hkey
    obtain ⟨hrequired, hline⟩ := hpending key (Option.mem_filter_iff.mp (hkept ▸ hkey)).1
    exact ⟨hrequired, Nat.lt_of_le_of_lt hline (cursor.line_lt_past_line columns)⟩
  obtain ⟨length, hlength⟩ : ∃ length, cursor.rest.length = length + 1 := by simp [hrest]
  have hway := @toNextToken_line (inBlock cursor tokens kept keyAllowed indent outer) rest columns
    length hrest hbegins
  have hsettled := @dropStale_of_line (cursor.past ('\n' :: indentation columns)) tokens kept true
    indent outer hkeptLine
  simp only [inBlock] at hway hsettled ⊢
  simp [prepare, hlength, hway, inFlow, hsettled]

/-- The next token is on the next line, in the same collection. -/
theorem prepare_newLine (hrest : cursor.rest = '\n' :: (indentation columns ++ rest))
    (hbegins : BeginsToken rest) (hindent : indent ≤ columns) :
    (inBlock cursor tokens none keyAllowed indent outer).prepare =
      some (inBlock (cursor.past ('\n' :: indentation columns)) tokens none true indent outer) := by
  have hnext := @prepare_line cursor tokens none keyAllowed indent outer rest columns (by simp)
    hrest hbegins
  rwa [dropStale_of_line (by simp), Option.bind_some, closeTo_of_le hindent] at hnext

/-! ### Marks -/

/-- The token that begins a collection, if it is further in than the one around it. -/
def opening (token : Token) (indent : ℤ) (column : ℕ) : List Token :=
  if indent < column then [token] else []

/-- The collections around the one at a column. -/
def enclosing (indent : ℤ) (column : ℕ) (outer : List ℤ) : List ℤ :=
  if indent < column then indent :: outer else outer

@[simp] theorem opening_self (token : Token) (column : ℕ) : opening token column column = [] :=
  if_neg (Int.lt_irrefl _)

@[simp] theorem enclosing_self (column : ℕ) (outer : List ℤ) :
    enclosing column column outer = outer :=
  if_neg (Int.lt_irrefl _)

/-- A token is put before the last tokens. -/
theorem insertAt_inBlock (recent : List Token) (token : Token) :
    (inBlock cursor (recent ++ tokens) pending keyAllowed indent outer).insertAt tokens.length
        token =
      inBlock cursor (recent ++ token :: tokens) pending keyAllowed indent outer := by
  have hinsert : (recent ++ tokens).insertIdx recent.length token = recent ++ token :: tokens := by
    induction recent with
    | nil => rfl
    | cons first others ih => simp [ih]
  simp [insertAt, inBlock, hinsert, Nat.add_assoc]

/-- A collection begins before the last tokens, if it is further in. -/
theorem openAt_inBlock {column : ℕ} (recent : List Token) (token : Token)
    (hle : indent ≤ column) :
    (inBlock cursor (recent ++ tokens) pending keyAllowed indent outer).openAt column tokens.length
        token =
      inBlock cursor (recent ++ (opening token indent column ++ tokens)) pending keyAllowed column
        (enclosing indent column outer) := by
  by_cases hless : indent < column
  · simp only [openAt, insertAt_inBlock]
    simp [inBlock, inFlow, opening, enclosing, hless]
  · have hsame : indent = column := by omega
    simp [openAt, inBlock, inFlow, opening, enclosing, hsame]

/-- A mark with its token and the token of the collections that it stands in. -/
inductive Mark : Char → Token → Token → Prop
  /-- A hyphen before an item. -/
  | item : Mark '-' .blockEntry .blockSequenceStart
  /-- A question mark before a key. -/
  | key : Mark '?' .key .blockMappingStart
  /-- A colon before the value of such a key. -/
  | value : Mark ':' .value .blockMappingStart

/-- A mark is taken. Its collection begins there, if it has not begun yet. -/
theorem fetchAt_mark {character : Char} {token collection : Token}
    (hmark : Mark character token collection) (hrest : cursor.rest = character :: ' ' :: rest)
    (hindent : indent ≤ cursor.column) :
    (inBlock cursor tokens none true indent outer).fetchAt =
      some (inBlock cursor.skip (token :: (opening collection indent cursor.column ++ tokens)) none
        true cursor.column (enclosing indent cursor.column outer)) := by
  have hopen := @openAt_inBlock cursor tokens none true indent outer cursor.column [] collection
    hindent
  have hblank : isGap ' ' = true := by decide
  have hmarker (other : Char) (hother : other ≠ ' ') : cursor.isAtMarker other = false :=
    Cursor.isAtMarker_eq_false (by simp [hrest, hother.symm])
  simp only [List.nil_append] at hopen
  generalize hopened : opening collection indent cursor.column ++ tokens = opened at hopen ⊢
  cases hmark <;>
    simp [fetchAt, inBlock, hmarker, hrest, atGap, hblank, inFlow, fetchBlockEntry, fetchKey,
      fetchValue, dropPending, pushMark, push, Cursor.skip] at hopen ⊢ <;>
    simp [hopen]

/-- From a mark the scanner goes on to what stands behind the blank. -/
theorem turns_mark {character : Char} {token collection : Token}
    (hmark : Mark character token collection) (hrest : cursor.rest = character :: ' ' :: rest)
    (hbegins : BeginsToken rest) (hindent : indent ≤ cursor.column) :
    Turns (inBlock cursor tokens none true indent outer)
      (inBlock (cursor.past [character, ' '])
        (token :: (opening collection indent cursor.column ++ tokens)) none true cursor.column
        (enclosing indent cursor.column outer)) := by
  have hline : ∀ other ∈ [character, ' '], isBreak other = false := by
    cases hmark <;> simp [isBreak]
  have hpast : cursor.past [character, ' '] = cursor.skip.advance 1 := by
    rw [cursor.past_eq_advance hline, Cursor.skip, Cursor.advance_advance]
    rfl
  have hbehind : cursor.skip.rest = indentation 1 ++ rest := by
    simp [Cursor.skip, Cursor.advance, hrest, indentation]
  have hmore : token ≠ .streamEnd := by
    cases hmark <;> simp
  refine .of_fetchAt (fetchAt_mark hmark hrest hindent) rfl hmore ?_ ?_
  · rw [dropStale_of_line (by simp), Option.bind_some, hpast,
      prepare_blanks hbehind hbegins (by simp only [Cursor.skip, Cursor.advance]; omega)]
  · simp only [inBlock, Cursor.rest_past, hrest, List.length_drop, List.length_cons]
    omega

end Scanner

end Roster.Yaml
