import Roster.Proofs.Yaml.ScannerTurns
import Roster.Proofs.Yaml.WrittenScalars

/-!
# Leaves are scanned as they are written

A leaf of a tree is a scalar or an empty collection. At the end of its line the scanner takes it and
goes on to the next line (`run_scalar`, `run_leaf_line`). As a simple key it is remembered until its
colon comes, which puts the token of a key before it and begins the mapping if that has not begun
yet (`run_leaf_key`).

A plain scalar is read with the white space behind it, the others are not. `leaf_taken` has both
cases in one.
-/

set_option autoImplicit false
set_option relaxedAutoImplicit false

namespace Roster.Yaml

open Relation (ReflTransGen)

namespace Scanner

variable {cursor : Cursor} {tokens : List Token} {keyAllowed broken : Bool} {indent : ℤ}
  {outer : List ℤ} {columns column : ℕ} {style : ScalarStyle}
  {text raw rest after consumed : List Char}

/-! ### Remembered nodes -/

/-- What is remembered of a node that begins at a place. -/
def candidate (cursor : Cursor) (tokens : List Token) (keyAllowed : Bool) (indent : ℤ) :
    Option PendingKey :=
  if keyAllowed then
    some ⟨tokens.length, cursor.index, cursor.line, cursor.column, indent = cursor.column⟩
  else none

/-- A node need not become a key, if it is further in than its collection. -/
theorem of_mem_candidate (hcolumn : indent < cursor.column) {key : PendingKey}
    (hkey : key ∈ candidate cursor tokens keyAllowed indent) :
    key.required = false ∧ key.line = cursor.line := by
  cases keyAllowed with
  | false => simp [candidate] at hkey
  | true =>
    obtain rfl : _ = key := Option.some.inj hkey
    simp [Int.ne_of_lt hcolumn]

/-- A node is remembered where a key may begin. -/
theorem remember_inBlock :
    (inBlock cursor tokens none keyAllowed indent outer).remember =
      some (inBlock cursor tokens (candidate cursor tokens keyAllowed indent) keyAllowed indent
        outer) := by
  cases keyAllowed <;> rfl

/-- A node that began on the line may still become a key. -/
theorem isStale_candidate {scanner : Scanner} (hline : scanner.cursor.line = cursor.line)
    (hindex : scanner.cursor.index ≤ cursor.index + 1024) :
    ∀ key ∈ candidate cursor tokens keyAllowed indent, scanner.isStale key = false := by
  intro key hkey
  cases keyAllowed with
  | false => cases hkey
  | true =>
    cases hkey
    simp [isStale, hline, hindex]

/-! ### Scalars -/

/-- What may follow a plain scalar continues neither a mark between documents nor a quote. -/
theorem head?_of_plainEnd (hend : PlainEnd indent after consumed broken) :
    after.head? ≠ some '-' ∧ after.head? ≠ some '.' ∧ after.head? ≠ some '\'' := by
  cases hend <;> simp

/-- A character without a meaning at the start of a text has none with more behind the text. -/
theorem isFirstIndicator_append {first : Char} {others : List Char}
    (hfirst : isFirstIndicator first others = false) (after : List Char) :
    isFirstIndicator first (others ++ after) = false := by
  cases others with
  | nil =>
    simp only [isFirstIndicator, atGap, Bool.and_true, Bool.or_eq_false_iff] at hfirst
    simp only [isFirstIndicator, hfirst, Bool.or_self, Bool.false_and]
  | cons other more => exact hfirst

/-- What has no meaning of its own begins a plain scalar. -/
theorem fetchAt_eq_fetchPlain {first : Char} (hrest : cursor.rest = first :: rest)
    (hgap : isGap first = false) (hfirst : isFirstIndicator first rest = false)
    (hhyphens : cursor.isAtMarker '-' = false) (hdots : cursor.isAtMarker '.' = false) :
    (inBlock cursor tokens none keyAllowed indent outer).fetchAt =
      (inBlock cursor tokens none keyAllowed indent outer).fetchPlain := by
  simp only [isFirstIndicator, Bool.or_eq_false_iff, List.contains_eq_mem,
    decide_eq_false_iff_not, Bool.and_eq_false_iff] at hfirst
  obtain ⟨hlist, hmarks⟩ := hfirst
  have hplain : mayBeginPlain false first rest = true := by
    have hspace (hnone : atGap rest = false) : rest.head?.any isSpace = false := by
      cases rest with
      | nil => rfl
      | cons other more => exact (isGap_eq_false_iff.mp hnone).1
    simp only [mayBeginPlain]
    grind
  simp at hlist
  simp only [fetchAt, inBlock, inFlow, hrest, hhyphens, hdots]
  simp [hlist, hplain]
  grind

/-- A plain scalar is taken. -/
theorem fetchAt_plain (hplain : WrittenPlain text)
    (hend : PlainEnd (indent + 1) after consumed broken) (hrest : cursor.rest = text ++ after)
    (hcolumn : indent ≤ cursor.column) :
    (inBlock cursor tokens none keyAllowed indent outer).fetchAt =
      some (inBlock (cursor.past (text ++ consumed)) (.scalar .plain text :: tokens)
        (candidate cursor tokens keyAllowed indent) broken indent outer) := by
  obtain ⟨hhyphen, hdot, -⟩ := head?_of_plainEnd hend
  have hhyphens : cursor.isAtMarker '-' = false :=
    Cursor.isAtMarker_eq_false (hrest ▸ take_three_append_ne hplain.hyphens hhyphen)
  have hdots : cursor.isAtMarker '.' = false :=
    Cursor.isAtMarker_eq_false (hrest ▸ take_three_append_ne hplain.dots hdot)
  obtain ⟨gap, hread, hbroken⟩ := readPlain_eq hplain.toPlainText hend hrest
    (by simp [Cursor.isAtDocumentMarker, hhyphens, hdots]) (by omega)
  have hfetch : (inBlock cursor tokens none keyAllowed indent outer).fetchPlain =
      some (inBlock (cursor.past (text ++ consumed)) (.scalar .plain text :: tokens)
        (candidate cursor tokens keyAllowed indent) broken indent outer) := by
    simp only [fetchPlain, remember_inBlock, Option.bind_eq_bind, Option.bind_some]
    simp [inBlock, inFlow, hread, hbroken, push]
  obtain ⟨first, others, rfl⟩ := List.exists_cons_of_ne_nil hplain.nonempty
  obtain ⟨hstands, hbreak⟩ := hplain.characters first List.mem_cons_self
  have hgap := isGap_of_standsForItself hstands hbreak (hplain.head first rfl)
  have hindicator := isFirstIndicator_append (hplain.first first rfl) after
  rw [fetchAt_eq_fetchPlain hrest hgap hindicator hhyphens hdots, hfetch]

/-- A quoted scalar is taken. -/
theorem fetchAt_quoted {quote : Char}
    (hstyle : quote = '\'' ∧ style = .singleQuoted ∨ quote = '"' ∧ style = .doubleQuoted)
    (hquoted : Quoted quote raw text) (hrest : cursor.rest = quote :: (raw ++ quote :: rest))
    (hnext : rest.head? ≠ some '\'') :
    (inBlock cursor tokens none keyAllowed indent outer).fetchAt =
      some (inBlock (cursor.past (quote :: (raw ++ [quote]))) (.scalar style text :: tokens)
        (candidate cursor tokens keyAllowed indent) false indent outer) := by
  have hread := readQuoted_eq (hstyle.imp And.left And.left) hquoted hrest fun _ ↦ hnext
  have hfetch : (inBlock cursor tokens none keyAllowed indent outer).fetchQuoted quote style =
      some (inBlock (cursor.past (quote :: (raw ++ [quote]))) (.scalar style text :: tokens)
        (candidate cursor tokens keyAllowed indent) false indent outer) := by
    simp only [fetchQuoted, remember_inBlock, Option.bind_eq_bind, Option.bind_some]
    simp [inBlock, hread, push]
  rw [← hfetch]
  rcases hstyle with ⟨rfl, rfl⟩ | ⟨rfl, rfl⟩ <;>
    simp [fetchAt, inBlock, hrest, Cursor.isAtMarker_eq_false]

/-- A block is taken up to the line behind it. -/
theorem fetchAt_block (hparent : indent + 2 = columns) (hinside : 0 ≤ indent) (hsome : text ≠ [])
    (hstands : ∀ character ∈ text, standsForItself character = true)
    (hbegins : BeginsToken rest) (hless : column ≤ indent)
    (hrest : cursor.rest = '|' :: (blockHeader text ++ '\n' ::
      (blockLinesFrom columns true text ++ (closing text ++ (indentation column ++ rest))))) :
    (inBlock cursor tokens none keyAllowed indent outer).fetchAt =
      some (inBlock (cursor.past ('|' :: (blockHeader text ++ '\n' ::
          (blockLinesFrom columns true text ++ (closing text ++ indentation column)))))
        (.scalar .literal text :: tokens) none true indent outer) := by
  have hread := readBlock_eq hparent hinside hsome hstands hbegins (by omega) hrest
  have hfetch : (inBlock cursor tokens none keyAllowed indent outer).fetchBlockScalar .literal =
      some (inBlock (cursor.past ('|' :: (blockHeader text ++ '\n' ::
          (blockLinesFrom columns true text ++ (closing text ++ indentation column)))))
        (.scalar .literal text :: tokens) none true indent outer) := by
    simp [fetchBlockScalar, dropPending, inBlock, hread, push]
  rw [← hfetch]
  simp [fetchAt, inBlock, hrest, inFlow, Cursor.isAtMarker_eq_false]

/-! ### Empty collections -/

/-- The brackets of an empty collection with their tokens. -/
inductive Brackets : Char → Char → Token → Token → Prop
  /-- The brackets of a sequence. -/
  | sequence : Brackets '[' ']' .flowSequenceStart .flowSequenceEnd
  /-- The braces of a mapping. -/
  | mapping : Brackets '{' '}' .flowMappingStart .flowMappingEnd

/-- A place inside the brackets of an empty collection. -/
def inBrackets (cursor : Cursor) (tokens : List Token) (node : Option PendingKey)
    (indent : ℤ) (outer : List ℤ) : Scanner :=
  ⟨cursor, tokens, tokens.length, none, [node], true, indent, outer⟩

theorem allPending_inBrackets (node : Option PendingKey) :
    (inBrackets cursor tokens node indent outer).allPending = node.toList := by
  cases node <;> rfl

/-- Inside of brackets nothing ends and nothing is forgotten. -/
theorem prepare_inBrackets {origin : Cursor} {before : List Token}
    (hline : cursor.line = origin.line) (hindex : cursor.index ≤ origin.index + 1024)
    (hbegins : BeginsToken cursor.rest) :
    (inBrackets cursor tokens (candidate origin before keyAllowed indent) indent
        outer).dropStale.bind prepare =
      some (inBrackets cursor tokens (candidate origin before keyAllowed indent) indent outer) := by
  generalize hnode : candidate origin before keyAllowed indent = node
  have hdrop : (inBrackets cursor tokens node indent outer).dropStale =
      some (inBrackets cursor tokens node indent outer) := by
    refine dropStale_of_fresh fun key hmem ↦ ?_
    rw [allPending_inBrackets, Option.mem_toList, ← hnode] at hmem
    exact isStale_candidate hline hindex key hmem
  have hway := @toNextToken_indentation (inBrackets cursor tokens node indent outer) cursor.rest 0
    cursor.rest.length rfl hbegins
  rw [hdrop, Option.bind_some, prepare]
  simp only [inBrackets, Cursor.advance_zero] at hway hdrop ⊢
  simp [hway, hdrop, closeTo, inFlow]

/-- An opening bracket leads into the brackets. -/
theorem turns_openBracket {first last : Char} {start stop : Token}
    (hbrackets : Brackets first last start stop) (hrest : cursor.rest = first :: last :: rest) :
    Turns (inBlock cursor tokens none keyAllowed indent outer)
      (inBrackets cursor.skip (start :: tokens) (candidate cursor tokens keyAllowed indent) indent
        outer) := by
  have hfetch : (inBlock cursor tokens none keyAllowed indent outer).fetchAt =
      some (inBrackets cursor.skip (start :: tokens) (candidate cursor tokens keyAllowed indent)
        indent outer) := by
    have hremember := @remember_inBlock cursor tokens keyAllowed indent outer
    cases hbrackets <;>
      simp [fetchAt, inBlock, hrest, Cursor.isAtMarker_eq_false, fetchFlowStart] at hremember ⊢ <;>
      simp [hremember, inBrackets, pushMark, push, Cursor.skip]
  have hmore : start ≠ .streamEnd := by
    cases hbrackets <;> simp
  have hbegins : BeginsToken cursor.skip.rest := by
    have hbehind : cursor.skip.rest = last :: rest := by
      simp [Cursor.skip, Cursor.advance, hrest]
    rw [hbehind]
    cases hbrackets <;> exact ⟨by decide, by decide, by decide⟩
  refine .of_fetchAt hfetch rfl hmore (prepare_inBrackets rfl ?_ hbegins) ?_
  · simp [Cursor.skip, Cursor.advance]
  · simp [inBrackets, inBlock, Cursor.skip, Cursor.advance, hrest]

/-- A closing bracket leads out of the brackets. -/
theorem fetchAt_closeBracket {first last : Char} {start stop : Token} {node : Option PendingKey}
    (hbrackets : Brackets first last start stop) (hrest : cursor.rest = last :: rest) :
    (inBrackets cursor tokens node indent outer).fetchAt =
      some (inBlock cursor.skip (stop :: tokens) node false indent outer) := by
  cases hbrackets <;>
    simp [fetchAt, inBrackets, hrest, Cursor.isAtMarker_eq_false, fetchFlowEnd, dropPending,
      pushMark, push, inBlock, Cursor.skip]

/-! ### Leaves -/

/-- The tokens of a leaf that ends on the line that it begins on or within quotes, and its text. -/
inductive WrittenLeaf (columns : ℕ) : List Token → List Char → Prop
  /-- A scalar that is no block. -/
  | scalar {style : ScalarStyle} {text raw : List Char}
    (hwritten : WrittenScalar columns style text raw) (hline : style ≠ .literal) :
    WrittenLeaf columns [.scalar style text] raw
  /-- An empty collection. -/
  | empty {first last : Char} {start stop : Token}
    (hbrackets : Brackets first last start stop) : WrittenLeaf columns [start, stop] [first, last]

/-- A leaf is taken, with the line break behind it if it is a plain scalar. -/
theorem leaf_taken {leaf : List Token} (hleaf : WrittenLeaf columns leaf raw)
    (hend : PlainEnd (indent + 1) after consumed broken) (hrest : cursor.rest = raw ++ after)
    (hcolumn : indent ≤ cursor.column) :
    ∃ last used allowed, ReflTransGen Turns (inBlock cursor tokens none keyAllowed indent outer)
        last ∧
      (used = consumed ∧ allowed = broken ∨ used = [] ∧ allowed = false) ∧
      last.fetchAt = some (inBlock (cursor.past (raw ++ used)) (leaf.reverse ++ tokens)
        (candidate cursor tokens keyAllowed indent) allowed indent outer) ∧
      after.length < last.cursor.rest.length := by
  obtain ⟨-, -, hquote⟩ := head?_of_plainEnd hend
  cases hleaf with
  | @scalar style text _ hwritten hline =>
    have hless : after.length < cursor.rest.length := by
      obtain ⟨first, others, hraw, -⟩ := hwritten.beginsToken
      rw [hrest, hraw, List.length_append, List.length_cons]
      omega
    cases hwritten with
    | plain hplain =>
      exact ⟨_, consumed, broken, .refl, Or.inl ⟨rfl, rfl⟩,
        fetchAt_plain hplain hend hrest hcolumn, hless⟩
    | singleQuoted hquoted =>
      refine ⟨_, [], false, .refl, Or.inr ⟨rfl, rfl⟩, ?_, hless⟩
      rw [List.append_nil]
      exact fetchAt_quoted (Or.inl ⟨rfl, rfl⟩) hquoted (by simpa using hrest) hquote
    | doubleQuoted =>
      refine ⟨_, [], false, .refl, Or.inr ⟨rfl, rfl⟩, ?_, hless⟩
      rw [List.append_nil]
      exact fetchAt_quoted (Or.inr ⟨rfl, rfl⟩) (quoted_doubleQuoted text) (by simpa using hrest)
        hquote
    | literal => exact absurd rfl hline
  | @empty first last start stop hbrackets =>
    have hbehind : cursor.skip.rest = last :: after := by
      simp [Cursor.skip, Cursor.advance, hrest]
    have hpast : cursor.past [first, last] = cursor.skip.skip := by
      have hline : ∀ character ∈ [first, last], isBreak character = false := by
        cases hbrackets <;> simp [isBreak]
      rw [cursor.past_eq_advance hline, Cursor.skip, Cursor.skip, Cursor.advance_advance]
      rfl
    refine ⟨_, [], false, .single (turns_openBracket hbrackets hrest), Or.inr ⟨rfl, rfl⟩, ?_, ?_⟩
    · rw [List.append_nil, hpast]
      exact fetchAt_closeBracket hbrackets hbehind
    · simp [inBrackets, hbehind]

/-- A leaf begins with a character that begins a token. -/
theorem WrittenLeaf.beginsToken {leaf : List Token} (hleaf : WrittenLeaf columns leaf raw) :
    ∃ first others, raw = first :: others ∧ BeginsToken raw := by
  cases hleaf with
  | scalar hwritten => exact hwritten.beginsToken
  | @empty first last _ _ hbrackets =>
    refine ⟨first, [last], rfl, ?_⟩
    cases hbrackets <;> exact ⟨by decide, by decide, by decide⟩

/-- A token of a leaf does not end the text. -/
theorem WrittenLeaf.exists_reverse_eq_cons {leaf : List Token}
    (hleaf : WrittenLeaf columns leaf raw) :
    ∃ token others, leaf.reverse = token :: others ∧ token ≠ .streamEnd := by
  cases hleaf with
  | scalar => exact ⟨_, [], rfl, by simp⟩
  | @empty _ _ start stop hbrackets => exact ⟨stop, [start], rfl, by cases hbrackets <;> simp⟩

/-- From a leaf at the end of its line the scanner goes on to the next line. -/
theorem run_leaf_line {leaf : List Token} (hleaf : WrittenLeaf columns leaf raw)
    (hrest : cursor.rest = raw ++ '\n' :: (indentation column ++ rest))
    (hbegins : BeginsToken rest) (hless : column ≤ indent) (hcolumn : indent < cursor.column) :
    ReflTransGen Turns (inBlock cursor tokens none keyAllowed indent outer)
      ((inBlock (cursor.past (raw ++ '\n' :: indentation column)) (leaf.reverse ++ tokens) none true
        indent outer).closeTo column) := by
  have hend : PlainEnd (indent + 1) ('\n' :: (indentation column ++ rest))
      ('\n' :: indentation column) true := .line (by omega) hbegins
  obtain ⟨last, used, allowed, hrun, hused, hfetch, hmore⟩ :=
    leaf_taken hleaf hend hrest (by omega)
  obtain ⟨token, others, htokens, htoken⟩ := hleaf.exists_reverse_eq_cons
  have hline := cursor.line_le_past raw
  refine hrun.tail (.of_fetchAt hfetch (by simp only [inBlock, htokens, List.cons_append]; rfl)
    htoken ?_ ?_)
  · rcases hused with ⟨rfl, rfl⟩ | ⟨rfl, rfl⟩
    · -- The line break and the indentation behind it were read with the leaf.
      have hbehind : (cursor.past (raw ++ '\n' :: indentation column)).rest = rest :=
        Cursor.rest_past_of_eq (by simpa using hrest)
      have hplace : (cursor.past (raw ++ '\n' :: indentation column)).column = column := by
        rw [Cursor.past_append, Cursor.column_past_line]
      rw [prepare_place (fun key hkey ↦ ?_) (hbehind.symm ▸ hbegins), hplace]
      obtain ⟨hrequired, hstart⟩ := of_mem_candidate hcolumn hkey
      refine ⟨hrequired, ?_⟩
      rw [Cursor.past_append]
      have := (cursor.past raw).line_lt_past_line column
      omega
    · have hbehind : (cursor.past raw).rest = '\n' :: (indentation column ++ rest) :=
        Cursor.rest_past_of_eq hrest
      rw [List.append_nil, prepare_line (fun key hkey ↦ ?_) hbehind hbegins, ← Cursor.past_append]
      obtain ⟨hrequired, hstart⟩ := of_mem_candidate hcolumn hkey
      exact ⟨hrequired, by omega⟩
  · have hbehind : (cursor.past (raw ++ '\n' :: indentation column)).rest = rest :=
      Cursor.rest_past_of_eq (by simpa using hrest)
    simp only [cursor_closeTo, inBlock, hbehind]
    simp only [List.length_cons, List.length_append] at hmore
    omega

/-- From a block the scanner goes on to the line behind it. -/
theorem turns_block (hparent : indent + 2 = columns) (hinside : 0 ≤ indent) (hsome : text ≠ [])
    (hstands : ∀ character ∈ text, standsForItself character = true)
    (hbegins : BeginsToken rest) (hless : column ≤ indent)
    (hrest : cursor.rest = endLine ('|' :: (blockHeader text ++ '\n' ::
      blockLinesFrom columns true text)) ++ (indentation column ++ rest)) :
    Turns (inBlock cursor tokens none keyAllowed indent outer)
      ((inBlock (cursor.past (endLine ('|' :: (blockHeader text ++ '\n' ::
          blockLinesFrom columns true text)) ++ indentation column))
        (.scalar .literal text :: tokens) none true indent outer).closeTo column) := by
  have hwritten : WrittenScalar columns .literal text _ := .literal hsome hstands
  have hplace := hwritten.isLines_endLine.column_past cursor column
  have hbehind := Cursor.rest_past_of_eq (by rwa [← List.append_assoc] at hrest)
  have hsplit : endLine ('|' :: (blockHeader text ++ '\n' :: blockLinesFrom columns true text)) ++
      indentation column = '|' :: (blockHeader text ++ '\n' ::
        (blockLinesFrom columns true text ++ (closing text ++ indentation column))) := by
    simp [endLine_block hsome]
  rw [← List.append_assoc, hsplit] at hrest
  rw [hsplit] at hplace hbehind ⊢
  have hfetch := @fetchAt_block cursor tokens keyAllowed indent outer columns column text rest
    hparent hinside hsome hstands hbegins hless (by simpa using hrest)
  refine .of_fetchAt hfetch rfl (by simp) ?_ ?_
  · rw [prepare_place (by simp) (hbehind.symm ▸ hbegins), hplace]
  · simp only [cursor_closeTo, inBlock, hbehind, hrest, List.length_append, List.length_cons]
    omega

/-- From a scalar at the end of its line the scanner goes on to the next line. -/
theorem run_scalar (hwritten : WrittenScalar columns style text raw)
    (hparent : indent + 2 = columns) (hinside : 0 ≤ indent)
    (hrest : cursor.rest = endLine raw ++ (indentation column ++ rest))
    (hbegins : BeginsToken rest) (hless : column ≤ indent) (hcolumn : indent < cursor.column) :
    ReflTransGen Turns (inBlock cursor tokens none keyAllowed indent outer)
      ((inBlock (cursor.past (endLine raw ++ indentation column)) (.scalar style text :: tokens)
        none true indent outer).closeTo column) := by
  by_cases hblock : style = .literal
  · subst hblock
    cases hwritten with
    | literal hsome hstands =>
      exact .single (turns_block hparent hinside hsome hstands hbegins hless hrest)
  · rw [hwritten.endLine_eq hblock, List.append_assoc, List.singleton_append] at hrest ⊢
    exact run_leaf_line (.scalar hwritten hblock) hrest hbegins hless hcolumn

/-! ### Keys -/

/-- A colon makes the remembered node a key. -/
theorem fetchAt_value {origin : Cursor} {recent : List Token} (hrest : cursor.rest = ':' :: rest)
    (hgap : atGap rest = true) (hindent : indent ≤ origin.column) :
    (inBlock cursor (recent ++ tokens) (candidate origin tokens true indent) false indent
        outer).fetchAt =
      some (inBlock cursor.skip (.value :: (recent ++ .key ::
        (opening .blockMappingStart indent origin.column ++ tokens))) none false origin.column
        (enclosing indent origin.column outer)) := by
  have hinsert := @insertAt_inBlock cursor tokens (candidate origin tokens true indent) false indent
    outer recent .key
  have hopen := @openAt_inBlock cursor tokens (candidate origin tokens true indent) false indent
    outer origin.column (recent ++ [.key]) .blockMappingStart hindent
  simp only [List.append_assoc, List.singleton_append] at hopen
  have hdispatch : (inBlock cursor (recent ++ tokens) (candidate origin tokens true indent) false
      indent outer).fetchAt = (inBlock cursor (recent ++ tokens)
        (candidate origin tokens true indent) false indent outer).fetchValue := by
    simp [fetchAt, inBlock, hrest, hgap, Cursor.isAtMarker_eq_false]
  have hfetch : (inBlock cursor (recent ++ tokens) (candidate origin tokens true indent) false
      indent outer).fetchValue =
        some { (((inBlock cursor (recent ++ tokens) (candidate origin tokens true indent) false
          indent outer).insertAt tokens.length .key).openAt origin.column tokens.length
            .blockMappingStart).pushMark .value 1 with pending := none, keyAllowed := false } :=
    rfl
  rw [hdispatch, hfetch, hinsert, hopen]
  simp [inBlock, pushMark, push, Cursor.skip]

/-- A key is remembered until its colon comes. -/
theorem prepare_candidate {origin : Cursor} {before : List Token}
    (hline : cursor.line = origin.line) (hindex : cursor.index ≤ origin.index + 1024)
    (hbegins : BeginsToken cursor.rest) (hindent : indent ≤ cursor.column) :
    (inBlock cursor tokens (candidate origin before true indent) keyAllowed indent
        outer).dropStale.bind prepare =
      some (inBlock cursor tokens (candidate origin before true indent) keyAllowed indent
        outer) := by
  generalize hnode : candidate origin before true indent = node
  have hdrop : (inBlock cursor tokens node keyAllowed indent outer).dropStale =
      some (inBlock cursor tokens node keyAllowed indent outer) := by
    refine dropStale_of_fresh fun key hmem ↦ ?_
    rw [allPending_inBlock, Option.mem_toList, ← hnode] at hmem
    exact isStale_candidate hline hindex key hmem
  have hway := @toNextToken_indentation (inBlock cursor tokens node keyAllowed indent outer)
    cursor.rest 0 cursor.rest.length rfl hbegins
  have hclose := @closeTo_of_le cursor tokens node keyAllowed indent outer cursor.column hindent
  rw [hdrop, Option.bind_some, prepare]
  simp only [inBlock, Cursor.advance_zero] at hway hdrop hclose ⊢
  simp [hway, hdrop, hclose]

/-- From a leaf on its line before a colon the scanner goes on to what follows the colon. -/
theorem run_leaf_key {leaf : List Token} {next : Scanner} (hleaf : WrittenLeaf columns leaf raw)
    (hraw : ∀ character ∈ raw, isBreak character = false) (hlength : raw.length ≤ 1024)
    (hrest : cursor.rest = raw ++ ':' :: rest) (hgap : atGap rest = true)
    (hindent : indent ≤ cursor.column)
    (hnext : (inBlock (cursor.past (raw ++ [':'])) (.value :: (leaf.reverse ++ .key ::
      (opening .blockMappingStart indent cursor.column ++ tokens))) none false cursor.column
      (enclosing indent cursor.column outer)).prepare = some next)
    (hless : next.cursor.rest.length ≤ rest.length) :
    ReflTransGen Turns (inBlock cursor tokens none true indent outer) next := by
  have hend : PlainEnd (indent + 1) (':' :: rest) [] false := .colon hgap
  obtain ⟨last, used, allowed, hrun, hused, hfetch, hmore⟩ := leaf_taken hleaf hend hrest hindent
  obtain ⟨token, others, htokens, htoken⟩ := hleaf.exists_reverse_eq_cons
  obtain ⟨rfl, rfl⟩ : used = [] ∧ allowed = false := hused.elim id id
  rw [List.append_nil] at hfetch
  have hbehind : (cursor.past raw).rest = ':' :: rest := Cursor.rest_past_of_eq hrest
  have hplace : cursor.past raw = cursor.advance raw.length := cursor.past_eq_advance hraw
  have hcolon : (cursor.past raw).skip = cursor.past (raw ++ [':']) := by
    have hnone : isBreak ':' = false := by decide
    rw [Cursor.past_append, Cursor.past, if_neg (by simp [hnone])]
    rfl
  have hbegins : BeginsToken (cursor.past raw).rest := by
    rw [hbehind]
    exact ⟨by decide, by decide, by decide⟩
  -- The key is remembered at the colon, and the colon makes it one.
  have hkey : Turns last (inBlock (cursor.past raw) (leaf.reverse ++ tokens)
      (candidate cursor tokens true indent) false indent outer) := by
    refine .of_fetchAt hfetch (by simp only [inBlock, htokens, List.cons_append]; rfl) htoken
      (prepare_candidate ?_ ?_ hbegins ?_) ?_
    · rw [hplace, Cursor.advance]
    · rw [Cursor.index_past]
      omega
    · rw [hplace, Cursor.advance]
      push_cast
      omega
    · simpa [inBlock, hbehind] using hmore
  have hvalue : Turns (inBlock (cursor.past raw) (leaf.reverse ++ tokens)
      (candidate cursor tokens true indent) false indent outer) next := by
    refine .of_fetchAt (fetchAt_value hbehind hgap hindent) rfl (by simp) ?_ ?_
    · rw [dropStale_of_line (by simp), Option.bind_some, hcolon, hnext]
    · simp only [inBlock, hbehind, List.length_cons]
      omega
  exact (hrun.tail hkey).tail hvalue

end Scanner

end Roster.Yaml
