import Roster.Yaml.Scalar

/-!
# Cutting a YAML text into tokens

`scan` cuts a text into its tokens. Indentation counts outside brackets only: a line that is further
in than the collection around it begins a new one, and a line further out ends collections until one
fits.

Whether a node is a key shows only at the colon behind it. A node that may turn out to be a key is
therefore remembered (`PendingKey`), one for each level of brackets, and the tokens that announce a
key are put before it when its colon comes. A key ends on the line it begins on, and within 1024
characters. A node that stands where its collection needs a key has to become one.

A malformed text has a first place where reading stops. `TokenList` holds the tokens up to it that
are settled by then: a remembered node that may still become a key holds back the tokens from itself
on.
-/

set_option autoImplicit false
set_option relaxedAutoImplicit false

namespace Roster.Yaml

/-- A node that may turn out to be a key. -/
structure PendingKey where
  /-- How many tokens precede the node. -/
  tokenNumber : Nat
  /-- The place of the node. -/
  index : Nat
  /-- The line of the node. -/
  line : Nat
  /-- The column of the node. -/
  column : Nat
  /-- The node has to become a key. -/
  required : Bool
deriving DecidableEq

/-- A text that was cut into tokens up to a place. -/
structure Scanner where
  /-- The place. -/
  cursor : Cursor
  /-- The tokens so far, the last one first. -/
  tokens : List Token
  /-- How many tokens there are. -/
  count : Nat
  /-- The node that may be a key on the innermost level of brackets. -/
  pending : Option PendingKey
  /-- The nodes that may be keys on the levels around it, the innermost one first. -/
  outerPending : List (Option PendingKey)
  /-- A key may begin at the place. -/
  keyAllowed : Bool
  /-- The column of the innermost collection by indentation; below zero outside all of them. -/
  indent : Int
  /-- The columns of the collections around it, the innermost one first. -/
  outerIndents : List Int

namespace Scanner

/-- The beginning of a text. -/
def start (text : List Char) : Scanner :=
  ⟨.start text, [], 0, none, [], true, -1, []⟩

/-- The place is inside brackets. -/
def inFlow (scanner : Scanner) : Bool :=
  !scanner.outerPending.isEmpty

/-- One more token. -/
def push (scanner : Scanner) (token : Token) : Scanner :=
  { scanner with tokens := token :: scanner.tokens, count := scanner.count + 1 }

/-- A token put before those from a number on. -/
def insertAt (scanner : Scanner) (number : Nat) (token : Token) : Scanner :=
  { scanner with
    tokens := scanner.tokens.insertIdx (scanner.count - number) token
    count := scanner.count + 1 }

/-- The pending keys of all levels. -/
def allPending (scanner : Scanner) : List PendingKey :=
  (scanner.pending :: scanner.outerPending).filterMap id

/-- A node can no longer become a key: its line is over or it is too long. -/
def isStale (scanner : Scanner) (key : PendingKey) : Bool :=
  key.line < scanner.cursor.line || key.index + 1024 < scanner.cursor.index

/-- Forgets the nodes that can no longer become keys; a required one among them is malformed. -/
def dropStale (scanner : Scanner) : Option Scanner :=
  if scanner.allPending.any fun key ↦ scanner.isStale key && key.required then none
  else
    let keep (pending : Option PendingKey) := pending.filter fun key ↦ !scanner.isStale key
    some { scanner with
      pending := keep scanner.pending
      outerPending := scanner.outerPending.map keep }

/-- Forgets the node of the innermost level; a required one is malformed. -/
def dropPending (scanner : Scanner) : Option Scanner :=
  if scanner.pending.any (·.required) then none else some { scanner with pending := none }

/-- Remembers the node that begins at the place, if a key may begin there. -/
def remember (scanner : Scanner) : Option Scanner :=
  if scanner.keyAllowed then do
    let cursor := scanner.cursor
    let required := !scanner.inFlow && scanner.indent = (cursor.column : Int)
    let scanner ← scanner.dropPending
    some { scanner with
      pending := some ⟨scanner.count, cursor.index, cursor.line, cursor.column, required⟩ }
  else some scanner

/-- Begins a collection by indentation at a column, if it is further in: its token is put before
those from a number on. -/
def openAt (scanner : Scanner) (column number : Nat) (token : Token) : Scanner :=
  if !scanner.inFlow && scanner.indent < (column : Int) then
    { scanner.insertAt number token with
      indent := column, outerIndents := scanner.indent :: scanner.outerIndents }
  else scanner

/-- Ends the collections that are further in than a column. -/
def closeFrom (column : Int) : List Int → Scanner → Scanner
  | [], scanner =>
    if column < scanner.indent then { scanner.push .blockEnd with indent := -1 } else scanner
  | outer :: others, scanner =>
    if column < scanner.indent then
      closeFrom column others
        { scanner.push .blockEnd with indent := outer, outerIndents := others }
    else scanner

/-- Ends the collections by indentation that are further in than a column. -/
def closeTo (scanner : Scanner) (column : Int) : Scanner :=
  if scanner.inFlow then scanner else closeFrom column scanner.outerIndents scanner

/-- The place behind the white space and comments before the next token. A tab is white space only
where no key may begin. -/
def toNextToken : Nat → Scanner → Scanner
  | 0, scanner => scanner
  | fuel + 1, scanner =>
    let cursor := scanner.cursor
    let cursor := if cursor.index = 0 && cursor.isAt '\ufeff' then cursor.skip else cursor
    let tabs := scanner.inFlow || !scanner.keyAllowed
    let space (character : Char) : Bool := character = ' ' || (tabs && character = '\t')
    let cursor := (cursor.skipWhile space).skipComment
    if cursor.isAtBreak then
      toNextToken fuel
        { scanner with
          cursor := cursor.skipBreak, keyAllowed := scanner.keyAllowed || !scanner.inFlow }
    else { scanner with cursor := cursor }

/-- The token of one character. -/
def pushMark (scanner : Scanner) (token : Token) (length : Nat) : Scanner :=
  { scanner.push token with cursor := scanner.cursor.advance length }

/-- The end of the text. -/
def fetchEnd (scanner : Scanner) : Option Scanner := do
  let scanner ← (scanner.closeTo (-1)).dropPending
  some ({ scanner with keyAllowed := false }.push .streamEnd)

/-- The digits of a version number, at most nine, and the place behind them. -/
def readVersionNumber (cursor : Cursor) : Option (Nat × Cursor) :=
  let digits := cursor.run Char.isDigit
  if digits.isEmpty || 9 < digits.length then none
  else
    some (digits.foldl (fun value digit ↦ value * 10 + (digit.toNat - '0'.toNat)) 0,
      cursor.advance digits.length)

/-- A character that may stand in a tag. -/
def isTagCharacter (whole : Bool) (character : Char) : Bool :=
  isNameCharacter character || ";/?:@&=+$.!~*'()".toList.contains character ||
    (whole && (character = ',' || character = '[' || character = ']'))

/-- The bytes that a row of percent escapes at a place stands for: as many as the first one asks
for. -/
def readEscapedBytes : Nat → List Nat → Cursor → Option (List Nat × Cursor)
  | 0, bytes, cursor => some (bytes, cursor)
  | count + 1, bytes, cursor =>
    match cursor.rest with
    | '%' :: high :: low :: _ =>
      match Text.numberInBase? 16 [high, low] with
      | some byte => readEscapedBytes count (bytes ++ [byte]) (cursor.advance 3)
      | none => none
    | _ => none

/-- How many bytes a character has that begins with a byte. -/
def escapedWidth (byte : Nat) : Nat :=
  if byte < 0x80 then 1
  else if byte / 32 = 6 then 2
  else if byte / 16 = 14 then 3
  else if byte / 8 = 30 then 4
  else 0

/-- The bits that a continuing byte carries, if it is one. -/
def escapedBits (byte : Nat) : Option Nat :=
  if byte / 64 = 2 then some (byte % 64) else none

/-- The character that bytes stand for. -/
def characterOfBytes? : List Nat → Option Char
  | [] => none
  | first :: rest =>
    let bits :=
      match rest.length with
      | 0 => first
      | 1 => first % 32
      | 2 => first % 16
      | _ => first % 8
    (rest.foldlM (fun value byte ↦ (escapedBits byte).map (value * 64 + ·)) bits).bind
      Text.characterOfNumber?

/-- The character that percent escapes at a place stand for, and the place behind them. -/
def readEscapedCharacter (cursor : Cursor) : Option (Char × Cursor) := do
  let (first, _) ← readEscapedBytes 1 [] cursor
  let (bytes, next) ← readEscapedBytes (escapedWidth (first.headD 0xff)) [] cursor
  let character ← characterOfBytes? bytes
  some (character, next)

/-- The text of a tag from a place on, behind a part of it, and the place behind it. -/
def readTagTextFrom (whole : Bool) : Nat → List Char → Cursor → Option (List Char × Cursor)
  | 0, text, cursor => some (text, cursor)
  | fuel + 1, text, cursor =>
    match cursor.peek? with
    | some character =>
      if character = '%' then
        match readEscapedCharacter cursor with
        | some (escaped, next) => readTagTextFrom whole fuel (text ++ [escaped]) next
        | none => none
      else if isTagCharacter whole character then
        readTagTextFrom whole fuel (text ++ [character]) cursor.skip
      else some (text, cursor)
    | none => some (text, cursor)

/-- The text of a tag at a place, and the place behind it. -/
def readTagText (whole : Bool) (cursor : Cursor) : Option (List Char × Cursor) :=
  readTagTextFrom whole (cursor.rest.length + 1) [] cursor

/-- A tag handle: an exclamation mark, a name, and an exclamation mark again if there is one. -/
def readTagHandle (cursor : Cursor) : Option (List Char × Cursor) :=
  if cursor.isAt '!' then
    let name := cursor.skip.run isNameCharacter
    let behind := cursor.skip.advance name.length
    if behind.isAt '!' then some ('!' :: name ++ ['!'], behind.skip) else some ('!' :: name, behind)
  else none

/-- The rest of the line of a directive may hold a comment only. -/
def finishDirective (cursor : Cursor) : Option Cursor :=
  let cursor := (cursor.skipWhile isSpace).skipComment
  if cursor.isAtLineEnd then some cursor.skipBreak else none

/-- A directive that names a version. -/
def readVersionDirective (cursor : Cursor) : Option (Token × Cursor) := do
  let (major, cursor) ← readVersionNumber (cursor.skipWhile isSpace)
  if cursor.isAt '.' then
    let (minor, cursor) ← readVersionNumber cursor.skip
    some (.versionDirective major minor, cursor)
  else none

/-- A directive that gives a tag handle its meaning. -/
def readTagDirective (cursor : Cursor) : Option (Token × Cursor) := do
  let (handle, cursor) ← readTagHandle (cursor.skipWhile isSpace)
  if (handle = ['!'] || handle.getLast? = some '!') && cursor.isAtSpace then
    let (start, cursor) ← readTagText true (cursor.skipWhile isSpace)
    if start.isEmpty || !atGap cursor.rest then none else some (.tagDirective handle start, cursor)
  else none

/-- A line that begins with a percent sign. -/
def fetchDirective (scanner : Scanner) : Option Scanner := do
  let scanner ← (scanner.closeTo (-1)).dropPending
  let cursor := scanner.cursor.skip
  let name := cursor.run isNameCharacter
  let behind := cursor.advance name.length
  if name.isEmpty || !atGap behind.rest then none
  else
    let (token, behind) ←
      if name = "YAML".toList then readVersionDirective behind
      else if name = "TAG".toList then readTagDirective behind
      else none
    let behind ← finishDirective behind
    some { scanner.push token with cursor := behind, keyAllowed := false }

/-- A line that begins or ends a document. -/
def fetchDocumentMarker (scanner : Scanner) (token : Token) : Option Scanner := do
  let scanner ← (scanner.closeTo (-1)).dropPending
  some { scanner.pushMark token 3 with keyAllowed := false }

/-- An opening bracket or brace. -/
def fetchFlowStart (scanner : Scanner) (token : Token) : Option Scanner := do
  let scanner ← scanner.remember
  some { scanner.pushMark token 1 with
    pending := none, outerPending := scanner.pending :: scanner.outerPending, keyAllowed := true }

/-- A closing bracket or brace. -/
def fetchFlowEnd (scanner : Scanner) (token : Token) : Option Scanner := do
  let scanner ← scanner.dropPending
  let scanner := { scanner.pushMark token 1 with keyAllowed := false }
  match scanner.outerPending with
  | [] => some scanner
  | outer :: others => some { scanner with pending := outer, outerPending := others }

/-- A comma. -/
def fetchFlowEntry (scanner : Scanner) : Option Scanner := do
  let scanner ← scanner.dropPending
  some { scanner.pushMark .flowEntry 1 with keyAllowed := true }

/-- A hyphen before an item. -/
def fetchBlockEntry (scanner : Scanner) : Option Scanner := do
  if !scanner.inFlow && !scanner.keyAllowed then none
  else
    let scanner ←
      (scanner.openAt scanner.cursor.column scanner.count .blockSequenceStart).dropPending
    some { scanner.pushMark .blockEntry 1 with keyAllowed := true }

/-- A question mark before a key. -/
def fetchKey (scanner : Scanner) : Option Scanner := do
  if !scanner.inFlow && !scanner.keyAllowed then none
  else
    let scanner ←
      (scanner.openAt scanner.cursor.column scanner.count .blockMappingStart).dropPending
    some { scanner.pushMark .key 1 with keyAllowed := !scanner.inFlow }

/-- A colon before a value. The remembered node becomes a key. -/
def fetchValue (scanner : Scanner) : Option Scanner :=
  match scanner.pending with
  | some key =>
    let scanner := scanner.insertAt key.tokenNumber .key
    let scanner := scanner.openAt key.column key.tokenNumber .blockMappingStart
    some { scanner.pushMark .value 1 with pending := none, keyAllowed := false }
  | none =>
    if !scanner.inFlow && !scanner.keyAllowed then none
    else
      let scanner := scanner.openAt scanner.cursor.column scanner.count .blockMappingStart
      some { scanner.pushMark .value 1 with keyAllowed := !scanner.inFlow }

/-- A reference to a node or a name for one. -/
def fetchAnchor (scanner : Scanner) (token : List Char → Token) : Option Scanner := do
  let scanner ← scanner.remember
  let cursor := scanner.cursor.skip
  let name := cursor.run isNameCharacter
  let behind := cursor.advance name.length
  let ended :=
    atGap behind.rest || behind.rest.head?.any fun next ↦ "?:,]\x7d%@`".toList.contains next
  if name.isEmpty || !ended then none
  else some { scanner.push (token name) with cursor := behind, keyAllowed := false }

/-- The handle and the rest of the tag at a place, and the place behind it. A tag without a second
exclamation mark has the handle of one mark. -/
def readTag (cursor : Cursor) : Option (List Char × List Char × Cursor) := do
  if cursor.skip.isAt '<' then
    let (text, behind) ← readTagText true (cursor.advance 2)
    if text.isEmpty || !behind.isAt '>' then none else some ([], text, behind.skip)
  else
    let (handle, behind) ← readTagHandle cursor
    if 1 < handle.length && handle.getLast? = some '!' then
      let (text, behind) ← readTagText false behind
      if text.isEmpty then none else some (handle, text, behind)
    else
      let (text, behind) ← readTagText false behind
      let text := handle.drop 1 ++ text
      if text.isEmpty then some ([], ['!'], behind) else some (['!'], text, behind)

/-- A tag. -/
def fetchTag (scanner : Scanner) : Option Scanner := do
  let scanner ← scanner.remember
  let (handle, text, behind) ← readTag scanner.cursor
  if atGap behind.rest || (scanner.inFlow && behind.isAt ',') then
    some { scanner.push (.tag handle text) with cursor := behind, keyAllowed := false }
  else none

/-- A text as a block. -/
def fetchBlockScalar (scanner : Scanner) (style : ScalarStyle) : Option Scanner := do
  let scanner ← scanner.dropPending
  let (text, behind) ← readBlock (style = .folded) scanner.indent scanner.cursor
  some { scanner.push (.scalar style text) with cursor := behind, keyAllowed := true }

/-- A text between quotes. -/
def fetchQuoted (scanner : Scanner) (quote : Char) (style : ScalarStyle) : Option Scanner := do
  let scanner ← scanner.remember
  let (text, behind) ← readQuoted quote scanner.cursor
  some { scanner.push (.scalar style text) with cursor := behind, keyAllowed := false }

/-- A text without quotes. -/
def fetchPlain (scanner : Scanner) : Option Scanner := do
  let scanner ← scanner.remember
  let reading ← readPlain scanner.inFlow (scanner.indent + 1) scanner.cursor
  some { scanner.push (.scalar .plain reading.text) with
    cursor := reading.cursor, keyAllowed := reading.gap.broken }

/-- Whether a plain text may begin with a character, given what stands behind it. -/
def mayBeginPlain (inFlow : Bool) (character : Char) (rest : List Char) : Bool :=
  !(isGap character || "-?:,[]\x7b\x7d#&*!|>'\"%@`".toList.contains character) ||
    (character = '-' && !rest.head?.any isSpace) ||
    (!inFlow && (character = '?' || character = ':') && !atGap rest)

/-- The token at the place. -/
def fetchAt (scanner : Scanner) : Option Scanner :=
  let cursor := scanner.cursor
  match cursor.rest with
  | [] => scanner.fetchEnd
  | character :: rest =>
    if cursor.column = 0 && character = '%' then scanner.fetchDirective
    else if cursor.isAtMarker '-' then scanner.fetchDocumentMarker .documentStart
    else if cursor.isAtMarker '.' then scanner.fetchDocumentMarker .documentEnd
    else if character = '[' then scanner.fetchFlowStart .flowSequenceStart
    else if character = '{' then scanner.fetchFlowStart .flowMappingStart
    else if character = ']' then scanner.fetchFlowEnd .flowSequenceEnd
    else if character = '}' then scanner.fetchFlowEnd .flowMappingEnd
    else if character = ',' then scanner.fetchFlowEntry
    else if character = '-' && atGap rest then scanner.fetchBlockEntry
    else if character = '?' && (scanner.inFlow || atGap rest) then scanner.fetchKey
    else if character = ':' && (scanner.inFlow || atGap rest) then scanner.fetchValue
    else if character = '*' then scanner.fetchAnchor .alias
    else if character = '&' then scanner.fetchAnchor .anchor
    else if character = '!' then scanner.fetchTag
    else if character = '|' && !scanner.inFlow then scanner.fetchBlockScalar .literal
    else if character = '>' && !scanner.inFlow then scanner.fetchBlockScalar .folded
    else if character = '\'' then scanner.fetchQuoted '\'' .singleQuoted
    else if character = '"' then scanner.fetchQuoted '"' .doubleQuoted
    else if mayBeginPlain scanner.inFlow character rest then scanner.fetchPlain
    else none

/-- The next token with those that its place announces, and the nodes forgotten that can no longer
be keys. -/
def fetch (scanner : Scanner) : Option Scanner := do
  let scanner ← (scanner.toNextToken (scanner.cursor.rest.length + 1)).dropStale
  let scanner ← (scanner.closeTo scanner.cursor.column).fetchAt
  scanner.dropStale

/-- The tokens that no remembered node holds back. -/
def settled (scanner : Scanner) : List Token :=
  let held := scanner.allPending.foldl (fun least key ↦ min least key.tokenNumber) scanner.count
  scanner.tokens.reverse.take held

end Scanner

/-- The tokens of a text, up to the place where it stops being well formed. -/
structure TokenList where
  /-- The tokens. -/
  tokens : List Token
  /-- The text is malformed behind them. -/
  malformed : Bool
deriving DecidableEq

/-- The tokens from a place on. -/
def scanFrom : Nat → Scanner → TokenList
  | 0, scanner => ⟨scanner.settled, true⟩
  | fuel + 1, scanner =>
    match scanner.fetch with
    | none => ⟨scanner.settled, true⟩
    | some next =>
      if next.tokens.head? = some .streamEnd then ⟨next.tokens.reverse, false⟩
      else scanFrom fuel next

/-- The tokens of a text. A character that YAML does not allow makes all of it malformed. -/
def scan (text : List Char) : TokenList :=
  if text.all isAllowed then scanFrom (text.length + 2) (.start text) else ⟨[], true⟩

end Roster.Yaml
