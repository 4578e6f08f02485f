import Roster.Yaml.Node
import Roster.Yaml.Scan

/-!
# Documents of a YAML text

`Document.ofText` reads the first document of a text: the tree of its root (`Document.root`) and
what the text holds behind it. A text without a document has a blank root. Where the tokens do not
make a node the tree is cut off.

An anchor gives a node a number, which is how many different names were in use before. A name that
is used again therefore gets the number that the next new name gets as well, and an alias means the
node that got its number last.
-/

set_option autoImplicit false
set_option relaxedAutoImplicit false

namespace Roster.Yaml

/-- What a text holds behind its first document. -/
inductive Remainder
  /-- Nothing. -/
  | nothing
  /-- Another document. -/
  | another
  /-- Something malformed. -/
  | malformed
deriving DecidableEq

/-- The first document of a text. -/
structure Document where
  /-- The root of the tree. -/
  root : Node
  /-- What the text holds behind it. -/
  remainder : Remainder

/-- The start of the tags that the format defines. -/
def coreTag : String := "tag:yaml.org,2002:"

/-- A list of tokens that is being read. -/
structure TokenReader where
  /-- The tokens left. -/
  tokens : List Token
  /-- The names of the numbered nodes with their numbers. -/
  names : List (List Char × Nat)
  /-- The tag handles with the texts they stand for. -/
  handles : List (List Char × List Char)

namespace TokenReader

/-- The reader without its first token. -/
def advance (reader : TokenReader) : TokenReader :=
  { reader with tokens := reader.tokens.drop 1 }

/-- The number of a name. -/
def numberOf (reader : TokenReader) (name : List Char) : Option Nat :=
  (reader.names.find? fun entry ↦ entry.1 = name).map Prod.snd

/-- Gives the next node a number, if it has a name. -/
def enter (reader : TokenReader) : Option (List Char) → TokenReader × Option Nat
  | none => (reader, none)
  | some name =>
    let number := reader.names.length
    ({ reader with
        names :=
          if (reader.numberOf name).isSome then
            reader.names.map fun entry ↦ if entry.1 = name then (name, number) else entry
          else reader.names ++ [(name, number)] },
      some number)

/-- The name and the tag in front of a node. -/
structure Properties where
  /-- The name. -/
  anchor : Option (List Char)
  /-- The tag, by its handle and the rest. -/
  tag : Option (List Char × List Char)

/-- The name and the tag at the front, in either order. -/
def properties (reader : TokenReader) : Properties × TokenReader :=
  match reader.tokens with
  | .anchor name :: .tag handle text :: rest =>
    (⟨some name, some (handle, text)⟩, { reader with tokens := rest })
  | .anchor name :: rest => (⟨some name, none⟩, { reader with tokens := rest })
  | .tag handle text :: .anchor name :: rest =>
    (⟨some name, some (handle, text)⟩, { reader with tokens := rest })
  | .tag handle text :: rest => (⟨none, some (handle, text)⟩, { reader with tokens := rest })
  | _ => (⟨none, none⟩, reader)

/-- The full text of a tag; nothing when its handle has no meaning. -/
def fullTag (reader : TokenReader) (handle text : List Char) : Option String :=
  if handle.isEmpty then some (String.ofList text)
  else
    (reader.handles.find? fun entry ↦ entry.1 = handle).map fun entry ↦
      String.ofList (entry.2 ++ text)

/-- A node with its number, if it has one. -/
def number (found : Option Nat) (node : Node) : Node :=
  match found with
  | some number => .anchored number node
  | none => node

/-- The next token does not begin a node of a block: an item, a key, a value or an end is there. -/
def endsBlockNode : List Token → Bool
  | .blockEntry :: _ | .key :: _ | .value :: _ | .blockEnd :: _ => true
  | _ => false

/-- The next token does not begin the key or the value of an entry. -/
def endsEntryNode : List Token → Bool
  | .key :: _ | .value :: _ | .blockEnd :: _ => true
  | _ => false

/-- The next token does not begin an item of a block sequence. -/
def endsItemNode : List Token → Bool
  | .blockEntry :: _ | .blockEnd :: _ => true
  | _ => false

/-- The next token ends an item between brackets. -/
def endsFlowItem : List Token → Bool
  | .flowEntry :: _ | .flowSequenceEnd :: _ => true
  | _ => false

/-- The next token ends an entry between braces. -/
def endsFlowEntry : List Token → Bool
  | .flowEntry :: _ | .flowMappingEnd :: _ => true
  | _ => false

mutual

/-- The node at the front, and the reader behind it if the node is whole. Outside brackets a
collection may be laid out by indentation, and behind a key a sequence may stand without being
indented. -/
def node : Nat → Bool → Bool → TokenReader → Node × Option TokenReader
  | 0, _, _, _ => (.cut, none)
  | fuel + 1, block, unindented, reader =>
    match reader.tokens with
    | .alias name :: _ =>
      match reader.numberOf name with
      | some number => (.alias number, some reader.advance)
      | none => (.cut, none)
    | _ =>
      let (found, reader) := reader.properties
      match found.tag with
      | some (handle, text) =>
        match reader.fullTag handle text with
        | some tag => content fuel block unindented found.anchor (some tag) reader
        | none => (.cut, none)
      | none => content fuel block unindented found.anchor none reader

/-- The node at the front, whose name and tag were read. A name or a tag alone stands for a blank
scalar. -/
def content : Nat → Bool → Bool → Option (List Char) → Option String → TokenReader →
    Node × Option TokenReader
  | 0, _, _, _, _, _ => (.cut, none)
  | fuel + 1, block, unindented, anchor, tag, reader =>
    let (entered, found) := reader.enter anchor
    match reader.tokens with
    | [] => (.cut, none)
    | .scalar style text :: _ =>
      (number found (.scalar tag style (String.ofList text)), some entered.advance)
    | .flowSequenceStart :: _ =>
      let (items, next) := flowItems fuel true entered.advance
      (number found (.sequence tag items), next)
    | .flowMappingStart :: _ =>
      let (entries, next) := flowEntries fuel true entered.advance
      (number found (.mapping tag entries), next)
    | token :: _ =>
      if unindented && token = .blockEntry then
        let (items, next) := unindentedItems fuel entered
        (number found (.sequence tag items), next)
      else if block && token = .blockSequenceStart then
        let (items, next) := blockItems fuel entered.advance
        (number found (.sequence tag items), next)
      else if block && token = .blockMappingStart then
        let (entries, next) := blockEntries fuel entered.advance
        (number found (.mapping tag entries), next)
      else if anchor.isSome || tag.isSome then
        (number found (.scalar tag .plain ""), some entered)
      else (.cut, none)

/-- The items of a sequence by indentation. -/
def blockItems : Nat → TokenReader → List Node × Option TokenReader
  | 0, _ => ([.cut], none)
  | fuel + 1, reader =>
    match reader.tokens with
    | .blockEnd :: _ => ([], some reader.advance)
    | .blockEntry :: rest =>
      let reader := reader.advance
      let (item, next) :=
        if endsItemNode rest then (.blank, some reader) else node fuel true false reader
      match next with
      | some reader =>
        let (items, next) := blockItems fuel reader
        (item :: items, next)
      | none => ([item], none)
    | _ => ([.cut], none)

/-- The items of a sequence that is not indented: it ends where no item follows. -/
def unindentedItems : Nat → TokenReader → List Node × Option TokenReader
  | 0, _ => ([.cut], none)
  | fuel + 1, reader =>
    match reader.tokens with
    | .blockEntry :: rest =>
      let reader := reader.advance
      let (item, next) :=
        if endsBlockNode rest then (.blank, some reader) else node fuel true false reader
      match next with
      | some reader =>
        let (items, next) := unindentedItems fuel reader
        (item :: items, next)
      | none => ([item], none)
    | [] => ([.cut], none)
    | _ => ([], some reader)

/-- The entries of a mapping by indentation. -/
def blockEntries : Nat → TokenReader → List (Node × Node) × Option TokenReader
  | 0, _ => ([(.cut, .cut)], none)
  | fuel + 1, reader =>
    match reader.tokens with
    | .blockEnd :: _ => ([], some reader.advance)
    | .key :: rest =>
      let reader := reader.advance
      let (key, next) :=
        if endsEntryNode rest then (.blank, some reader) else node fuel true true reader
      match next with
      | some reader => blockValue fuel key reader
      | none => ([(key, .cut)], none)
    | _ => ([(.cut, .cut)], none)

/-- The value of a key of a mapping by indentation, and the entries behind it. -/
def blockValue : Nat → Node → TokenReader → List (Node × Node) × Option TokenReader
  | 0, key, _ => ([(key, .cut)], none)
  | fuel + 1, key, reader =>
    let (value, next) : Node × Option TokenReader :=
      match reader.tokens with
      | .value :: rest =>
        let reader := reader.advance
        if endsEntryNode rest then (.blank, some reader) else node fuel true true reader
      | [] => (.cut, none)
      | _ => (.blank, some reader)
    match next with
    | some reader =>
      let (entries, next) := blockEntries fuel reader
      ((key, value) :: entries, next)
    | none => ([(key, value)], none)

/-- The items between brackets. -/
def flowItems : Nat → Bool → TokenReader → List Node × Option TokenReader
  | 0, _, _ => ([.cut], none)
  | fuel + 1, first, reader =>
    match reader.tokens with
    | .flowSequenceEnd :: _ => ([], some reader.advance)
    | token :: _ =>
      if !first && token ≠ .flowEntry then ([.cut], none)
      else
        let reader := if first then reader else reader.advance
        match reader.tokens with
        | .flowSequenceEnd :: _ => ([], some reader.advance)
        | token :: _ =>
          let (item, next) : Node × Option TokenReader :=
            if token = .key then flowPair fuel reader.advance else node fuel false false reader
          match next with
          | some reader =>
            let (items, next) := flowItems fuel false reader
            (item :: items, next)
          | none => ([item], none)
        | [] => ([.cut], none)
    | [] => ([.cut], none)

/-- The mapping of one entry that stands as an item between brackets. Where its key is left out, the
token behind the mark of the key is passed over. -/
def flowPair : Nat → TokenReader → Node × Option TokenReader
  | 0, _ => (.cut, none)
  | fuel + 1, reader =>
    let (key, next) : Node × Option TokenReader :=
      match reader.tokens with
      | [] => (.cut, none)
      | .value :: _ | .flowEntry :: _ | .flowSequenceEnd :: _ => (.blank, some reader.advance)
      | _ => node fuel false false reader
    match next with
    | none => (.mapping none [(key, .cut)], none)
    | some reader =>
      let (value, next) : Node × Option TokenReader :=
        match reader.tokens with
        | .value :: rest =>
          let reader := reader.advance
          if endsFlowItem rest then (.blank, some reader) else node fuel false false reader
        | [] => (.cut, none)
        | _ => (.blank, some reader)
      (.mapping none [(key, value)], next)

/-- The entries between braces. -/
def flowEntries : Nat → Bool → TokenReader → List (Node × Node) × Option TokenReader
  | 0, _, _ => ([(.cut, .cut)], none)
  | fuel + 1, first, reader =>
    match reader.tokens with
    | .flowMappingEnd :: _ => ([], some reader.advance)
    | token :: _ =>
      if !first && token ≠ .flowEntry then ([(.cut, .cut)], none)
      else
        let reader := if first then reader else reader.advance
        match reader.tokens with
        | .flowMappingEnd :: _ => ([], some reader.advance)
        | .key :: rest =>
          let reader := reader.advance
          let (key, next) : Node × Option TokenReader :=
            if endsFlowEntry rest || rest.head? = some .value then (.blank, some reader)
            else node fuel false false reader
          match next with
          | none => ([(key, .cut)], none)
          | some reader =>
            let (value, next) : Node × Option TokenReader :=
              match reader.tokens with
              | .value :: rest =>
                let reader := reader.advance
                if endsFlowEntry rest then (.blank, some reader)
                else node fuel false false reader
              | [] => (.cut, none)
              | _ => (.blank, some reader)
            match next with
            | some reader =>
              let (entries, next) := flowEntries fuel false reader
              ((key, value) :: entries, next)
            | none => ([(key, value)], none)
        | [] => ([(.cut, .cut)], none)
        | _ =>
          let (key, next) := node fuel false false reader
          match next with
          | some reader =>
            let (entries, next) := flowEntries fuel false reader
            ((key, .blank) :: entries, next)
          | none => ([(key, .cut)], none)
    | [] => ([(.cut, .cut)], none)

end

/-- The meaning of the tag handles that a document need not declare. -/
def standardHandles : List (List Char × List Char) :=
  [(['!'], ['!']), (['!', '!'], coreTag.toList)]

/-- The directives at the front: the handles that they declare and the reader behind them. A version
may be named once and has to be 1.1 or 1.2, and a handle may be declared once. -/
def directives : Bool → List (List Char × List Char) → List Token →
    Option (List (List Char × List Char) × List Token)
  | versionSeen, handles, .versionDirective major minor :: rest =>
    if versionSeen || major ≠ 1 || !(minor = 1 || minor = 2) then none
    else directives true handles rest
  | versionSeen, handles, .tagDirective handle start :: rest =>
    if handles.any fun entry ↦ entry.1 = handle then none
    else directives versionSeen (handles ++ [(handle, start)]) rest
  | _, handles, rest => some (handles, rest)

/-- What follows a document. -/
def remainderOf : List Token → Remainder
  | .documentEnd :: rest => remainderOf rest
  | [.streamEnd] => .nothing
  | .documentStart :: _ | .versionDirective .. :: _ | .tagDirective .. :: _ => .another
  | _ => .malformed

/-- The node at the front as a document of its own. -/
def rootNode (handles : List (List Char × List Char)) (tokens : List Token) : Document :=
  let reader : TokenReader := ⟨tokens, [], handles ++ standardHandles⟩
  match node (4 * tokens.length + 8) true false reader with
  | (root, some reader) => ⟨root, remainderOf reader.tokens⟩
  | (root, none) => ⟨root, .malformed⟩

/-- The first document of a list of tokens. -/
def document (tokens : List Token) : Document :=
  match tokens with
  | [.streamEnd] => ⟨.blank, .nothing⟩
  | .documentStart :: _ | .versionDirective .. :: _ | .tagDirective .. :: _ =>
    match directives false [] tokens with
    | some (handles, .documentStart :: rest) =>
      match rest with
      | .versionDirective .. :: _ | .tagDirective .. :: _ | .documentStart :: _
      | .documentEnd :: _ | .streamEnd :: _ => ⟨.blank, remainderOf rest⟩
      | [] => ⟨.cut, .malformed⟩
      | _ => rootNode handles rest
    | _ => ⟨.cut, .malformed⟩
  | _ => rootNode [] tokens

end TokenReader

/-- The first document of a text. -/
def Document.ofText (text : List Char) : Document :=
  TokenReader.document (scan text).tokens

end Roster.Yaml
