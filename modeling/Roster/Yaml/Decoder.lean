import Roster.Table
import Roster.Yaml.Document
import Roster.Yaml.Plain
import Roster.Yaml.Value

/-!
# Reading typed data from a tree

A `Decoder` reads data of a type from a node. It reads a tree from the left, follows aliases, and
stops at the first node that does not fit. Collections may be nested 128 deep, and no more aliases
are followed than a hundred for each mark of the document, so that a short text cannot stand for
endless data.

A blank stands for the empty collection where one is expected, and with `optional` for nothing. The
fields of a record may stand in any order, each at most once (`record`), and a table takes the last
value of a name (`table`). `decodeText` reads the one document of a text.
-/

set_option autoImplicit false
set_option relaxedAutoImplicit false

namespace Roster.Yaml

/-- Why a text gives no data of the expected type. -/
inductive ReadError
  /-- The text is not well formed. -/
  | malformed
  /-- A node is of another kind than expected. -/
  | unexpectedNode
  /-- A field stands twice in a record. -/
  | repeatedField (name : String)
  /-- A free-form mapping has a key twice. -/
  | repeatedKey
  /-- A free-form value has a tag where none may be. -/
  | unexpectedTag
  /-- A whole number needs more than 64 bits. -/
  | wideInteger
  /-- Collections are nested too deep. -/
  | tooDeep
  /-- Too many aliases were followed. -/
  | tooManyAliases
  /-- There is more than one document. -/
  | severalDocuments
  /-- A grouping has another number of primary tests than one. -/
  | groupingKeys (count : Nat)
  /-- A collection stands where a single text belongs. -/
  | notScalar (found : Value)

/-- The wording of those errors that have one of their own. -/
def ReadError.detail? : ReadError → Option String
  | .groupingKeys count =>
    some ("a grouping maps exactly one primary test, found " ++ toString count ++ " keys")
  | .notScalar found => some ("expected a scalar value, found " ++ found.display)
  | _ => none

/-- What a reader knows about its document. -/
structure Context where
  /-- The numbered nodes; the last one of a number counts. -/
  anchors : List (Nat × Node)
  /-- How many aliases may be followed. -/
  mostJumps : Nat

/-- Reading in a document; the state counts the aliases followed so far. -/
abbrev Reading (Result : Type) := ReaderT Context (StateT Nat (Except ReadError)) Result

/-- A way to read data from a node, within a number of levels of nesting. -/
abbrev Decoder (Result : Type) := Nat → Node → Reading Result

/-- The node that a node means: itself, or what its alias refers to. -/
def follow (node : Node) : Reading Node := do
  match node.content with
  | .alias number =>
    let context ← read
    let jumps ← get
    if context.mostJumps ≤ jumps then throw .tooManyAliases
    set (jumps + 1)
    match (context.anchors.reverse.find? fun anchor ↦ anchor.1 = number) with
    | some (_, target) => return target.content
    | none => throw .malformed
  | content => return content

/-- A scalar that is not written. -/
def isBlank (style : ScalarStyle) (text : String) : Bool :=
  style = .plain && text = ""

/-- The error of a node that does not fit. -/
def misfit {Result : Type} : Node → Reading Result
  | .cut => throw .malformed
  | _ => throw .unexpectedNode

namespace Decoder

variable {Result Other State : Type}

/-- The text of a scalar, whatever it would stand for. -/
def text : Decoder String := fun _ node ↦ do
  match ← follow node with
  | .scalar _ _ text => return text
  | other => misfit other

/-- A floating-point number without quotes, or in a block that is tagged as one. -/
def float : Decoder Binary64 := fun _ node ↦ do
  match ← follow node with
  | .scalar tag style text =>
    if style = .plain || (style = .literal && tag = some (coreTag ++ "float")) then
      match float? text with
      | some number => return number
      | none => throw .unexpectedNode
    else throw .unexpectedNode
  | other => misfit other

/-- Data that may be missing: a blank or a plain spelling of nothing gives none. -/
def optional (decoder : Decoder Result) : Decoder (Option Result) := fun depth node ↦ do
  let target ← follow node
  match target with
  | .scalar tag .plain text =>
    match tag with
    | some tag =>
      if tag = coreTag ++ "null" then
        if isNull text then return none else throw .unexpectedNode
      else return some (← decoder depth target)
    | none =>
      if text = "" || isNull text then return none else return some (← decoder depth target)
  | .cut => throw .malformed
  | _ => return some (← decoder depth target)

/-- Data with a default for when they are missing. -/
def orDefault (default : Result) (decoder : Decoder Result) : Decoder Result := fun depth node ↦ do
  return (← optional decoder depth node).getD default

/-- The items of a sequence. -/
def list (decoder : Decoder Result) : Decoder (List Result) := fun depth node ↦ do
  match ← follow node with
  | .sequence _ items =>
    match depth with
    | 0 => throw .tooDeep
    | depth + 1 => items.mapM (decoder depth)
  | .scalar tag style text =>
    if isBlank style text then return [] else misfit (.scalar tag style text)
  | other => misfit other

/-- The entries of a mapping, where the reader of a value knows its key. -/
def entries (decoder : String → Decoder Result) : Decoder (List (String × Result)) :=
  fun depth node ↦ do
    match ← follow node with
    | .mapping _ entries =>
      match depth with
      | 0 => throw .tooDeep
      | depth + 1 =>
        entries.mapM fun entry ↦ do
          let key ← text depth entry.1
          return (key, ← decoder key depth entry.2)
    | .scalar tag style text =>
      if isBlank style text then return [] else misfit (.scalar tag style text)
    | other => misfit other

/-- Values by name; the last value of a name counts. -/
def table (decoder : Decoder Result) : Decoder (Table Result) := fun depth node ↦ do
  return Table.ofList (← entries (fun _ ↦ decoder) depth node)

/-- A record that is read field by field. The known fields may stand there once each; `other` reads
all others. -/
def record (start : State) (fields : List (String × Decoder (State → State)))
    (other : String → Decoder (State → State)) : Decoder State := fun depth node ↦ do
  match ← follow node with
  | .mapping _ entries =>
    match depth with
    | 0 => throw .tooDeep
    | depth + 1 =>
      let (state, _) ← entries.foldlM (fun (state, seen) entry ↦ do
        let key ← text depth entry.1
        match fields.lookup key with
        | some field =>
          if seen.contains key then throw (.repeatedField key)
          return ((← field depth entry.2) state, key :: seen)
        | none => return ((← other key depth entry.2) state, seen)) (start, ([] : List String))
      return state
  | .scalar tag style text =>
    if isBlank style text then return start else misfit (.scalar tag style text)
  | other => misfit other

/-- A field of a record: what its value does to the record. -/
def field (decoder : Decoder Result) (set : Result → State → State) : Decoder (State → State) :=
  fun depth node ↦ do return set (← decoder depth node)

/-- A value that is passed over. -/
def ignored : Decoder (State → State) := fun _ node ↦
  if node.isWhole then return id else throw .malformed

/-- The value of a plain text. -/
def plainValue (text : String) : Reading Value :=
  match plainMeaning text with
  | .null => return .null
  | .boolean value => return .boolean value
  | .integer value => return .integer value
  | .wideInteger => throw .wideInteger
  | .float value => return .float value
  | .text => return .text text

/-- The value of a text under one of the tags that the format defines: the tag fixes the type, and
the text has to fit. Other tags make it a text. -/
def coreValue (tag text : String) : Reading Value :=
  if tag = coreTag ++ "bool" then
    match boolean? text with
    | some value => return .boolean value
    | none => throw .unexpectedNode
  else if tag = coreTag ++ "int" then
    match (wholeNumber? text.toList).bind integerMeaning? with
    | some (.integer value) => return .integer value
    | some _ => throw .wideInteger
    | none => throw .unexpectedNode
  else if tag = coreTag ++ "float" then
    match float? text with
    | some value => return .float value
    | none => throw .unexpectedNode
  else if tag = coreTag ++ "null" then
    if isNull text then return .null else throw .unexpectedNode
  else return .text text

/-- The text behind the exclamation mark of a tag of the user's own. -/
def ownTag? (tag : Option String) : Option String :=
  match tag.map String.toList with
  | some ('!' :: rest) => some (String.ofList rest)
  | _ => none

/-- A value under a tag of the user's own, if there is one. -/
def underTag (tag : Option String) (value : Reading Value) : Reading Value :=
  match ownTag? tag with
  | some "" => throw .unexpectedTag
  | some tag => return .tagged tag (← value)
  | none => value

/-- Any value. -/
def value : Nat → Node → Reading Value
  | depth, node => do
    match ← follow node with
    | .scalar tag style text =>
      let untagged : Reading Value :=
        if style = .plain then plainValue text else return .text text
      match tag with
      | some name =>
        if (ownTag? tag).isSome then underTag tag untagged else coreValue name text
      | none => untagged
    | .sequence tag items =>
      match depth with
      | 0 => throw .tooDeep
      | depth + 1 => underTag tag do return .sequence (← items.mapM (value depth))
    | .mapping tag entries =>
      match depth with
      | 0 => throw .tooDeep
      | depth + 1 =>
        underTag tag do
          return .mapping (← entries.mapM fun entry ↦ do
            let key ← value depth entry.1
            return (key, ← value depth entry.2))
    | other => misfit other

/-- A value without tags of the user's own. -/
def untaggedValue : Decoder Value := fun depth node ↦ do
  let found ← value depth node
  if found.hasTag then throw .unexpectedTag
  return found

/-- A value none of whose mappings has a key twice. -/
def distinct (found : Value) : Reading Value :=
  if found.repeatsKey then throw .repeatedKey else return found

/-- The text of a single value: nothing for a blank, and the usual spelling of numbers and truth
values. -/
def scalarText : Decoder (Option String) := fun depth node ↦ do
  match ← optional value depth node with
  | none => return none
  | some found =>
    match ← distinct found with
    | .null => return none
    | .text text => return some text
    | .integer number => return some (toString number)
    | .float number => return some number.render
    | .boolean truth => return some (toString truth)
    | other => throw (.notScalar other)

end Decoder

/-- The data of the one document of a text. -/
def decodeText {Result : Type} (decoder : Decoder Result) (text : String) :
    Except ReadError Result :=
  let document := Document.ofText text.toList
  let context : Context := ⟨document.root.anchors, 100 * document.root.size⟩
  match (decoder 128 document.root).run context |>.run 0 with
  | .error fault => .error fault
  | .ok (result, _) =>
    match document.remainder with
    | .nothing => .ok result
    | .another => .error .severalDocuments
    | .malformed => .error .malformed

end Roster.Yaml
