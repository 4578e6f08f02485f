import Roster.Binary64.Shortest
import Roster.Text.Quoted
import Roster.Yaml.Node

/-!
# Free-form values

A `Value` is what a node stands for where a document may hold anything. `Value.display` shows a
value on one line, `Value.toNode` is the node that it is written as, and `Value.repeatsKey` finds
mappings with two equal keys. Two values are equal there (`Value.same`) when they have the same
parts; the order of a mapping does not count, nor the sign of a zero.
-/

set_option autoImplicit false
set_option relaxedAutoImplicit false

namespace Roster.Yaml

/-- A free-form value. -/
inductive Value
  /-- Nothing. -/
  | null
  /-- A truth value. -/
  | boolean (value : Bool)
  /-- A whole number. -/
  | integer (value : Int)
  /-- A floating-point number. -/
  | float (value : Binary64)
  /-- A text. -/
  | text (value : String)
  /-- Values in order. -/
  | sequence (items : List Value)
  /-- Keys with values in order. -/
  | mapping (entries : List (Value × Value))
  /-- A value with a tag of the user's own. -/
  | tagged (tag : String) (value : Value)
deriving Inhabited

namespace Value

mutual

/-- Two values have the same parts. -/
def same : Value → Value → Bool
  | .null, .null => true
  | .boolean first, .boolean second => first = second
  | .integer first, .integer second => first = second
  | .float first, .float second => first.sameValue second
  | .text first, .text second => first = second
  | .sequence first, .sequence second => sameItems first second
  | .mapping first, .mapping second =>
    first.length = second.length && coveredBy first second
  | .tagged tag first, .tagged other second => tag = other && same first second
  | _, _ => false

/-- Two lists have the same values in the same order. -/
def sameItems : List Value → List Value → Bool
  | [], [] => true
  | first :: rest, second :: others => same first second && sameItems rest others
  | _, _ => false

/-- Each entry of the first list is in the second. -/
def coveredBy : List (Value × Value) → List (Value × Value) → Bool
  | [], _ => true
  | (key, value) :: rest, entries =>
    (entries.any fun entry ↦ same key entry.1 && same value entry.2) && coveredBy rest entries

end

mutual

/-- Some mapping in the value has a key twice. -/
def repeatsKey : Value → Bool
  | .sequence items => itemsRepeatKey items
  | .mapping entries => entriesRepeatKey entries
  | .tagged _ value => value.repeatsKey
  | _ => false

/-- Some mapping in a list of values has a key twice. -/
def itemsRepeatKey : List Value → Bool
  | [] => false
  | item :: rest => item.repeatsKey || itemsRepeatKey rest

/-- A list of entries has a key twice, or some mapping in it does. -/
def entriesRepeatKey : List (Value × Value) → Bool
  | [] => false
  | (key, value) :: rest =>
    key.repeatsKey || value.repeatsKey || (rest.any fun entry ↦ same key entry.1) ||
      entriesRepeatKey rest

end

mutual

/-- Some part of the value has a tag. -/
def hasTag : Value → Bool
  | .tagged .. => true
  | .sequence items => itemsHaveTag items
  | .mapping entries => entriesHaveTag entries
  | _ => false

/-- Some part of a list of values has a tag. -/
def itemsHaveTag : List Value → Bool
  | [] => false
  | item :: rest => item.hasTag || itemsHaveTag rest

/-- Some part of a list of entries has a tag. -/
def entriesHaveTag : List (Value × Value) → Bool
  | [] => false
  | (key, value) :: rest => key.hasTag || value.hasTag || entriesHaveTag rest

end

mutual

/-- A value on one line, with the kind of each part. -/
def display : Value → String
  | .null => "Null"
  | .boolean value => "Bool(" ++ toString value ++ ")"
  | .integer value => "Number(" ++ toString value ++ ")"
  | .float value => "Number(" ++ value.render ++ ")"
  | .text value => "String(" ++ Text.quoted value ++ ")"
  | .sequence items => "Sequence [" ++ displayItems items ++ "]"
  | .mapping entries => "Mapping \x7b" ++ displayEntries entries ++ "\x7d"
  | .tagged tag value =>
    "TaggedValue \x7b tag: !" ++ tag ++ ", value: " ++ value.display ++ " \x7d"

/-- A key on one line: texts, numbers and truth values stand there without their kind. -/
def displayKey : Value → String
  | .boolean value => toString value
  | .integer value => toString value
  | .float value => value.render
  | .text value => Text.quoted value
  | .null => "Null"
  | .sequence items => "Sequence [" ++ displayItems items ++ "]"
  | .mapping entries => "Mapping \x7b" ++ displayEntries entries ++ "\x7d"
  | .tagged tag value =>
    "TaggedValue \x7b tag: !" ++ tag ++ ", value: " ++ value.display ++ " \x7d"

/-- Values with commas between them. -/
def displayItems : List Value → String
  | [] => ""
  | [item] => item.display
  | item :: rest => item.display ++ ", " ++ displayItems rest

/-- Keys and values with commas between them. -/
def displayEntries : List (Value × Value) → String
  | [] => ""
  | [(key, value)] => key.displayKey ++ ": " ++ value.display
  | (key, value) :: rest =>
    key.displayKey ++ ": " ++ value.display ++ ", " ++ displayEntries rest

end

end Value

end Roster.Yaml
