import Roster.Yaml.Token

/-!
# Nodes of a YAML document

A `Node` is a scalar with its text, a sequence or a mapping. A node may have a number, by which
aliases refer to it (`Node.anchored`, `Node.alias`). Where a malformed text stops, the tree has a
`cut` leaf: it stands last in every collection that it is in, so that a reader meets all that
precedes it first.

`Node.ofText` is the scalar that a text is written as, in a style that keeps it a text.
-/

set_option autoImplicit false
set_option relaxedAutoImplicit false

namespace Roster.Yaml

/-- A node of a document. -/
inductive Node
  /-- A text with its tag and the way it is written. -/
  | scalar (tag : Option String) (style : ScalarStyle) (text : String)
  /-- Items in order. -/
  | sequence (tag : Option String) (items : List Node)
  /-- Keys with values in order. -/
  | mapping (tag : Option String) (entries : List (Node × Node))
  /-- A reference to the node of a number. -/
  | alias (number : Nat)
  /-- A node with a number. -/
  | anchored (number : Nat) (node : Node)
  /-- The text stops being well formed here. -/
  | cut
deriving Inhabited

namespace Node

/-- The node that stands where nothing is written. -/
def blank : Node := .scalar none .plain ""

/-- The node without its number. -/
def content : Node → Node
  | .anchored _ node => node.content
  | node => node

mutual

/-- The nodes with their numbers, outer nodes before inner ones. -/
def anchors : Node → List (Nat × Node)
  | .scalar .. | .alias _ | .cut => []
  | .sequence _ items => anchorsOfItems items
  | .mapping _ entries => anchorsOfEntries entries
  | .anchored number node => (number, node) :: node.anchors

/-- The numbered nodes of a list of nodes. -/
def anchorsOfItems : List Node → List (Nat × Node)
  | [] => []
  | item :: rest => item.anchors ++ anchorsOfItems rest

/-- The numbered nodes of a list of keys and values. -/
def anchorsOfEntries : List (Node × Node) → List (Nat × Node)
  | [] => []
  | (key, value) :: rest => key.anchors ++ value.anchors ++ anchorsOfEntries rest

end

mutual

/-- How many marks a tree has: one for each leaf, two for each collection. -/
def size : Node → Nat
  | .scalar .. | .alias _ => 1
  | .cut => 0
  | .sequence _ items => sizeOfItems items + 2
  | .mapping _ entries => sizeOfEntries entries + 2
  | .anchored _ node => node.size

/-- The marks of a list of nodes. -/
def sizeOfItems : List Node → Nat
  | [] => 0
  | item :: rest => item.size + sizeOfItems rest

/-- The marks of a list of keys and values. -/
def sizeOfEntries : List (Node × Node) → Nat
  | [] => 0
  | (key, value) :: rest => key.size + value.size + sizeOfEntries rest

end

mutual

/-- No part of the tree is cut off. -/
def isWhole : Node → Bool
  | .scalar .. | .alias _ => true
  | .cut => false
  | .sequence _ items => areWhole items
  | .mapping _ entries => areWholeEntries entries
  | .anchored _ node => node.isWhole

/-- No part of a list of nodes is cut off. -/
def areWhole : List Node → Bool
  | [] => true
  | item :: rest => item.isWhole && areWhole rest

/-- No part of a list of keys and values is cut off. -/
def areWholeEntries : List (Node × Node) → Bool
  | [] => true
  | (key, value) :: rest => key.isWhole && value.isWhole && areWholeEntries rest

end

end Node

end Roster.Yaml
