import Mathlib.Data.Nat.Notation
import Roster.Proofs.Yaml.WrittenNodes
import Roster.Yaml.Document

/-!
# The tokens of a tree

`Node.tokens` are the tokens that the text of a tree is cut into. They stand between the two halves
of reading a text: it is cut into tokens, and the tokens make up a tree. This module has the second
half. The tokens of a tree give the tree as it is written (`Node.Writable.readsBack`), also as the
one document of a text (`TokenReader.document_tokens`).
-/

set_option autoImplicit false
set_option relaxedAutoImplicit false

namespace Roster.Yaml

namespace Node

mutual

/-- The tokens of a tree as it is written. A sequence that is the value of a simple key is not
indented, and nothing marks its beginning and its end. -/
def tokens (inKey unindented : Bool) : Node → List Token
  | .scalar _ style text => [.scalar (writtenStyle inKey style text.toList) text.toList]
  | .sequence _ items =>
    if items.isEmpty then [.flowSequenceStart, .flowSequenceEnd]
    else if unindented then itemTokens items
    else .blockSequenceStart :: itemTokens items ++ [.blockEnd]
  | .mapping _ entries =>
    if entries.isEmpty then [.flowMappingStart, .flowMappingEnd]
    else .blockMappingStart :: entryTokens entries ++ [.blockEnd]
  | .anchored _ node => node.tokens inKey unindented
  | .alias _ | .cut => []

/-- The tokens of the items of a sequence. -/
def itemTokens : List Node → List Token
  | [] => []
  | item :: rest => .blockEntry :: item.tokens false false ++ itemTokens rest

/-- The tokens of the entries of a mapping. -/
def entryTokens : List (Node × Node) → List Token
  | [] => []
  | (key, value) :: rest =>
    .key :: key.tokens key.isSimpleKey false ++ .value :: value.tokens false key.isSimpleKey ++
      entryTokens rest

end

/-- A token that a node may begin with. -/
def canBegin : Token → Bool
  | .scalar .. | .flowSequenceStart | .flowMappingStart | .blockSequenceStart | .blockMappingStart
  | .blockEntry => true
  | _ => false

/-- A tree has a first token, and only a sequence that is not indented begins with an item. -/
theorem Writable.exists_tokens_eq_cons {node : Node} (hwritable : node.Writable)
    (inKey unindented : Bool) :
    ∃ token others, node.tokens inKey unindented = token :: others ∧ canBegin token = true ∧
      (token = .blockEntry → unindented = true) := by
  cases hwritable with
  | scalar => exact ⟨_, [], rfl, rfl, by simp⟩
  | @sequence _ items =>
    rw [tokens]
    cases items with
    | nil => exact ⟨.flowSequenceStart, [.flowSequenceEnd], rfl, rfl, by simp⟩
    | cons item rest =>
      cases unindented with
      | false => exact ⟨.blockSequenceStart, _, rfl, rfl, by simp⟩
      | true => exact ⟨.blockEntry, _, rfl, rfl, by simp⟩
  | @mapping _ entries =>
    rw [tokens]
    cases entries with
    | nil => exact ⟨.flowMappingStart, [.flowMappingEnd], rfl, rfl, by simp⟩
    | cons entry rest => exact ⟨.blockMappingStart, _, rfl, rfl, by simp⟩

/-- The tokens of a tree give the tree as it is written, if the reader has enough fuel. Behind a
sequence that is not indented there has to be something else than an item. -/
def ReadsBack (node : Node) : Prop :=
  ∀ (inKey unindented permitted : Bool) (fuel : ℕ) (rest : List Token)
    (names : List (List Char × ℕ)) (handles : List (List Char × List Char)),
    3 * (node.tokens inKey unindented).length + 3 ≤ fuel →
    (unindented = true → permitted = true ∧ ∃ token ∈ rest.head?, token ≠ .blockEntry) →
    TokenReader.node fuel true permitted ⟨node.tokens inKey unindented ++ rest, names, handles⟩ =
      (node.written inKey, some ⟨rest, names, handles⟩)

end Node

namespace TokenReader

open Node

variable {rest : List Token} {names : List (List Char × ℕ)}
  {handles : List (List Char × List Char)} {fuel : ℕ}

/-- A sequence in which nothing is marked but its items. -/
theorem node_unindented :
    node (fuel + 2) true true ⟨.blockEntry :: rest, names, handles⟩ =
      (.sequence none (unindentedItems fuel ⟨.blockEntry :: rest, names, handles⟩).1,
        (unindentedItems fuel ⟨.blockEntry :: rest, names, handles⟩).2) :=
  rfl

/-- An indented sequence. -/
theorem node_blockSequence (permitted : Bool) :
    node (fuel + 2) true permitted ⟨.blockSequenceStart :: rest, names, handles⟩ =
      (.sequence none (blockItems fuel ⟨rest, names, handles⟩).1,
        (blockItems fuel ⟨rest, names, handles⟩).2) := by
  cases permitted <;> rfl

/-- A mapping. -/
theorem node_blockMapping (permitted : Bool) :
    node (fuel + 2) true permitted ⟨.blockMappingStart :: rest, names, handles⟩ =
      (.mapping none (blockEntries fuel ⟨rest, names, handles⟩).1,
        (blockEntries fuel ⟨rest, names, handles⟩).2) := by
  cases permitted <;> rfl

/-- Where a key or a value stands, the entry does not end. -/
theorem endsEntryNode_tokens {item : Node} (hwritable : item.Writable) (inKey unindented : Bool) :
    endsEntryNode (item.tokens inKey unindented ++ rest) = false := by
  obtain ⟨token, more, htokens, hbegins, -⟩ := hwritable.exists_tokens_eq_cons inKey unindented
  rw [htokens]
  cases token <;> first | rfl | cases hbegins

/-- Where an item stands, neither the sequence nor the item before it ends. -/
theorem endsNodes_tokens {item : Node} (hwritable : item.Writable) (inKey : Bool) :
    endsItemNode (item.tokens inKey false ++ rest) = false ∧
      endsBlockNode (item.tokens inKey false ++ rest) = false := by
  obtain ⟨token, more, htokens, hbegins, hentry⟩ := hwritable.exists_tokens_eq_cons inKey false
  rw [htokens]
  cases token <;>
    first | exact ⟨rfl, rfl⟩ | exact absurd (hentry rfl) Bool.false_ne_true | cases hbegins

/-- The items of an indented sequence. -/
theorem blockItems_tokens {items : List Node}
    (hitems : ∀ item ∈ items, item.Writable ∧ item.ReadsBack)
    (hfuel : 3 * (itemTokens items).length + 1 ≤ fuel) :
    blockItems fuel ⟨itemTokens items ++ .blockEnd :: rest, names, handles⟩ =
      (writtenItems items, some ⟨rest, names, handles⟩) := by
  induction items generalizing fuel with
  | nil =>
    obtain ⟨fuel, rfl⟩ : ∃ less, fuel = less + 1 := ⟨fuel - 1, by omega⟩
    rfl
  | cons item others ih =>
    obtain ⟨⟨hwritable, hitem⟩, hothers⟩ := List.forall_mem_cons.mp hitems
    obtain ⟨fuel, rfl⟩ : ∃ less, fuel = less + 1 := ⟨fuel - 1, by omega⟩
    simp only [itemTokens, List.length_append, List.length_cons] at hfuel
    have hread := hitem false false false fuel (itemTokens others ++ .blockEnd :: rest) names
      handles (by omega) (by simp)
    have hmore : 3 * (itemTokens others).length + 1 ≤ fuel := by omega
    simp [itemTokens, blockItems, advance, endsNodes_tokens hwritable, hread, writtenItems,
      ih hothers hmore]

/-- The items of a sequence that is not indented. -/
theorem unindentedItems_tokens {items : List Node}
    (hitems : ∀ item ∈ items, item.Writable ∧ item.ReadsBack)
    (hrest : ∃ token ∈ rest.head?, token ≠ .blockEntry)
    (hfuel : 3 * (itemTokens items).length + 1 ≤ fuel) :
    unindentedItems fuel ⟨itemTokens items ++ rest, names, handles⟩ =
      (writtenItems items, some ⟨rest, names, handles⟩) := by
  induction items generalizing fuel with
  | nil =>
    obtain ⟨fuel, rfl⟩ : ∃ less, fuel = less + 1 := ⟨fuel - 1, by omega⟩
    obtain ⟨token, hhead, hother⟩ := hrest
    obtain ⟨others, rfl⟩ := List.head?_eq_some_iff.mp hhead
    cases token <;> first | rfl | exact absurd rfl hother
  | cons item others ih =>
    obtain ⟨⟨hwritable, hitem⟩, hothers⟩ := List.forall_mem_cons.mp hitems
    obtain ⟨fuel, rfl⟩ : ∃ less, fuel = less + 1 := ⟨fuel - 1, by omega⟩
    simp only [itemTokens, List.length_append, List.length_cons] at hfuel
    have hread := hitem false false false fuel (itemTokens others ++ rest) names handles
      (by omega) (by simp)
    have hmore : 3 * (itemTokens others).length + 1 ≤ fuel := by omega
    simp [itemTokens, unindentedItems, advance, endsNodes_tokens hwritable, hread, writtenItems,
      ih hothers hmore]

/-- The entries of a mapping. -/
theorem blockEntries_tokens {entries : List (Node × Node)}
    (hkeys : ∀ entry ∈ entries, entry.1.Writable ∧ entry.1.ReadsBack)
    (hvalues : ∀ entry ∈ entries, entry.2.Writable ∧ entry.2.ReadsBack)
    (hfuel : 3 * (entryTokens entries).length + 1 ≤ fuel) :
    blockEntries fuel ⟨entryTokens entries ++ .blockEnd :: rest, names, handles⟩ =
      (writtenEntries entries, some ⟨rest, names, handles⟩) := by
  induction entries generalizing fuel with
  | nil =>
    obtain ⟨fuel, rfl⟩ : ∃ less, fuel = less + 1 := ⟨fuel - 1, by omega⟩
    rfl
  | cons entry others ih =>
    obtain ⟨key, value⟩ := entry
    obtain ⟨⟨hkeyWritable, hkey⟩ : key.Writable ∧ key.ReadsBack, hkeys⟩ :=
      List.forall_mem_cons.mp hkeys
    obtain ⟨⟨hvalueWritable, hvalue⟩ : value.Writable ∧ value.ReadsBack, hvalues⟩ :=
      List.forall_mem_cons.mp hvalues
    obtain ⟨fuel, rfl⟩ : ∃ less, fuel = less + 2 := ⟨fuel - 2, by
      simp only [entryTokens, List.length_append, List.length_cons] at hfuel
      omega⟩
    simp only [entryTokens, List.length_append, List.length_cons] at hfuel
    have hafter : ∃ token ∈ (entryTokens others ++ .blockEnd :: rest).head?,
        token ≠ .blockEntry := by
      cases others <;> simp [entryTokens]
    have hreadKey := hkey key.isSimpleKey false true (fuel + 1)
      (.value :: (value.tokens false key.isSimpleKey ++
        (entryTokens others ++ .blockEnd :: rest))) names handles (by omega) (by simp)
    have hreadValue := hvalue false key.isSimpleKey true fuel
      (entryTokens others ++ .blockEnd :: rest) names handles (by omega) fun _ ↦ ⟨rfl, hafter⟩
    have hmore : 3 * (entryTokens others).length + 1 ≤ fuel := by omega
    simp [entryTokens, blockEntries, blockValue, advance, endsEntryNode_tokens hkeyWritable,
      endsEntryNode_tokens hvalueWritable, hreadKey, hreadValue, writtenEntries,
      ih hkeys hvalues hmore]

end TokenReader

/-- The tokens of a tree that can be written give the tree as it is written. -/
theorem Node.Writable.readsBack {node : Node} (hwritable : node.Writable) : node.ReadsBack := by
  induction hwritable with
  | scalar =>
    intro inKey unindented permitted fuel rest names handles hfuel _
    obtain ⟨fuel, rfl⟩ : ∃ less, fuel = less + 2 := ⟨fuel - 2, by omega⟩
    simp [tokens, TokenReader.node, TokenReader.properties, TokenReader.content, TokenReader.enter,
      TokenReader.number, TokenReader.advance, written]
  | @sequence _ items hitems ih =>
    intro inKey unindented permitted fuel rest names handles hfuel hrest
    obtain ⟨fuel, rfl⟩ : ∃ less, fuel = less + 3 := ⟨fuel - 3, by omega⟩
    rw [tokens] at hfuel ⊢
    cases items with
    | nil => rfl
    | cons item others =>
      have hall : ∀ node ∈ item :: others, node.Writable ∧ node.ReadsBack :=
        fun node hmem ↦ ⟨hitems node hmem, ih node hmem⟩
      cases unindented with
      | false =>
        simp only [List.isEmpty_cons, Bool.false_eq_true, if_false, List.cons_append,
          List.append_assoc, List.nil_append, List.length_append, List.length_cons] at hfuel ⊢
        rw [TokenReader.node_blockSequence, TokenReader.blockItems_tokens hall (by omega), written]
      | true =>
        obtain ⟨rfl, hbehind⟩ := hrest rfl
        simp only [List.isEmpty_cons, Bool.false_eq_true, if_false, if_true] at hfuel ⊢
        have hitemTokens : itemTokens (item :: others) ++ rest =
            .blockEntry :: (item.tokens false false ++ itemTokens others ++ rest) := by
          simp [itemTokens]
        rw [hitemTokens, TokenReader.node_unindented, ← hitemTokens,
          TokenReader.unindentedItems_tokens hall hbehind (by omega), written]
  | @mapping _ entries hkeys hvalues ihkeys ihvalues =>
    intro inKey unindented permitted fuel rest names handles hfuel _
    obtain ⟨fuel, rfl⟩ : ∃ less, fuel = less + 3 := ⟨fuel - 3, by omega⟩
    rw [tokens] at hfuel ⊢
    cases entries with
    | nil => rfl
    | cons entry others =>
      simp only [List.isEmpty_cons, Bool.false_eq_true, if_false, List.cons_append,
        List.append_assoc, List.nil_append, List.length_append, List.length_cons] at hfuel ⊢
      rw [TokenReader.node_blockMapping, TokenReader.blockEntries_tokens
        (fun entry hmem ↦ ⟨hkeys entry hmem, ihkeys entry hmem⟩)
        (fun entry hmem ↦ ⟨hvalues entry hmem, ihvalues entry hmem⟩) (by omega), written]

/-- The tokens of a mapping make it the one document of a text. -/
theorem TokenReader.document_tokens {entries : List (Node × Node)}
    (hwritable : (Node.mapping none entries).Writable) (hsome : entries ≠ []) :
    TokenReader.document (.blockMappingStart :: (Node.entryTokens entries ++
      [.blockEnd, .streamEnd])) = ⟨(Node.mapping none entries).written false, .nothing⟩ := by
  have htokens : (Node.mapping none entries).tokens false false ++ [.streamEnd] =
      .blockMappingStart :: (Node.entryTokens entries ++ [.blockEnd, .streamEnd]) := by
    simp [Node.tokens, hsome]
  have hread := hwritable.readsBack false false false
    (4 * (Token.blockMappingStart :: (Node.entryTokens entries ++
      [.blockEnd, .streamEnd])).length + 8) [.streamEnd] [] standardHandles (by
        rw [← htokens, List.length_append]
        omega) (by simp)
  rw [htokens] at hread
  simp only [document, rootNode, List.nil_append, hread]
  rfl

end Roster.Yaml
