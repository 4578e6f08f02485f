import Roster.Proofs.Yaml.NodeTokens
import Roster.Proofs.Yaml.ScannedScalars

/-!
# Trees are scanned as they are written

The text of a tree is cut into the tokens of the tree (`scan_render`), so that a document is read
from its text as the tree that was written (`Document.ofText_render`).

What the scanner does with a node depends on where the node stands. As an item, or as a key or value
behind a mark, it begins where lines may begin (`Node.IsScanned`). As the value of a simple key it
begins behind the colon (`Node.IsValue`). Items and entries are parts of a collection (`IsPart`),
the first of which begins it, and parts are put together line by line (`IsPart.append`). The
induction over the tree is `Node.Writable.isScanned`.

A text may hold allowed characters only, and the characters of a written tree stand for themselves
(`Node.standsForItself_textAt`).
-/

set_option autoImplicit false
set_option relaxedAutoImplicit false

namespace Roster.Yaml

open Relation (ReflTransGen)
open Scanner

/-! ### Parts of a collection -/

/-- Lines that are a part of a collection at a column, with their tokens. At the column the scanner
takes them up to the line behind. The first part begins the collection. -/
structure IsPart (collection : Token) (columns : ℕ) (text : List Char) (found : List Token) :
    Prop extends IsLines text where
  /-- The scanner takes the lines. -/
  run : ∀ {cursor : Cursor} {tokens : List Token} {indent : ℤ} {outer : List ℤ} (column : ℕ)
    (rest : List Char),
    cursor.rest = text ++ (indentation column ++ rest) → cursor.column = columns →
    indent ≤ columns → column ≤ columns → BeginsToken rest →
    ReflTransGen Turns (inBlock cursor tokens none true indent outer)
      ((inBlock (cursor.past (text ++ indentation column))
        (found.reverse ++ (opening collection indent columns ++ tokens)) none true columns
        (enclosing indent columns outer)).closeTo column)

/-- Parts of a collection follow one another, each on its lines. -/
theorem IsPart.append {collection : Token} {columns : ℕ} {first second : List Char}
    {firstTokens secondTokens : List Token} (hfirst : IsPart collection columns first firstTokens)
    (hsecond : IsPart collection columns second secondTokens) :
    IsPart collection columns (first ++ (indentation columns ++ second))
      (firstTokens ++ secondTokens) := by
  refine ⟨hfirst.toIsLines.append hsecond.toIsLines _, fun {cursor tokens indent outer} column rest
    hrest hplace hindent hless hafter ↦ ?_⟩
  refine (hfirst.run columns (second ++ (indentation column ++ rest)) (by simpa using hrest) hplace
    hindent (Nat.le_refl _) (hsecond.beginsToken _)).trans ?_
  have hbehind : (cursor.past (first ++ indentation columns)).rest =
      second ++ (indentation column ++ rest) := Cursor.rest_past_of_eq (by simpa using hrest)
  have hmore : ReflTransGen Turns (inBlock (cursor.past (first ++ indentation columns))
      (firstTokens.reverse ++ (opening collection indent columns ++ tokens)) none true columns
      (enclosing indent columns outer)) _ :=
    hsecond.run column rest hbehind (hfirst.column_past cursor columns) (Int.le_refl columns) hless
      hafter
  rw [closeTo_of_le (Int.le_refl _)]
  rw [← Cursor.past_append, opening_self, enclosing_self] at hmore
  simpa using hmore

namespace Node

/-! ### Scanned nodes -/

/-- The scanner takes the lines of a node inside of a collection with its tokens. A node behind a
mark begins where lines may begin, and a node behind a key does not. -/
structure IsScanned (keyAllowed : Bool) (node : Node) : Prop where
  /-- The node is written as lines. -/
  isLines : ∀ columns, IsLines (node.textAt (columns + 2))
  /-- The scanner takes the lines. -/
  run : ∀ {cursor : Cursor} {tokens : List Token} {indent : ℕ} {outer : List ℤ} (column : ℕ)
    (rest : List Char),
    cursor.rest = node.textAt (indent + 2) ++ (indentation column ++ rest) →
    indent < cursor.column → (keyAllowed = true → cursor.column = indent + 2) →
    column ≤ indent → BeginsToken rest →
    ReflTransGen Turns (inBlock cursor tokens none keyAllowed indent outer)
      ((inBlock (cursor.past (node.textAt (indent + 2) ++ indentation column))
        ((node.tokens false false).reverse ++ tokens) none true indent outer).closeTo column)

/-- A scalar is scanned. -/
theorem isScanned_scalar {tag : Option String} {style : ScalarStyle} {text : String}
    (hwritable : (Node.scalar tag style text).Writable) (keyAllowed : Bool) :
    (Node.scalar tag style text).IsScanned keyAllowed := by
  cases hwritable with
  | scalar hempty hlines =>
    have hwritten (columns : ℕ) : WrittenScalar (columns + 2)
        (writtenStyle false style text.toList) text.toList
        (scalarText (columns + 2) false style text.toList) :=
      writtenScalar_scalarText (fun hnil ↦ hempty (String.toList_eq_nil_iff.mp hnil)) hlines
        fun _ ↦ Nat.succ_pos _
    exact ⟨fun columns ↦ (hwritten columns).isLines_endLine,
      fun {cursor tokens indent outer} column rest hrest hplace _ hless hafter ↦
        run_scalar (hwritten indent) (by push_cast; rfl) (Int.natCast_nonneg indent) hrest hafter
          (by omega) (by omega)⟩

/-- An empty collection is scanned. -/
theorem isScanned_empty {node : Node} {first last : Char} {start stop : Token}
    (hbrackets : Brackets first last start stop)
    (htext : ∀ columns, node.textAt columns = [first, last, '\n'])
    (htokens : node.tokens false false = [start, stop]) (keyAllowed : Bool) :
    node.IsScanned keyAllowed := by
  constructor
  · intro columns
    rw [htext]
    refine ⟨⟨first, _, rfl, ?_⟩, '\n', rfl, by decide⟩
    cases hbrackets <;> exact ⟨by decide, by decide, by decide⟩
  · intro cursor tokens indent outer column rest hrest hplace _ hless hafter
    rw [htext] at hrest ⊢
    have hleaf : WrittenLeaf 0 [start, stop] [first, last] := .empty hbrackets
    rw [htokens]
    exact run_leaf_line hleaf hrest hafter (by omega) (by omega)

/-- A collection is scanned whose lines are. -/
theorem isScanned_of_isPart {node : Node} {collection : Token} {text : ℕ → List Char}
    {found : List Token} (hpart : ∀ columns, IsPart collection columns (text columns) found)
    (htext : ∀ columns, node.textAt columns = text columns)
    (htokens : node.tokens false false = collection :: found ++ [.blockEnd]) :
    node.IsScanned true := by
  constructor
  · intro columns
    rw [htext]
    exact (hpart _).toIsLines
  · intro cursor tokens indent outer column rest hrest _ hplace hless hafter
    rw [htext] at hrest ⊢
    have hrun : ReflTransGen Turns (inBlock cursor tokens none true indent outer) _ :=
      (hpart (indent + 2)).run column rest hrest (hplace rfl) (by push_cast; omega) (by omega)
        hafter
    have hinner : (indent : ℤ) < (indent + 2 : ℕ) := by push_cast; omega
    rw [opening, enclosing, if_pos hinner, if_pos hinner, closeTo_of_lt (by push_cast; omega)]
      at hrun
    rw [htokens]
    simpa using hrun

/-! ### Items and entries -/

/-- A node behind a mark is a part of the collection of the mark. -/
theorem isPart_marked {node : Node} {character : Char} {token collection : Token}
    (hmark : Mark character token collection) (hnode : node.IsScanned true) (columns : ℕ) :
    IsPart collection columns (character :: ' ' :: node.textAt (columns + 2))
      (token :: node.tokens false false) := by
  have hlines := hnode.isLines columns
  have hline : ∀ other ∈ [character, ' '], isBreak other = false := by
    cases hmark <;> simp [isBreak]
  constructor
  · obtain ⟨last, hlast, hbreak⟩ := hlines.ends
    refine ⟨⟨character, _, rfl, ?_⟩, last, ?_, hbreak⟩
    · cases hmark <;> exact ⟨by decide, by decide, by decide⟩
    · simp [List.getLast?_cons, hlast]
  · intro cursor tokens indent outer column rest hrest hplace hindent hless hafter
    have hturn : Turns (inBlock cursor tokens none true indent outer) _ :=
      turns_mark hmark hrest (hlines.beginsToken (indentation column ++ rest)) (by omega)
    have hbehind : (cursor.past [character, ' ']).rest =
        node.textAt (columns + 2) ++ (indentation column ++ rest) :=
      Cursor.rest_past_of_eq hrest
    have hcolumn : (cursor.past [character, ' ']).column = columns + 2 := by
      rw [Cursor.past_eq_advance cursor hline, Cursor.advance, hplace]
      rfl
    have hrun : ReflTransGen Turns (inBlock (cursor.past [character, ' '])
        (token :: (opening collection indent columns ++ tokens)) none true columns
        (enclosing indent columns outer)) _ :=
      hnode.run column rest hbehind (by omega) (fun _ ↦ hcolumn) hless hafter
    rw [hplace] at hturn
    rw [← Cursor.past_append] at hrun
    simpa using hrun.head hturn

/-- Lines of items but the first are indented. -/
theorem itemsText_false {columns : ℕ} {items : List Node} (hsome : items ≠ []) :
    itemsText columns false items = indentation columns ++ itemsText columns true items := by
  cases items with
  | nil => exact absurd rfl hsome
  | cons item others => simp [itemsText]

/-- The items of a sequence are a part of it together. -/
theorem isPart_items {items : List Node} (hsome : items ≠ [])
    (hitems : ∀ item ∈ items, item.IsScanned true) (columns : ℕ) :
    IsPart .blockSequenceStart columns (itemsText columns true items) (itemTokens items) := by
  induction items with
  | nil => exact absurd rfl hsome
  | cons item others ih =>
    obtain ⟨hitem, hothers⟩ := List.forall_mem_cons.mp hitems
    have hfirst := isPart_marked .item hitem columns
    by_cases hnil : others = []
    · simpa [itemsText, itemTokens, hnil] using hfirst
    · have hboth := hfirst.append (ih hnil hothers)
      rw [itemsText, itemsText_false hnil, itemTokens]
      simpa using hboth

/-! ### Values of simple keys -/

/-- The scanner takes a node as the value of a simple key, from behind the colon on. -/
structure IsValue (node : Node) : Prop where
  /-- The colon is behind a key. -/
  gap : ∀ columns rest, atGap (node.valueText columns ++ rest) = true
  /-- The value ends with a line break. -/
  ends : ∀ columns, ∃ last, (node.valueText columns).getLast? = some last ∧ isBreak last = true
  /-- The scanner takes the value. -/
  run : ∀ {cursor : Cursor} {indent : ℕ} (tokens : List Token) (outer : List ℤ) (column : ℕ)
    (rest : List Char),
    cursor.rest = node.valueText indent ++ (indentation column ++ rest) →
    indent < cursor.column → column ≤ indent → BeginsToken rest →
    ∃ next, (inBlock cursor tokens none false indent outer).prepare = some next ∧
      next.cursor.rest.length ≤ cursor.rest.length ∧
      ReflTransGen Turns next
        ((inBlock (cursor.past (node.valueText indent ++ indentation column))
          ((node.tokens false true).reverse ++ tokens) none true indent outer).closeTo column)

/-- A value on the line of its key. -/
theorem isValue_of_blank {node : Node} (hnode : node.IsScanned false)
    (htext : ∀ columns, node.valueText columns = ' ' :: node.textAt (columns + 2))
    (htokens : node.tokens false true = node.tokens false false) : node.IsValue := by
  constructor
  · intro columns rest
    rw [htext]
    rfl
  · intro columns
    obtain ⟨last, hlast, hbreak⟩ := (hnode.isLines columns).ends
    exact ⟨last, by simp [htext, List.getLast?_cons, hlast], hbreak⟩
  · intro cursor indent tokens outer column rest hrest hplace hless hafter
    rw [htext] at hrest ⊢
    have hblank : cursor.rest = indentation 1 ++ (node.textAt (indent + 2) ++
        (indentation column ++ rest)) := hrest
    have hpast : cursor.past [' '] = cursor.advance 1 := cursor.past_indentation 1
    have hbehind : (cursor.advance 1).rest = node.textAt (indent + 2) ++
        (indentation column ++ rest) := by
      rw [← hpast]
      exact Cursor.rest_past_of_eq hrest
    refine ⟨_, prepare_blanks hblank ((hnode.isLines indent).beginsToken _) (by omega), ?_, ?_⟩
    · simp [inBlock, Cursor.advance]
    · have hrun :
          ReflTransGen Turns (inBlock (cursor.advance 1) tokens none false indent outer) _ :=
        hnode.run column rest hbehind (by simp only [Cursor.advance]; omega)
          (fun hallowed ↦ by cases hallowed) hless hafter
      rw [← hpast, ← Cursor.past_append] at hrun
      rw [← hpast, htokens]
      exact hrun

/-- A value on the lines behind its key. -/
theorem isValue_of_lines {node : Node} {text : ℕ → List Char} {inner : ℕ → ℕ}
    (htext : ∀ columns, node.valueText columns =
      '\n' :: (indentation (inner columns) ++ text columns))
    (hinner : ∀ columns, columns ≤ inner columns) (hlines : ∀ columns, IsLines (text columns))
    (hrun : ∀ (cursor : Cursor) (tokens : List Token) (indent : ℕ) (outer : List ℤ) (column : ℕ)
      (rest : List Char), cursor.rest = text indent ++ (indentation column ++ rest) →
      cursor.column = inner indent → column ≤ indent → BeginsToken rest →
      ReflTransGen Turns (inBlock cursor tokens none true indent outer)
        ((inBlock (cursor.past (text indent ++ indentation column))
          ((node.tokens false true).reverse ++ tokens) none true indent outer).closeTo column)) :
    node.IsValue := by
  constructor
  · intro columns rest
    rw [htext]
    rfl
  · intro columns
    obtain ⟨last, hlast, hbreak⟩ := (hlines columns).ends
    exact ⟨last, by simp [htext, List.getLast?_cons, List.getLast?_append, hlast], hbreak⟩
  · intro cursor indent tokens outer column rest hrest _ hless hafter
    rw [htext] at hrest ⊢
    have hline : cursor.rest = '\n' :: (indentation (inner indent) ++ (text indent ++
        (indentation column ++ rest))) := by
      simpa using hrest
    have hbehind : (cursor.past ('\n' :: indentation (inner indent))).rest =
        text indent ++ (indentation column ++ rest) :=
      Cursor.rest_past_of_eq (by simpa using hrest)
    have hvalue := hrun _ tokens indent outer column rest hbehind
      (cursor.column_past_line (inner indent)) hless hafter
    rw [← Cursor.past_append] at hvalue
    refine ⟨_, prepare_newLine hline ((hlines indent).beginsToken _)
      (Int.ofNat_le.mpr (hinner indent)), ?_, by simpa using hvalue⟩
    simp [inBlock, Cursor.rest_past]

/-- A collection behind its key, which is further in. -/
theorem isValue_of_isScanned {node : Node} (hnode : node.IsScanned true)
    (htext : ∀ columns, node.valueText columns =
      '\n' :: (indentation (columns + 2) ++ node.textAt (columns + 2)))
    (htokens : node.tokens false true = node.tokens false false) : node.IsValue := by
  refine isValue_of_lines htext (fun columns ↦ Nat.le_add_right columns 2) hnode.isLines ?_
  intro cursor tokens indent outer column rest hrest hplace hless hafter
  rw [htokens]
  exact hnode.run column rest hrest (by omega) (fun _ ↦ hplace) hless hafter

/-- A collection behind its key, which is at the same column. -/
theorem isValue_of_isPart {node : Node} {collection : Token} {text : ℕ → List Char}
    {found : List Token} (hpart : ∀ columns, IsPart collection columns (text columns) found)
    (htext : ∀ columns, node.valueText columns = '\n' :: (indentation columns ++ text columns))
    (htokens : node.tokens false true = found) : node.IsValue := by
  refine isValue_of_lines htext (fun columns ↦ Nat.le_refl columns)
    (fun columns ↦ (hpart columns).toIsLines) ?_
  intro cursor tokens indent outer column rest hrest hplace hless hafter
  have hrun : ReflTransGen Turns (inBlock cursor tokens none true indent outer) _ :=
    (hpart indent).run column rest hrest hplace (Int.le_refl _) hless hafter
  rw [opening_self, enclosing_self] at hrun
  rw [htokens]
  exact hrun

/-! ### Simple keys -/

/-- A simple key is a leaf on a line of limited length. -/
theorem Writable.writtenLeaf {key : Node} (hwritable : key.Writable)
    (hsimple : key.isSimpleKey = true) :
    WrittenLeaf 0 (key.tokens true false) key.simpleKeyText ∧
      (∀ character ∈ key.simpleKeyText, isBreak character = false) ∧
      key.simpleKeyText.length ≤ 1024 := by
  cases hwritable with
  | @scalar _ style text hempty hlines =>
    simp only [isSimpleKey, Bool.and_eq_true, Bool.not_eq_eq_eq_not, Bool.not_true,
      List.any_eq_false, Bool.not_eq_true, decide_eq_true_eq] at hsimple
    have hwritten : WrittenScalar 0 (writtenStyle true style text.toList) text.toList
        (scalarText 0 true style text.toList) :=
      writtenScalar_scalarText (fun hnil ↦ hempty (String.toList_eq_nil_iff.mp hnil)) hlines
        fun hkey ↦ by cases hkey
    have hblock := writtenStyle_ne_literal style text.toList
    obtain ⟨hline, hlength⟩ := hwritten.key hblock hsimple.1
    rw [← utf8ByteSize_eq_sum] at hlength
    exact ⟨.scalar hwritten hblock, hline, by simp only [simpleKeyText]; omega⟩
  | @sequence _ items =>
    rw [isSimpleKey, List.isEmpty_iff] at hsimple
    subst hsimple
    exact ⟨.empty .sequence, by simp [simpleKeyText, isBreak], by simp [simpleKeyText]⟩
  | @mapping _ entries =>
    rw [isSimpleKey, List.isEmpty_iff] at hsimple
    subst hsimple
    exact ⟨.empty .mapping, by simp [simpleKeyText, isBreak], by simp [simpleKeyText]⟩

/-- A simple key with its value is a part of its mapping. -/
theorem isPart_simpleEntry {key value : Node} (hkey : key.Writable)
    (hsimple : key.isSimpleKey = true) (hvalue : value.IsValue) (columns : ℕ) :
    IsPart .blockMappingStart columns (key.simpleKeyText ++ ':' :: value.valueText columns)
      (.key :: (key.tokens true false ++ .value :: value.tokens false true)) := by
  obtain ⟨hleaf, hline, hlength⟩ := hkey.writtenLeaf hsimple
  constructor
  · obtain ⟨first, others, hraw, hbegins⟩ := hleaf.beginsToken
    obtain ⟨last, hlast, hbreak⟩ := hvalue.ends columns
    refine ⟨⟨first, _, by rw [hraw]; rfl, ?_⟩, last, ?_, hbreak⟩
    · rw [hraw] at hbegins ⊢
      exact hbegins
    · simp [List.getLast?_append, List.getLast?_cons, hlast]
  · intro cursor tokens indent outer column rest hrest hplace hindent hless hafter
    have hbehind : (cursor.past (key.simpleKeyText ++ [':'])).rest =
        value.valueText columns ++ (indentation column ++ rest) :=
      Cursor.rest_past_of_eq (by simpa using hrest)
    have hcolumn : columns < (cursor.past (key.simpleKeyText ++ [':'])).column := by
      have hcolon : ∀ character ∈ key.simpleKeyText ++ [':'], isBreak character = false := by
        simp only [List.forall_mem_append, List.forall_mem_singleton]
        exact ⟨hline, by decide⟩
      rw [cursor.past_eq_advance hcolon]
      simp only [Cursor.advance, hplace, List.length_append, List.length_singleton]
      omega
    obtain ⟨next, hnext, hshorter, hrun⟩ := hvalue.run
      (.value :: ((key.tokens true false).reverse ++ .key ::
        (opening .blockMappingStart indent columns ++ tokens)))
      (enclosing indent columns outer) column rest hbehind hcolumn hless hafter
    have hkeyRun : ReflTransGen Turns (inBlock cursor tokens none true indent outer) next := by
      refine run_leaf_key hleaf hline hlength (by simpa using hrest) (hvalue.gap columns _)
        (by omega) (by rwa [hplace]) (by rwa [hbehind] at hshorter)
    rw [← Cursor.past_append] at hrun
    simpa using hkeyRun.trans hrun

/-- A key behind a mark with its value behind another one is a part of its mapping. -/
theorem isPart_markedEntry {key value : Node} (hkey : key.IsScanned true)
    (hvalue : value.IsScanned true) (columns : ℕ) :
    IsPart .blockMappingStart columns
      ('?' :: ' ' :: key.textAt (columns + 2) ++ (indentation columns ++
        ':' :: ' ' :: value.textAt (columns + 2)))
      (.key :: key.tokens false false ++ .value :: value.tokens false false) :=
  (isPart_marked .key hkey columns).append (isPart_marked .value hvalue columns)

/-- Lines of entries but the first are indented. -/
theorem entriesText_false {columns : ℕ} {entries : List (Node × Node)} (hsome : entries ≠ []) :
    entriesText columns false entries =
      indentation columns ++ entriesText columns true entries := by
  cases entries with
  | nil => exact absurd rfl hsome
  | cons entry others => simp [entriesText]

/-- An entry is a part of its mapping. -/
theorem isPart_entry {key value : Node} (hkey : key.Writable) (hkeyScanned : key.IsScanned true)
    (hvalueScanned : value.IsScanned true) (hvalue : value.IsValue) (columns : ℕ) :
    IsPart .blockMappingStart columns (entriesText columns true [(key, value)])
      (entryTokens [(key, value)]) := by
  cases hsimple : key.isSimpleKey with
  | true =>
    simpa [entriesText, entryTokens, hsimple] using isPart_simpleEntry hkey hsimple hvalue columns
  | false =>
    simpa [entriesText, entryTokens, hsimple] using
      isPart_markedEntry hkeyScanned hvalueScanned columns

/-- The entries of a mapping are a part of it together. -/
theorem isPart_entries {entries : List (Node × Node)} (hsome : entries ≠ [])
    (hkeys : ∀ entry ∈ entries, entry.1.Writable ∧ entry.1.IsScanned true)
    (hvalues : ∀ entry ∈ entries, entry.2.IsScanned true ∧ entry.2.IsValue) (columns : ℕ) :
    IsPart .blockMappingStart columns (entriesText columns true entries) (entryTokens entries) := by
  induction entries with
  | nil => exact absurd rfl hsome
  | cons entry others ih =>
    obtain ⟨key, value⟩ := entry
    obtain ⟨⟨hkey, hkeyScanned⟩ : key.Writable ∧ key.IsScanned true, hkeys⟩ :=
      List.forall_mem_cons.mp hkeys
    obtain ⟨⟨hvalueScanned, hvalue⟩ : value.IsScanned true ∧ value.IsValue, hvalues⟩ :=
      List.forall_mem_cons.mp hvalues
    have hfirst := isPart_entry hkey hkeyScanned hvalueScanned hvalue columns
    by_cases hnil : others = []
    · rwa [hnil]
    · have hboth := hfirst.append (ih hnil hkeys hvalues)
      rw [entriesText] at hboth ⊢
      rw [entriesText_false hnil]
      simpa [entriesText, entryTokens] using hboth

/-! ### Trees -/

/-- A tree that can be written is scanned, as an item and as a value. -/
theorem Writable.isScanned {node : Node} (hwritable : node.Writable) :
    node.IsScanned true ∧ node.IsValue := by
  induction hwritable with
  | scalar hempty hlines =>
    exact ⟨isScanned_scalar (.scalar hempty hlines) true,
      isValue_of_blank (isScanned_scalar (.scalar hempty hlines) false) (fun _ ↦ rfl) rfl⟩
  | @sequence _ items hitems ih =>
    by_cases hnil : items = []
    · subst hnil
      exact ⟨isScanned_empty .sequence (fun _ ↦ rfl) rfl true,
        isValue_of_blank (isScanned_empty .sequence (fun _ ↦ rfl) rfl false) (fun _ ↦ rfl) rfl⟩
    · have hparts := isPart_items hnil fun item hmem ↦ (ih item hmem).1
      refine ⟨isScanned_of_isPart hparts (fun columns ↦ ?_) ?_,
        isValue_of_isPart hparts (fun columns ↦ ?_) ?_⟩
      · simp [textAt, hnil]
      · simp [tokens, hnil]
      · simp [valueText, hnil]
      · simp [tokens, hnil]
  | @mapping tag entries hkeys hvalues ihkeys ihvalues =>
    by_cases hnil : entries = []
    · subst hnil
      exact ⟨isScanned_empty .mapping (fun _ ↦ rfl) rfl true,
        isValue_of_blank (isScanned_empty .mapping (fun _ ↦ rfl) rfl false) (fun _ ↦ rfl) rfl⟩
    · have hparts := isPart_entries hnil
        (fun entry hmem ↦ ⟨hkeys entry hmem, (ihkeys entry hmem).1⟩) ihvalues
      have hscanned : (Node.mapping tag entries).IsScanned true :=
        isScanned_of_isPart hparts (fun columns ↦ by simp [textAt, hnil]) (by simp [tokens, hnil])
      refine ⟨hscanned, isValue_of_isScanned hscanned (fun columns ↦ ?_) ?_⟩
      · simp [textAt, valueText, hnil]
      · simp [tokens, hnil]

end Node

/-! ### Characters -/

/-- A line break stands for itself. -/
theorem standsForItself_endLine {raw : List Char}
    (hraw : ∀ character ∈ raw, standsForItself character = true) :
    ∀ character ∈ endLine raw, standsForItself character = true := by
  rw [endLine]
  split
  · exact hraw
  · exact List.forall_mem_append.mpr ⟨hraw, List.all_eq_true.mp (by decide)⟩

theorem standsForItself_indentation (columns : ℕ) :
    ∀ character ∈ indentation columns, standsForItself character = true := by
  intro character hmem
  obtain rfl := List.eq_of_mem_replicate hmem
  decide

/-- What stands in front of an item or entry, which may already be at its place. -/
theorem standsForItself_place (columns : ℕ) (atPlace : Bool) :
    ∀ character ∈ if atPlace then [] else indentation columns,
      standsForItself character = true := by
  cases atPlace
  · exact standsForItself_indentation columns
  · simp

namespace Node

/-- A simple key is written with characters that stand for themselves. -/
theorem standsForItself_simpleKeyText : ∀ node : Node,
    ∀ character ∈ node.simpleKeyText, standsForItself character = true
  | .scalar _ style text => by
    rw [simpleKeyText]
    exact standsForItself_scalarText 0 true style text.toList
  | .sequence .. => by simp [simpleKeyText, standsForItself]
  | .mapping .. => by simp [simpleKeyText, standsForItself]
  | .anchored _ node => by
    rw [simpleKeyText]
    exact standsForItself_simpleKeyText node
  | .alias _ => by simp [simpleKeyText]
  | .cut => by simp [simpleKeyText]

mutual

/-- A tree is written with characters that stand for themselves. -/
theorem standsForItself_textAt (columns : ℕ) : ∀ node : Node,
    ∀ character ∈ node.textAt columns, standsForItself character = true
  | .scalar _ style text => by
    rw [textAt]
    exact standsForItself_endLine (standsForItself_scalarText columns false style text.toList)
  | .sequence _ items => by
    rw [textAt]
    split
    · exact List.all_eq_true.mp (by decide)
    · exact standsForItself_itemsText columns true items
  | .mapping _ entries => by
    rw [textAt]
    split
    · exact List.all_eq_true.mp (by decide)
    · exact standsForItself_entriesText columns true entries
  | .anchored _ node => by
    rw [textAt]
    exact standsForItself_textAt columns node
  | .alias _ => by simp [textAt]
  | .cut => by simp [textAt]

/-- Items are written with such characters. -/
theorem standsForItself_itemsText (columns : ℕ) (atPlace : Bool) : ∀ items : List Node,
    ∀ character ∈ itemsText columns atPlace items, standsForItself character = true
  | [] => by simp [itemsText]
  | item :: rest => by
    have hindent := standsForItself_place columns atPlace
    rw [itemsText]
    simp only [List.forall_mem_append]
    exact ⟨⟨⟨hindent, List.all_eq_true.mp (by decide)⟩, standsForItself_textAt (columns + 2) item⟩,
      standsForItself_itemsText columns false rest⟩

/-- Entries are written with such characters. -/
theorem standsForItself_entriesText (columns : ℕ) (atPlace : Bool) :
    ∀ entries : List (Node × Node),
    ∀ character ∈ entriesText columns atPlace entries, standsForItself character = true
  | [] => by simp [entriesText]
  | (key, value) :: rest => by
    have hindent := standsForItself_place columns atPlace
    have hvalue := standsForItself_valueText columns value
    have hmarkedKey := standsForItself_textAt (columns + 2) key
    have hmarkedValue := standsForItself_textAt (columns + 2) value
    rw [entriesText]
    simp only [List.forall_mem_append]
    refine ⟨⟨hindent, ?_⟩, standsForItself_entriesText columns false rest⟩
    split
    · simp only [List.forall_mem_append, List.forall_mem_singleton]
      exact ⟨⟨standsForItself_simpleKeyText key, by decide⟩, hvalue⟩
    · simp only [List.forall_mem_append]
      exact ⟨⟨⟨⟨List.all_eq_true.mp (by decide), hmarkedKey⟩, standsForItself_indentation columns⟩,
        List.all_eq_true.mp (by decide)⟩, hmarkedValue⟩

/-- Values are written with such characters. -/
theorem standsForItself_valueText (columns : ℕ) : ∀ node : Node,
    ∀ character ∈ node.valueText columns, standsForItself character = true
  | .scalar _ style text => by
    rw [valueText]
    exact List.forall_mem_append.mpr ⟨List.all_eq_true.mp (by decide),
      standsForItself_endLine (standsForItself_scalarText (columns + 2) false style text.toList)⟩
  | .sequence _ items => by
    rw [valueText]
    split
    · exact List.all_eq_true.mp (by decide)
    · simp only [List.forall_mem_append, List.forall_mem_singleton]
      exact ⟨⟨by decide, standsForItself_indentation columns⟩,
        standsForItself_itemsText columns true items⟩
  | .mapping _ entries => by
    rw [valueText]
    split
    · exact List.all_eq_true.mp (by decide)
    · simp only [List.forall_mem_append, List.forall_mem_singleton]
      exact ⟨⟨by decide, standsForItself_indentation (columns + 2)⟩,
        standsForItself_entriesText (columns + 2) true entries⟩
  | .anchored _ node => by
    rw [valueText]
    exact standsForItself_valueText columns node
  | .alias _ => by simp [valueText, standsForItself]
  | .cut => by simp [valueText, standsForItself]

end

end Node

/-- What stands for itself is allowed in a text. -/
theorem isAllowed_of_standsForItself {character : Char}
    (hstands : standsForItself character = true) : isAllowed character = true := by
  simp only [standsForItself, isAllowed, Bool.or_eq_true, Bool.and_eq_true, decide_eq_true_eq]
    at hstands ⊢
  omega

/-! ### Documents -/

/-- A text starts with its first token, outside of all collections. -/
theorem prepare_start {text : List Char} (hbegins : BeginsToken text) :
    (Scanner.start text).prepare = some (inBlock (.start text) [] none true (-1) []) :=
  @prepare_blanks (.start text) [] true (-1) [] text 0 rfl hbegins (by simp [Cursor.start])

/-- At its end a text ends, with the mapping that it is made of. -/
theorem fetchAt_end {cursor : Cursor} {tokens : List Token} (hrest : cursor.rest = []) :
    (inBlock cursor tokens none true 0 [-1]).fetchAt.bind dropStale =
      some (inBlock cursor (.streamEnd :: .blockEnd :: tokens) none false (-1) []) := by
  simp [fetchAt, inBlock, hrest, fetchEnd, closeTo, inFlow, closeFrom, push, dropPending, dropStale,
    allPending]

/-- The text of a mapping is cut into its tokens. -/
theorem scan_render {tag : Option String} {entries : List (Node × Node)}
    (hwritable : (Node.mapping tag entries).Writable) (hsome : entries ≠ []) :
    scan (Node.mapping tag entries).render.toList =
      ⟨.blockMappingStart :: (Node.entryTokens entries ++ [.blockEnd, .streamEnd]), false⟩ := by
  have hallowed : (Node.mapping tag entries).render.toList.all isAllowed = true := by
    rw [List.all_eq_true, Node.render, String.toList_ofList]
    exact fun character hmem ↦ isAllowed_of_standsForItself
      (Node.standsForItself_textAt 0 _ character hmem)
  have htext : (Node.mapping tag entries).render.toList = Node.entriesText 0 true entries := by
    simp [Node.render, Node.textAt, hsome]
  have hpart : IsPart .blockMappingStart 0 (Node.entriesText 0 true entries)
      (Node.entryTokens entries) := by
    cases hwritable with
    | mapping hkeys hvalues =>
      exact Node.isPart_entries hsome
        (fun entry hmem ↦ ⟨hkeys entry hmem, (hkeys entry hmem).isScanned.1⟩)
        (fun entry hmem ↦ (hvalues entry hmem).isScanned) 0
  rw [scan, if_pos hallowed, htext]
  generalize Node.entriesText 0 true entries = text at hpart
  have hrun : ReflTransGen Turns (inBlock (.start text) [] none true (-1) []) _ :=
    hpart.run 0 [] (by simp [Cursor.start, indentation]) rfl (by decide) (Nat.le_refl _) trivial
  have hbehind : ((Cursor.start text).past (text ++ indentation 0)).rest = [] :=
    Cursor.rest_past_of_eq (by simp [Cursor.start, indentation])
  have hbegins : BeginsToken text := by simpa using hpart.beginsToken []
  have hless : (inBlock (.start text) [] none true (-1) []).cursor.rest.length < text.length + 2 :=
    Nat.lt_add_of_pos_right (by decide)
  rw [closeTo_of_le (Int.le_refl _)] at hrun
  rw [scanFrom_of_run hrun (fetchAt_end hbehind) rfl (prepare_start hbegins) hless]
  simp [inBlock, opening]

/-- A mapping that can be written is the one document of its text. -/
theorem Document.ofText_render {entries : List (Node × Node)}
    (hwritable : (Node.mapping none entries).Writable) (hsome : entries ≠ []) :
    Document.ofText (Node.mapping none entries).render.toList =
      ⟨(Node.mapping none entries).written false, .nothing⟩ := by
  rw [Document.ofText, scan_render hwritable hsome]
  exact TokenReader.document_tokens hwritable hsome

end Roster.Yaml
