import Roster.Yaml.Writer

/-!
# Trees as they are written

A tree says of each scalar in which style to write it, and the writer departs from that where the
text does not permit the style. `Node.written` is the tree with the styles that are used in the end,
which is all that can be seen of it in the text; numbers and tags are not written.

Not every tree can be written so that it is read back: `Node.Writable` rules out the aliases and the
scalars for which the writer has no text.

The trees of the data of this library are writable (`writable_ofText`, `writable_toNode`). A text
that could mean something else is never written plain (`exists_written_ofText`), and a plain
spelling stays one if its characters are harmless (`writtenStyle_plain`).
-/

set_option autoImplicit false
set_option relaxedAutoImplicit false

namespace Roster.Yaml

/-! ### The styles in use -/

/-- The style in which a scalar is written whose node asks for `wanted`. -/
def writtenStyle (inKey : Bool) (wanted : ScalarStyle) (text : List Char) : ScalarStyle :=
  if text.isEmpty then if inKey || wanted = .singleQuoted then .singleQuoted else .plain
  else
    match (Features.ofText text).style wanted inKey with
    | .folded => .literal
    | style => style

namespace Node

mutual

/-- The tree as it is written, as a key on the line of its value if `inKey` is set. -/
def written (inKey : Bool) : Node → Node
  | .scalar _ style text => .scalar none (writtenStyle inKey style text.toList) text
  | .sequence _ items => .sequence none (writtenItems items)
  | .mapping _ entries => .mapping none (writtenEntries entries)
  | .anchored _ node => node.written inKey
  | .alias number => .alias number
  | .cut => .cut

/-- The items of a sequence as they are written. -/
def writtenItems : List Node → List Node
  | [] => []
  | item :: rest => item.written false :: writtenItems rest

/-- The entries of a mapping as they are written. -/
def writtenEntries : List (Node × Node) → List (Node × Node)
  | [] => []
  | (key, value) :: rest =>
    (key.written key.isSimpleKey, value.written false) :: writtenEntries rest

end

/-- The items of a sequence are written one by one. -/
theorem writtenItems_eq_map (items : List Node) :
    writtenItems items = items.map (written false) := by
  induction items with
  | nil => rfl
  | cons item rest ih => rw [writtenItems, ih, List.map_cons]

/-- The entries of a mapping are written one by one. -/
theorem writtenEntries_eq_map (entries : List (Node × Node)) :
    writtenEntries entries =
      entries.map fun entry ↦ (entry.1.written entry.1.isSimpleKey, entry.2.written false) := by
  induction entries with
  | nil => rfl
  | cons entry rest ih => rw [writtenEntries, ih, List.map_cons]

/-- A tree without aliases, in which each scalar asks for a style that has room for its text: quotes
for an empty one, and neither plain text nor single quotes for line feeds. -/
inductive Writable : Node → Prop
  /-- A scalar. -/
  | scalar {tag : Option String} {style : ScalarStyle} {text : String}
    (hempty : text = "" → style = .singleQuoted)
    (hlines : '\n' ∈ text.toList → style ≠ .plain ∧ style ≠ .singleQuoted) :
    Writable (.scalar tag style text)
  /-- A sequence of such trees. -/
  | sequence {tag : Option String} {items : List Node}
    (hitems : ∀ item ∈ items, Writable item) : Writable (.sequence tag items)
  /-- A mapping of such trees. -/
  | mapping {tag : Option String} {entries : List (Node × Node)}
    (hkeys : ∀ entry ∈ entries, Writable entry.1)
    (hvalues : ∀ entry ∈ entries, Writable entry.2) : Writable (.mapping tag entries)

end Node

/-! ### What is written plain -/

/-- Only a scalar that asks for it is written plain. -/
theorem eq_plain_of_writtenStyle {inKey : Bool} {wanted : ScalarStyle} {text : List Char}
    (hempty : text = [] → wanted = .singleQuoted)
    (hplain : writtenStyle inKey wanted text = .plain) :
    wanted = .plain := by
  rw [writtenStyle] at hplain
  cases htext : text.isEmpty
  · simp only [htext, Bool.false_eq_true, if_false, Features.style] at hplain
    cases wanted <;> grind
  · simp [htext, hempty (List.isEmpty_iff.mp htext)] at hplain

/-- A character that has no meaning in a text but at the very start of it. -/
def isHarmless (character : Char) : Bool :=
  character.isAlphanum || character = '.' || character = '-'

theorem standsForItself_of_isHarmless {character : Char} (hharmless : isHarmless character = true) :
    standsForItself character = true := by
  simp only [isHarmless, Bool.or_eq_true, decide_eq_true_eq] at hharmless
  rcases hharmless with (halphanum | rfl) | rfl
  · have hcode : character.toNat ≤ 0x7e ∧ 0x20 ≤ character.toNat := by
      delta Char.isAlphanum Char.isAlpha Char.isUpper Char.isLower Char.isDigit at halphanum
      simp only [Bool.or_eq_true, Bool.and_eq_true, decide_eq_true_eq, ge_iff_le,
        UInt32.le_iff_toNat_le] at halphanum
      simp at halphanum
      omega
    simp [standsForItself, hcode]
  · decide
  · decide

/-- A character with a meaning is none of the harmless ones. -/
theorem ne_of_isHarmless {character other : Char} (hharmless : isHarmless character = true)
    (hmeaning : isHarmless other = false) : character ≠ other := by
  rintro rfl
  rw [hharmless] at hmeaning
  cases hmeaning

theorem isGap_of_isHarmless {character : Char} (hharmless : isHarmless character = true) :
    isGap character = false := by
  have hother (other : Char) (hmeaning : isHarmless other = false) : character ≠ other :=
    ne_of_isHarmless hharmless hmeaning
  simp (disch := decide) [isGap, isSpace, isBreak, hother]

/-- Where no character has a meaning, no pair of them has one. -/
theorem hasPair_eq_false {first second : Char → Bool} {text : List Char}
    (hnone : (∀ character ∈ text, first character = false) ∨
      ∀ character ∈ text, second character = false) :
    hasPair first second text = false := by
  induction text with
  | nil => rfl
  | cons one rest ih =>
    cases rest with
    | nil => rfl
    | cons other rest =>
      rw [hasPair, ih (hnone.imp (fun h ↦ (List.forall_mem_cons.mp h).2)
        (fun h ↦ (List.forall_mem_cons.mp h).2))]
      rcases hnone with hnone | hnone <;> simp [hnone]

theorem hasInnerIndicator_eq_false {before : Char} {text : List Char}
    (hnone : ∀ character ∈ text, character ≠ ':' ∧ character ≠ '#') :
    hasInnerIndicator before text = false := by
  induction text generalizing before with
  | nil => rfl
  | cons character rest ih =>
    obtain ⟨hcharacter, hrest⟩ := List.forall_mem_cons.mp hnone
    simp [hasInnerIndicator, hcharacter, ih hrest]

/-- A harmless character begins nothing but a text, unless it is a hyphen in front of a gap. -/
theorem isFirstIndicator_eq_false {first : Char} {rest : List Char}
    (hharmless : isHarmless first = true) (hgap : first = '-' → atGap rest = false) :
    isFirstIndicator first rest = false := by
  have hlist : "#,[]\x7b\x7d&*!|>'\"%@`".toList.contains first = false := by
    have hmeaning : ∀ other ∈ "#,[]\x7b\x7d&*!|>'\"%@`".toList, (!isHarmless other) = true :=
      List.all_eq_true.mp (by decide)
    rw [List.contains_eq_mem, decide_eq_false_iff_not]
    exact fun hmem ↦ ne_of_isHarmless hharmless (by simpa using hmeaning first hmem) rfl
  have hquestion : first ≠ '?' := ne_of_isHarmless hharmless (by decide)
  have hcolon : first ≠ ':' := ne_of_isHarmless hharmless (by decide)
  rw [isFirstIndicator, hlist, Bool.false_or, decide_eq_false hquestion, decide_eq_false hcolon]
  by_cases hminus : first = '-'
  · simp [hgap hminus]
  · simp [hminus]

/-- A text of harmless characters with a letter or a digit near its start has no feature that
forbids a style. -/
theorem Features.ofText_of_isHarmless {text : List Char}
    (hharmless : ∀ character ∈ text, isHarmless character = true)
    (hstart : ∃ character ∈ text.take 3, character.isAlphanum = true) :
    Features.ofText text = ⟨false, false, false, false, false, false⟩ := by
  obtain ⟨mark, hmark, halphanum⟩ := hstart
  have hthree (three : List Char) (hnone : three.all (!·.isAlphanum) = true) :
      text.take 3 ≠ three := by
    rintro rfl
    simpa [halphanum] using List.all_eq_true.mp hnone mark hmark
  have hgap : ∀ character ∈ text, isGap character = false := fun character hmem ↦
    isGap_of_isHarmless (hharmless character hmem)
  have hbreak : ∀ character ∈ text, isBreak character = false := fun character hmem ↦
    (Bool.or_eq_false_iff.mp (hgap character hmem)).2
  have hspace : ∀ character ∈ text, character ≠ ' ' := fun character hmem ↦
    ne_of_isHarmless (hharmless character hmem) (by decide)
  cases text with
  | nil => simp at hmark
  | cons first rest =>
    have hmultiline : (first :: rest).any isBreak = false := by
      simpa only [List.any_eq_false, Bool.not_eq_true] using hbreak
    have hlast : ∀ last ∈ (first :: rest).getLast?, last ≠ ' ' ∧ isBreak last = false :=
      fun last hlast ↦ ⟨hspace last (List.mem_of_getLast? hlast),
        hbreak last (List.mem_of_getLast? hlast)⟩
    have hfirst : first ≠ ' ' ∧ isBreak first = false :=
      ⟨hspace first List.mem_cons_self, hbreak first List.mem_cons_self⟩
    have hescapes : (first :: rest).all standsForItself = true :=
      List.all_eq_true.mpr fun character hmem ↦
        standsForItself_of_isHarmless (hharmless character hmem)
    have hindicator : isFirstIndicator first rest = false := by
      refine isFirstIndicator_eq_false (hharmless first List.mem_cons_self) ?_
      rintro rfl
      cases rest with
      | nil => exact absurd rfl (hthree ['-'] (by decide))
      | cons second others => exact hgap second (by simp)
    have hinner : hasInnerIndicator first rest = false :=
      hasInnerIndicator_eq_false fun character hmem ↦
        have hcharacter := hharmless character (List.mem_cons_of_mem first hmem)
        ⟨ne_of_isHarmless hcharacter (by decide), ne_of_isHarmless hcharacter (by decide)⟩
    have hafter : hasPair isBreak (· = ' ') (first :: rest) = false :=
      hasPair_eq_false (Or.inl hbreak)
    have hbefore : hasPair (· = ' ') isBreak (first :: rest) = false :=
      hasPair_eq_false (Or.inr hbreak)
    have hends : ((first :: rest).getLast?.any fun character ↦
        decide (character = ' ') || isBreak character) = false := by
      rw [List.getLast?_eq_some_getLast (List.cons_ne_nil first rest)] at hlast ⊢
      simp [hlast _ rfl]
    have hblank : (first :: rest).getLast? ≠ some ' ' := fun hend ↦ (hlast ' ' hend).1 rfl
    simp only [Features.ofText, hmultiline, hends, hblank, hafter, hbefore, hescapes, hindicator,
      hinner, hfirst, hthree ['-', '-', '-'] (by decide), hthree ['.', '.', '.'] (by decide)]
    simp

/-- A text of harmless characters with a letter or a digit near its start is written plain. -/
theorem writtenStyle_plain {inKey : Bool} {text : List Char}
    (hharmless : ∀ character ∈ text, isHarmless character = true)
    (hstart : ∃ character ∈ text.take 3, character.isAlphanum = true) :
    writtenStyle inKey .plain text = .plain := by
  have hsome : text.isEmpty = false := by
    obtain ⟨mark, hmark, -⟩ := hstart
    cases text with
    | nil => simp at hmark
    | cons first rest => rfl
  simp [writtenStyle, hsome, Features.ofText_of_isHarmless hharmless hstart, Features.style]

namespace Node

/-- A text can be written. -/
theorem writable_ofText (text : String) : (ofText text).Writable := by
  rw [ofText]
  split
  case isTrue hlines =>
    refine .scalar ?_ fun _ ↦ by simp
    rintro rfl
    simp at hlines
  case isFalse hline =>
    have hnone : '\n' ∉ text.toList := by simpa using hline
    split
    case isTrue => exact .scalar (fun _ ↦ rfl) fun hmem ↦ absurd hmem hnone
    case isFalse hmeaning =>
      refine .scalar ?_ fun hmem ↦ absurd hmem hnone
      rintro rfl
      exact absurd (by decide) hmeaning

/-- A text is written as itself, and without quotes only if nothing else is meant by it. -/
theorem exists_written_ofText (inKey : Bool) (text : String) :
    ∃ style, (ofText text).written inKey = .scalar none style text ∧
      (style = .plain → plainMeaning text = .text) := by
  have hstyled (wanted : ScalarStyle) (hempty : text.toList = [] → wanted = .singleQuoted)
      (hmeaning : wanted = .plain → plainMeaning text = .text) :
      ∃ style, (Node.scalar none wanted text).written inKey = .scalar none style text ∧
        (style = .plain → plainMeaning text = .text) :=
    ⟨_, rfl, fun hplain ↦ hmeaning (eq_plain_of_writtenStyle hempty hplain)⟩
  rw [ofText]
  split
  case isTrue hlines =>
    refine hstyled .literal (fun hempty ↦ ?_) (fun hplain ↦ by cases hplain)
    simp [hempty] at hlines
  case isFalse hline =>
    split
    case isTrue => exact hstyled .singleQuoted (fun _ ↦ rfl) (fun hplain ↦ by cases hplain)
    case isFalse hmeaning =>
      simp only [Bool.or_eq_true, decide_eq_true_eq, not_or, Decidable.not_not] at hmeaning
      refine hstyled .plain (fun hempty ↦ ?_) fun _ ↦ hmeaning.1
      rw [String.toList_eq_nil_iff.mp hempty] at hmeaning
      exact absurd hmeaning.1 (by decide)

/-- Texts with their nodes can be written. -/
theorem Writable.ofEntries {entries : List (String × Node)}
    (hentries : ∀ entry ∈ entries, entry.2.Writable) : (Node.ofEntries entries).Writable := by
  refine .mapping ?_ ?_ <;> intro entry hmem <;> obtain ⟨named, hnamed, rfl⟩ := List.mem_map.mp hmem
  · exact writable_ofText named.1
  · exact hentries named hnamed

/-- Texts can be written one after the other. -/
theorem writable_ofTexts (texts : List String) : (ofTexts texts).Writable := by
  refine .sequence fun item hmem ↦ ?_
  obtain ⟨text, _, rfl⟩ := List.mem_map.mp hmem
  exact writable_ofText text

end Node

end Roster.Yaml
