import Roster.Proofs.Binary64.WrittenNumbers
import Roster.Proofs.Yaml.Readings
import Roster.Proofs.Yaml.WrittenNodes

/-!
# Values survive being written

A value that was read from a document (`Value.Fits`) has integers of 64 bits, floating-point numbers
that a text can stand for, and no more levels than could be read. Written and read again, it is the
same value (`Value.Fits.value_written`).
-/

set_option autoImplicit false
set_option relaxedAutoImplicit false

namespace Roster.Yaml

open Binary64 Text

/-! ### Spelled scalars -/

/-- A spelling without characters that have a meaning in a text, with a letter or a digit near its
start. -/
structure Harmless (text : String) : Prop where
  /-- No character has a meaning. -/
  characters : ∀ character ∈ text.toList, isHarmless character = true
  /-- A letter or a digit is among the first three characters. -/
  start : ∃ character ∈ text.toList.take 3, character.isAlphanum = true

/-- Whether a spelling is harmless can be computed. -/
theorem harmless_of_all {text : String}
    (hall : (text.toList.all isHarmless && (text.toList.take 3).any Char.isAlphanum) = true) :
    Harmless text := by
  rw [Bool.and_eq_true, List.all_eq_true, List.any_eq_true] at hall
  exact ⟨hall.1, hall.2⟩

/-- A harmless spelling is written as it is. -/
theorem Harmless.written {text : String} (hharmless : Harmless text) (inKey : Bool) :
    (Node.scalar none .plain text).written inKey = .scalar none .plain text := by
  rw [Node.written, writtenStyle_plain hharmless.characters hharmless.start]

/-- A harmless spelling can be written. -/
theorem Harmless.writable {text : String} (hharmless : Harmless text) :
    (Node.scalar none .plain text).Writable := by
  refine .scalar ?_ fun hmem ↦ absurd (hharmless.characters '\n' hmem) (by decide)
  rintro rfl
  obtain ⟨mark, hmark, _⟩ := hharmless.start
  simp at hmark

/-- The text of a whole number is harmless. -/
theorem harmless_toString (number : ℤ) : Harmless (toString number) := by
  have hdigits := isDigit_toDigits number.natAbs
  obtain ⟨first, rest, hsome⟩ := List.exists_cons_of_ne_nil
    (Nat.toDigits_ne_nil (n := number.natAbs) (b := 10))
  constructor
  · rw [toList_toString, List.forall_mem_append]
    refine ⟨?_, fun character hmem ↦ by simp [isHarmless, Char.isAlphanum, hdigits character hmem]⟩
    rw [signText]
    split
    · exact List.all_eq_true.mp (by decide)
    · simp
  · refine ⟨first, ?_, by simp [Char.isAlphanum, hdigits first (hsome ▸ List.mem_cons_self)]⟩
    rw [toList_toString, hsome, signText]
    split <;> simp

/-- A sign and a text with the form of a number are harmless. -/
theorem harmless_of_numberForm {text : String} {negative : Bool} {unsigned : List Char}
    (htext : text.toList = signText negative ++ unsigned) (hform : NumberForm unsigned) :
    Harmless text := by
  have hcharacters : ∀ character ∈ text.toList, isNumberCharacter character = true := by
    rw [htext, List.forall_mem_append]
    exact ⟨isNumberCharacter_signText negative, hform.characters⟩
  obtain ⟨digit, rest, rfl, hdigit⟩ := hform.first
  constructor
  · intro character hmem
    have := hcharacters character hmem
    simp only [isNumberCharacter, isHarmless, Char.isAlphanum, Bool.or_eq_true,
      decide_eq_true_eq] at this ⊢
    rcases this with ((hdigit | hpoint) | rfl) | hsign
    · simp [hdigit]
    · simp [hpoint]
    · decide
    · simp [hsign]
  · refine ⟨digit, ?_, by simp [Char.isAlphanum, hdigit]⟩
    rw [htext, signText]
    split <;> simp

/-- The text of a floating-point number is harmless. -/
theorem harmless_render {number : Binary64} (htext : number.HasText) : Harmless number.render := by
  rcases htext.cases with hfinite | rfl | rfl | rfl
  · obtain ⟨text, hrender, hform⟩ := exists_numberForm_render hfinite
    exact harmless_of_numberForm hrender hform
  · exact harmless_of_all (by decide +kernel)
  · exact harmless_of_all (by decide +kernel)
  · exact harmless_of_all (by decide +kernel)

/-! ### Whole numbers -/

/-- Decimal digits make the number that they are written for. -/
theorem numberInBase?_ten {digits : List Char} (hsome : digits ≠ [])
    (hdigits : ∀ character ∈ digits, character.isDigit = true) :
    numberInBase? 10 digits = some (valueOfDigits digits) := by
  have hvalue : ∀ character ∈ digits, digitValue character = character.toNat - '0'.toNat :=
    fun character hmem ↦ by rw [digitValue, if_pos (hdigits character hmem)]
  have hall : digits.all (isDigitOf 10) = true := by
    refine List.all_eq_true.mpr fun character hmem ↦ ?_
    have hdigit := hdigits character hmem
    rw [isDigitOf, hvalue character hmem, decide_eq_true_eq]
    simp only [Char.isDigit, Bool.and_eq_true, decide_eq_true_eq, UInt32.le_iff_toNat_le] at hdigit
    simp at hdigit ⊢
    omega
  have hfold : digits.foldl (fun value digit ↦ value * 10 + digitValue digit) 0 =
      valueOfDigits digits :=
    List.foldl_ext _ _ _ fun value character hmem ↦ by rw [hvalue character hmem]
  rw [numberInBase?, hall, hfold]
  simp [hsome]

/-- The digits of a number make the number. -/
theorem unsignedNumber?_toDigits (number : ℕ) :
    unsignedNumber? (Nat.toDigits 10 number) = some number := by
  have hdigits := isDigit_toDigits number
  have hdecimal : numberInBase? 10 (Nat.toDigits 10 number) = some number := by
    rw [numberInBase?_ten Nat.toDigits_ne_nil hdigits, valueOfDigits_toDigits]
  unfold unsignedNumber?
  split
  · next hother => simpa using hdigits 'x' (by simp [hother])
  · next hother => simpa using hdigits 'o' (by simp [hother])
  · next hother => simpa using hdigits 'b' (by simp [hother])
  · exact hdecimal

/-- The text of a whole number makes the number. -/
theorem wholeNumber?_toString (number : ℤ) :
    hasLeadingZero (toString number).toList = false ∧
      wholeNumber? (toString number).toList = some number := by
  have hvalue := unsignedNumber?_toDigits number.natAbs
  have hdigits := isDigit_toDigits number.natAbs
  obtain ⟨first, rest, hsome⟩ := List.exists_cons_of_ne_nil
    (Nat.toDigits_ne_nil (n := number.natAbs) (b := 10))
  have hfirst : first.isDigit = true := hdigits first (hsome ▸ List.mem_cons_self)
  have hminus : first ≠ '-' := by rintro rfl; exact absurd hfirst (by decide)
  have hplus : first ≠ '+' := by rintro rfl; exact absurd hfirst (by decide)
  have hzero : first = '0' → rest = [] := by
    rintro rfl
    have : number.natAbs = 0 := by
      by_contra hnumber
      exact head?_toDigits hnumber (by rw [hsome]; rfl)
    rw [this] at hsome
    simpa using hsome.symm
  rw [hsome] at hvalue
  rw [toList_toString, hsome, signText]
  by_cases hnegative : number < 0
  · have hleading : hasLeadingZero ('-' :: first :: rest) = false := by
      by_cases hsame : first = '0'
      · rw [hzero hsame, hsame]
        decide
      · simp [hasLeadingZero, hsame]
    simp [hnegative, wholeNumber?, hleading, hvalue, abs_of_neg hnegative]
  · have hleading : hasLeadingZero (first :: rest) = false := by
      by_cases hsame : first = '0'
      · rw [hzero hsame, hsame]
        decide
      · simp [hasLeadingZero, hminus, hplus, hsame]
    simp [hnegative, wholeNumber?, hleading, hvalue, hminus, hplus,
      abs_of_nonneg (not_lt.mp hnegative)]

/-- The text of a whole number of 64 bits means the number. -/
theorem plainMeaning_toString {number : ℤ} (hbits : isWithinBits 63 64 number = true) :
    plainMeaning (toString number) = .integer number := by
  have hcharacters : ∀ character ∈ (toString number).toList,
      isNumberCharacter character = true := by
    rw [toList_toString, List.forall_mem_append]
    exact ⟨isNumberCharacter_signText _,
      fun character hmem ↦ by simp [isNumberCharacter, isDigit_toDigits _ character hmem]⟩
  have hempty : toString number ≠ "" := by
    obtain ⟨mark, hmark, _⟩ := (harmless_toString number).start
    intro hempty
    rw [hempty] at hmark
    cases hmark
  obtain ⟨hword, hboolean⟩ := not_word_of_numberCharacters hempty hcharacters
  rw [plainMeaning, hword, hboolean, (wholeNumber?_toString number).2]
  simp [integerMeaning?, hbits]

/-! ### Values -/

/-- A value without tags that can be read from so many levels of a document. -/
inductive Value.Fits : ℕ → Value → Prop
  /-- Nothing. -/
  | null {depth : ℕ} : Fits depth .null
  /-- A truth value. -/
  | boolean {depth : ℕ} (value : Bool) : Fits depth (.boolean value)
  /-- A whole number of 64 bits. -/
  | integer {depth : ℕ} {value : ℤ} (hbits : isWithinBits 63 64 value = true) :
    Fits depth (.integer value)
  /-- A floating-point number that a text can stand for. -/
  | float {depth : ℕ} {value : Binary64} (htext : value.HasText) : Fits depth (.float value)
  /-- A text. -/
  | text {depth : ℕ} (value : String) : Fits depth (.text value)
  /-- Values one level further in. -/
  | sequence {depth : ℕ} {items : List Value} (hitems : ∀ item ∈ items, Fits depth item) :
    Fits (depth + 1) (.sequence items)
  /-- Keys and values one level further in. -/
  | mapping {depth : ℕ} {entries : List (Value × Value)}
    (hkeys : ∀ entry ∈ entries, Fits depth entry.1)
    (hvalues : ∀ entry ∈ entries, Fits depth entry.2) : Fits (depth + 1) (.mapping entries)

namespace Value

/-- The items of a sequence are written one by one. -/
theorem itemsToNodes_eq_map (items : List Value) : itemsToNodes items = items.map toNode := by
  induction items with
  | nil => rfl
  | cons item rest ih => rw [itemsToNodes, ih, List.map_cons]

/-- The entries of a mapping are written one by one. -/
theorem entriesToNodes_eq_map (entries : List (Value × Value)) :
    entriesToNodes entries = entries.map fun entry ↦ (entry.1.toNode, entry.2.toNode) := by
  induction entries with
  | nil => rfl
  | cons entry rest ih => rw [entriesToNodes, ih, List.map_cons]

/-- The truth values and nothing have harmless spellings. -/
theorem harmless_words : Harmless "null" ∧ ∀ value : Bool, Harmless (toString value) :=
  ⟨harmless_of_all (by decide), fun value ↦ by cases value <;> exact harmless_of_all (by decide)⟩

/-- A value that fits can be written. -/
theorem Fits.writable {depth : ℕ} {value : Value} (hfits : value.Fits depth) :
    value.toNode.Writable := by
  induction hfits with
  | null => exact harmless_words.1.writable
  | boolean value => exact (harmless_words.2 value).writable
  | integer hbits => exact (harmless_toString _).writable
  | float htext => exact (harmless_render htext).writable
  | text value => exact Node.writable_ofText value
  | sequence hitems ih =>
    rw [toNode, itemsToNodes_eq_map]
    exact .sequence (List.forall_mem_map.mpr ih)
  | mapping hkeys hvalues ihkeys ihvalues =>
    rw [toNode, entriesToNodes_eq_map]
    exact .mapping (List.forall_mem_map.mpr ihkeys) (List.forall_mem_map.mpr ihvalues)

/-- A scalar without a tag gives what its text means, or the text if it has quotes. -/
theorem value_scalar (depth : ℕ) (style : ScalarStyle) (text : String) :
    Decoder.value depth (.scalar none style text) =
      if style = .plain then Decoder.plainValue text else pure (.text text) := by
  rw [Decoder.value]
  cases style <;> rfl

/-- A sequence gives what its items give. -/
theorem value_sequence (depth : ℕ) (items : List Node) :
    Decoder.value (depth + 1) (.sequence none items) = do
      return .sequence (← items.mapM (Decoder.value depth)) := by
  rw [Decoder.value]
  rfl

/-- A mapping gives what its keys and values give. -/
theorem value_mapping (depth : ℕ) (entries : List (Node × Node)) :
    Decoder.value (depth + 1) (.mapping none entries) = do
      return .mapping (← entries.mapM fun entry ↦ do
        let key ← Decoder.value depth entry.1
        return (key, ← Decoder.value depth entry.2)) := by
  rw [Decoder.value]
  rfl

/-- A value that fits is read from the tree that it is written as. -/
theorem Fits.value_written {depth : ℕ} {value : Value} (hfits : value.Fits depth) (inKey : Bool) :
    Decoder.value depth (value.toNode.written inKey) = pure value := by
  induction hfits generalizing inKey with
  | null =>
    have hmeaning : plainMeaning "null" = .null := by decide
    rw [toNode, harmless_words.1.written, value_scalar, if_pos rfl, Decoder.plainValue, hmeaning]
  | boolean value =>
    have hmeaning : plainMeaning (toString value) = .boolean value := by cases value <;> decide
    rw [toNode, (harmless_words.2 value).written, value_scalar, if_pos rfl, Decoder.plainValue,
      hmeaning]
  | integer hbits =>
    rw [toNode, (harmless_toString _).written, value_scalar, if_pos rfl, Decoder.plainValue,
      plainMeaning_toString hbits]
  | float htext =>
    rw [toNode, Node.ofFloat, (harmless_render htext).written, value_scalar, if_pos rfl,
      Decoder.plainValue, plainMeaning_render htext]
  | text value =>
    obtain ⟨style, hwritten, hmeaning⟩ := Node.exists_written_ofText inKey value
    rw [toNode, hwritten, value_scalar]
    split
    · next hplain => rw [Decoder.plainValue, hmeaning hplain]
    · rfl
  | @sequence depth items hitems ih =>
    have hread : List.Forall₂ (fun source item ↦ Decoder.value depth source = pure item)
        (items.map (Node.written false ∘ toNode)) items :=
      List.forall₂_map_left_iff.mpr (List.forall₂_same.mpr fun item hmem ↦ ih item hmem false)
    rw [toNode, Node.written, itemsToNodes_eq_map, Node.writtenItems_eq_map, List.map_map,
      value_sequence, Decoder.mapM_eq_pure hread, pure_bind]
  | @mapping depth entries hkeys hvalues ihkeys ihvalues =>
    rw [toNode, Node.written, entriesToNodes_eq_map, Node.writtenEntries_eq_map, List.map_map,
      value_mapping]
    have hread : List.Forall₂ (fun source entry ↦ (do
          let key ← Decoder.value depth source.1
          return (key, ← Decoder.value depth source.2)) = (pure entry : Reading (Value × Value)))
        (entries.map ((fun entry ↦ (entry.1.written entry.1.isSimpleKey, entry.2.written false)) ∘
          fun entry ↦ (entry.1.toNode, entry.2.toNode))) entries := by
      refine List.forall₂_map_left_iff.mpr (List.forall₂_same.mpr fun entry hmem ↦ ?_)
      simp only [Function.comp_apply, ihkeys entry hmem, ihvalues entry hmem, pure_bind]
    rw [Decoder.mapM_eq_pure hread, pure_bind]

/-- A value that fits has no tag. -/
theorem Fits.hasTag {depth : ℕ} {value : Value} (hfits : value.Fits depth) :
    value.hasTag = false := by
  induction hfits with
  | @sequence depth items hitems ih =>
    rw [Value.hasTag]
    clear hitems
    induction items with
    | nil => rfl
    | cons item rest ihrest =>
      obtain ⟨hitem, hrest⟩ := List.forall_mem_cons.mp ih
      rw [itemsHaveTag, hitem, ihrest hrest, Bool.or_self]
  | @mapping depth entries hkeys hvalues ihkeys ihvalues =>
    rw [Value.hasTag]
    clear hkeys hvalues
    induction entries with
    | nil => rfl
    | cons entry rest ihrest =>
      obtain ⟨hkey, hkeys⟩ := List.forall_mem_cons.mp ihkeys
      obtain ⟨hvalue, hvalues⟩ := List.forall_mem_cons.mp ihvalues
      rw [entriesHaveTag, hkey, hvalue, ihrest hkeys hvalues]
      rfl
  | _ => rfl

/-! ### Values that were read -/

/-- A number that a text spells is special or was read as a finite decimal number. -/
theorem cases_of_float? {text : String} {number : Binary64} (hfloat : float? text = some number) :
    number = infinity false ∨ number = infinity true ∨ number = notANumber ∨
      ∃ characters, (ofDecimal? characters).filter isFinite = some number := by
  simp only [float?] at hfloat
  split at hfloat <;> grind

/-- The number that a text spells can be written. -/
theorem hasText_of_float? {text : String} {number : Binary64} (hfloat : float? text = some number) :
    number.HasText := by
  rcases cases_of_float? hfloat with rfl | rfl | rfl | ⟨characters, hread⟩
  · exact Or.inl (by decide +kernel)
  · exact Or.inl (by decide +kernel)
  · exact Or.inr rfl
  · exact Or.inl (isNotANumber_of_isFinite (Option.filter_eq_some_iff.mp hread).2)

/-- A whole number is a value if it has 64 bits. -/
theorem cases_of_integerMeaning? {found : Option ℤ} {meaning : PlainMeaning}
    (hmeaning : found.bind integerMeaning? = some meaning) :
    (∃ number, meaning = .integer number ∧ isWithinBits 63 64 number = true) ∨
      meaning = .wideInteger := by
  obtain ⟨number, -, hbits⟩ := Option.bind_eq_some_iff.mp hmeaning
  grind [integerMeaning?]

/-- A whole number that a text means has 64 bits, and a floating-point number can be written. -/
theorem bits_of_plainMeaning (text : String) :
    (∀ number, plainMeaning text = .integer number → isWithinBits 63 64 number = true) ∧
      ∀ number : Binary64, plainMeaning text = .float number → number.HasText := by
  have hwhole (meaning : PlainMeaning)
      (hfound : (wholeNumber? text.toList).bind integerMeaning? = some meaning) :=
    cases_of_integerMeaning? hfound
  have hfloat (number : Binary64) (hread : float? text = some number) : number.HasText :=
    hasText_of_float? hread
  rw [plainMeaning]
  constructor <;> intro number hmeaning <;> grind

/-- A value that a plain text means fits. -/
theorem fits_of_plainValue {depth : ℕ} {text : String} {value : Value}
    (hreturns : Returns (Decoder.plainValue text) value) : value.Fits depth := by
  rw [Decoder.plainValue] at hreturns
  cases hmeaning : plainMeaning text with
  | wideInteger =>
    rw [hmeaning] at hreturns
    exact absurd hreturns not_returns_throw
  | null =>
    rw [hmeaning] at hreturns
    exact returns_pure_iff.mp hreturns ▸ .null
  | boolean truth =>
    rw [hmeaning] at hreturns
    exact returns_pure_iff.mp hreturns ▸ .boolean truth
  | integer number =>
    rw [hmeaning] at hreturns
    exact returns_pure_iff.mp hreturns ▸ .integer ((bits_of_plainMeaning text).1 number hmeaning)
  | float number =>
    rw [hmeaning] at hreturns
    exact returns_pure_iff.mp hreturns ▸ .float ((bits_of_plainMeaning text).2 number hmeaning)
  | text =>
    rw [hmeaning] at hreturns
    exact returns_pure_iff.mp hreturns ▸ .text text

/-- A value under one of the tags of the format fits. -/
theorem fits_of_coreValue {depth : ℕ} {tag text : String} {value : Value}
    (hreturns : Returns (Decoder.coreValue tag text) value) : value.Fits depth := by
  rw [Decoder.coreValue] at hreturns
  split at hreturns
  · split at hreturns
    · exact returns_pure_iff.mp hreturns ▸ .boolean _
    · exact absurd hreturns not_returns_throw
  · split at hreturns
    · split at hreturns
      · next hmeaning =>
        obtain ⟨number, hnumber, hbits⟩ | hwide := cases_of_integerMeaning? hmeaning
        · cases hnumber
          exact returns_pure_iff.mp hreturns ▸ .integer hbits
        · cases hwide
      · exact absurd hreturns not_returns_throw
      · exact absurd hreturns not_returns_throw
    · split at hreturns
      · split at hreturns
        · next hfloat => exact returns_pure_iff.mp hreturns ▸ .float (hasText_of_float? hfloat)
        · exact absurd hreturns not_returns_throw
      · split at hreturns
        · split at hreturns
          · exact returns_pure_iff.mp hreturns ▸ .null
          · exact absurd hreturns not_returns_throw
        · exact returns_pure_iff.mp hreturns ▸ .text text

/-- A value without a tag was read as if no tag were there. -/
theorem returns_of_underTag {tag : Option String} {reading : Reading Value} {value : Value}
    (hreturns : Returns (Decoder.underTag tag reading) value) (htag : value.hasTag = false) :
    Returns reading value := by
  rw [Decoder.underTag] at hreturns
  split at hreturns
  · exact absurd hreturns not_returns_throw
  · obtain ⟨inner, -, rfl⟩ := hreturns.of_map
    cases htag
  · exact hreturns

/-- A value without tags that was read from a scalar fits. -/
theorem fits_of_scalar {depth : ℕ} {tag : Option String} {style : ScalarStyle} {text : String}
    {value : Value} (hreturns : Returns (Decoder.value depth (.scalar tag style text)) value)
    (htag : value.hasTag = false) : value.Fits depth := by
  have huntagged (hread : Returns (if style = .plain then Decoder.plainValue text
      else return .text text) value) : value.Fits depth := by
    split at hread
    · exact fits_of_plainValue hread
    · exact returns_pure_iff.mp hread ▸ .text text
  rw [Decoder.value, Decoder.follow_scalar, pure_bind] at hreturns
  cases tag with
  | none => exact huntagged hreturns
  | some name =>
    dsimp only at hreturns
    split at hreturns
    · exact huntagged (returns_of_underTag hreturns htag)
    · exact fits_of_coreValue hreturns

/-- The items of a sequence without tags have none. -/
theorem itemsHaveTag_eq_false {items : List Value} :
    itemsHaveTag items = false ↔ ∀ item ∈ items, item.hasTag = false := by
  induction items with
  | nil => simp [itemsHaveTag]
  | cons item rest ih => simp [itemsHaveTag, ih]

/-- The entries of a mapping without tags have none. -/
theorem entriesHaveTag_eq_false {entries : List (Value × Value)} :
    entriesHaveTag entries = false ↔
      ∀ entry ∈ entries, entry.1.hasTag = false ∧ entry.2.hasTag = false := by
  induction entries with
  | nil => simp [entriesHaveTag]
  | cons entry rest ih => simp [entriesHaveTag, ih, and_assoc]

/-- A value without tags that was read fits. -/
theorem fits_of_returns {depth : ℕ} {node : Node} {value : Value}
    (hreturns : Returns (Decoder.value depth node) value) (htag : value.hasTag = false) :
    value.Fits depth := by
  induction depth generalizing node value with
  | zero =>
    rw [Decoder.value] at hreturns
    obtain ⟨target, -, hrest⟩ := hreturns.of_bind
    cases target with
    | scalar tag style text =>
      exact fits_of_scalar (by rw [Decoder.value]; exact hrest) htag
    | sequence => exact absurd hrest not_returns_throw
    | mapping => exact absurd hrest not_returns_throw
    | _ => exact absurd hrest not_returns_misfit
  | succ depth ih =>
    rw [Decoder.value] at hreturns
    obtain ⟨target, -, hrest⟩ := hreturns.of_bind
    cases target with
    | scalar tag style text =>
      exact fits_of_scalar (by rw [Decoder.value]; exact hrest) htag
    | sequence tag items =>
      obtain ⟨found, hfound, rfl⟩ := (returns_of_underTag hrest htag).of_map
      refine .sequence fun item hmem ↦ ?_
      obtain ⟨source, -, hsource⟩ := exists_mem_of_forall₂ (Returns.of_mapM hfound) item hmem
      exact ih hsource (itemsHaveTag_eq_false.mp htag item hmem)
    | mapping tag entries =>
      obtain ⟨found, hfound, rfl⟩ := (returns_of_underTag hrest htag).of_map
      have hparts : ∀ entry ∈ found, Fits depth entry.1 ∧ Fits depth entry.2 := by
        intro entry hmem
        obtain ⟨source, -, hsource⟩ := exists_mem_of_forall₂ (Returns.of_mapM hfound) entry hmem
        obtain ⟨key, hkey, hentry⟩ := hsource.of_bind
        obtain ⟨inner, hinner, rfl⟩ := hentry.of_map
        obtain ⟨hkeyTag, hinnerTag⟩ := entriesHaveTag_eq_false.mp htag _ hmem
        exact ⟨ih hkey hkeyTag, ih hinner hinnerTag⟩
      exact .mapping (fun entry hmem ↦ (hparts entry hmem).1) fun entry hmem ↦ (hparts entry hmem).2
    | _ => exact absurd hrest not_returns_misfit

end Value

end Roster.Yaml
