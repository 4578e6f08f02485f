import Mathlib.Algebra.GroupWithZero.Nat
import Roster.Proofs.Yaml.Places

/-!
# Characters between double quotes

Between double quotes a character stands for itself, or an escape stands for it: a letter behind a
backslash, or its number in hexadecimal digits. The escape that a character is written as is read as
the character (`EscapeFor`, `escapeFor_doubleQuotedCharacter`).
-/

set_option autoImplicit false
set_option relaxedAutoImplicit false

namespace Roster.Yaml

open Text (digitValue isDigitOf numberInBase? characterOfNumber?)

/-! ### Hexadecimal numbers -/

/-- A property of all hexadecimal digits is one of the digits of a number. -/
theorem forall_mem_toDigits {Holds : Char → Prop}
    (hdigits : ∀ digit < 16, Holds (Nat.digitChar digit)) (number : ℕ) :
    ∀ character ∈ Nat.toDigits 16 number, Holds character := by
  induction number using Nat.strongRecOn with
  | ind number ih =>
    rcases Nat.lt_or_ge number 16 with hsmall | hlarge
    · rw [Nat.toDigits_of_lt_base hsmall]
      simpa using hdigits number hsmall
    · rw [Nat.toDigits_of_base_le (by decide) hlarge, List.forall_mem_append]
      exact ⟨ih _ (by omega), by simpa using hdigits _ (Nat.mod_lt number (by decide))⟩

theorem digitValue_toUpper_digitChar :
    ∀ digit < 16, digitValue (Nat.digitChar digit).toUpper = digit := by
  decide

/-- The digits of a number have its value, also in capitals. -/
theorem foldl_digitValue_toDigits (number : ℕ) :
    ((Nat.toDigits 16 number).map Char.toUpper).foldl
      (fun value digit ↦ value * 16 + digitValue digit) 0 = number := by
  induction number using Nat.strongRecOn with
  | ind number ih =>
    rcases Nat.lt_or_ge number 16 with hsmall | hlarge
    · rw [Nat.toDigits_of_lt_base hsmall]
      simpa using digitValue_toUpper_digitChar number hsmall
    · rw [Nat.toDigits_of_base_le (by decide) hlarge, List.map_append, List.foldl_append,
        ih _ (by omega)]
      simp [digitValue_toUpper_digitChar _ (Nat.mod_lt number (by decide : 0 < 16)),
        Nat.div_add_mod']

/-- Digits in front of which there are enough zeros. -/
theorem length_paddedHex {length number : ℕ} (hlength : 0 < length) (hless : number < 16 ^ length) :
    (paddedHex length number).length = length := by
  have hdigits := (Nat.length_toDigits_le_iff (by decide) hlength).mpr hless
  simp only [paddedHex, List.length_append, List.length_replicate, List.length_map]
  omega

/-- The digits that a number is written with make it. -/
theorem numberInBase?_paddedHex (length number : ℕ) :
    numberInBase? 16 (paddedHex length number) = some number := by
  have hall : (paddedHex length number).all (isDigitOf 16) = true := by
    refine List.all_eq_true.mpr ?_
    rw [paddedHex, List.forall_mem_append]
    constructor
    · intro character hmem
      obtain rfl := List.eq_of_mem_replicate hmem
      decide
    · rw [List.forall_mem_map]
      exact forall_mem_toDigits (by decide) number
  have hsome : (paddedHex length number).isEmpty = false := by
    simp [paddedHex, Nat.toDigits_ne_nil]
  have hzeros (count : ℕ) : (List.replicate count '0').foldl
      (fun value digit ↦ value * 16 + digitValue digit) 0 = 0 := by
    induction count with
    | zero => rfl
    | succ count ih => rw [List.replicate_succ, List.foldl_cons]; exact ih
  simp only [numberInBase?, hsome, hall, Bool.not_true, Bool.or_self, Bool.false_eq_true, if_false]
  rw [paddedHex, List.foldl_append, hzeros, foldl_digitValue_toDigits]

/-- A character has its number. -/
theorem characterOfNumber?_toNat (character : Char) :
    characterOfNumber? character.toNat = some character := by
  have hvalid := character.valid
  rw [UInt32.isValidChar, Nat.isValidChar] at hvalid
  change (_ < 0xd800 ∨ _) at hvalid
  rw [characterOfNumber?, if_neg, Char.ofNat_toNat]
  simp only [Bool.or_eq_true, Bool.and_eq_true, decide_eq_true_eq]
  change ¬((0xd800 ≤ character.val.toNat ∧ character.val.toNat ≤ 0xdfff) ∨
    0x10ffff < character.val.toNat)
  omega

/-! ### Escapes -/

/-- A text that is read between double quotes as one character. -/
structure EscapeFor (character : Char) (text : List Char) : Prop where
  /-- The text is read as the character. -/
  read : ∀ cursor rest, cursor.rest = text ++ rest →
    readEscape cursor = some (character, cursor.advance text.length)
  /-- The text begins with a backslash, and the line does not end behind it. -/
  backslash : ∃ letter more, text = '\\' :: letter :: more
  /-- Each character of the text stands for itself, on one line and without blanks. -/
  characters : ∀ other ∈ text, standsForItself other = true ∧ isGap other = false
  /-- The text is not much longer than the bytes of the character. -/
  length : text.length ≤ 4 * character.utf8Size

/-- A letter behind a backslash. -/
theorem escapeFor_letter {character letter : Char} (hshort : shortEscape? letter = some character)
    (hlength : escapeLength? letter = none)
    (hletter : standsForItself letter = true ∧ isGap letter = false) :
    EscapeFor character ['\\', letter] := by
  refine ⟨fun cursor rest hrest ↦ ?_, ⟨letter, [], rfl⟩, ?_, ?_⟩
  · simp [readEscape, hrest, hlength, hshort]
  · simp only [List.forall_mem_cons, List.not_mem_nil, false_implies, implies_true, and_true]
    exact ⟨by decide, hletter⟩
  · have := character.utf8Size_pos
    simp only [List.length_cons, List.length_nil]
    omega

/-- A number behind a backslash and a letter that says how many digits it has. -/
theorem escapeFor_number {character letter : Char} {length : ℕ}
    (hlength : escapeLength? letter = some length) (hpositive : 0 < length)
    (hless : character.toNat < 16 ^ length)
    (hletter : standsForItself letter = true ∧ isGap letter = false)
    (hsize : length + 2 ≤ 4 * character.utf8Size) :
    EscapeFor character ('\\' :: letter :: paddedHex length character.toNat) := by
  have hdigits := length_paddedHex hpositive hless
  have hcount : ('\\' :: letter :: paddedHex length character.toNat).length = 2 + length := by
    simp only [List.length_cons, hdigits]
    omega
  refine ⟨fun cursor rest hrest ↦ ?_, ⟨letter, _, rfl⟩, ?_, by omega⟩
  · have htake : (paddedHex length character.toNat ++ rest).take length =
        paddedHex length character.toNat := List.take_left' hdigits
    simp only [readEscape, hrest, List.cons_append, hlength, htake, hdigits, Nat.lt_irrefl,
      if_false, numberInBase?_paddedHex, Option.bind_some, characterOfNumber?_toNat, hcount]
  · simp only [List.forall_mem_cons]
    refine ⟨by decide, hletter, ?_⟩
    rw [paddedHex, List.forall_mem_append]
    constructor
    · intro other hmem
      obtain rfl := List.eq_of_mem_replicate hmem
      decide
    · rw [List.forall_mem_map]
      exact forall_mem_toDigits (by decide) _

/-- A character that is not in ASCII takes more than one byte. -/
theorem two_le_utf8Size {character : Char} (hlarge : 0x7f < character.toNat) :
    2 ≤ character.utf8Size := by
  have hnot : ¬character.val ≤ 0x7f := fun hle ↦ by
    have hless : character.val.toNat ≤ 0x7f := UInt32.le_iff_toNat_le.mp hle
    change 0x7f < character.val.toNat at hlarge
    omega
  rw [Char.utf8Size]
  split
  · next hle => exact absurd hle hnot
  · split
    · omega
    · split <;> omega

/-- Between double quotes a character is written as itself or as an escape. -/
theorem doubleQuotedCharacter_cases (character : Char) :
    (doubleQuotedCharacter character = [character] ∧ standsForItself character = true ∧
      isBreak character = false ∧ character ≠ '"' ∧ character ≠ '\\') ∨
    EscapeFor character (doubleQuotedCharacter character) := by
  by_cases hquote : character = '"'
  · subst hquote
    exact Or.inr (escapeFor_letter rfl rfl (by decide))
  by_cases hbackslash : character = '\\'
  · subst hbackslash
    exact Or.inr (escapeFor_letter rfl rfl (by decide))
  by_cases hitself : (standsForItself character && !isBreak character) = true
  · refine Or.inl ⟨?_, ?_⟩
    · dsimp only [doubleQuotedCharacter]
      rw [if_neg hquote, if_neg hbackslash, if_pos hitself]
    · simpa [hquote, hbackslash] using hitself
  right
  have hletter (other : Char) {letter : Char} (hcode : character.toNat = other.toNat)
      (hshort : shortEscape? letter = some other) (hlength : escapeLength? letter = none)
      (hitself : standsForItself letter = true ∧ isGap letter = false) :
      EscapeFor character ['\\', letter] :=
    Char.toNat_inj.mp hcode ▸ escapeFor_letter hshort hlength hitself
  unfold doubleQuotedCharacter
  rw [if_neg hquote, if_neg hbackslash, if_neg hitself]
  refine iteInduction (fun hcode ↦ hletter '\x00' hcode rfl rfl (by decide)) fun _ ↦ ?_
  refine iteInduction (fun hcode ↦ hletter '\x07' hcode rfl rfl (by decide)) fun _ ↦ ?_
  refine iteInduction (fun hcode ↦ hletter '\x08' hcode rfl rfl (by decide)) fun _ ↦ ?_
  refine iteInduction (fun hcode ↦ hletter '\t' hcode rfl rfl (by decide)) fun _ ↦ ?_
  refine iteInduction (fun hcode ↦ hletter '\n' hcode rfl rfl (by decide)) fun _ ↦ ?_
  refine iteInduction (fun hcode ↦ hletter '\x0b' hcode rfl rfl (by decide)) fun _ ↦ ?_
  refine iteInduction (fun hcode ↦ hletter '\x0c' hcode rfl rfl (by decide)) fun _ ↦ ?_
  refine iteInduction (fun hcode ↦ hletter '\r' hcode rfl rfl (by decide)) fun _ ↦ ?_
  refine iteInduction (fun hcode ↦ hletter '\x1b' hcode rfl rfl (by decide)) fun _ ↦ ?_
  refine iteInduction (fun hcode ↦ hletter '\u0085' hcode rfl rfl (by decide)) fun _ ↦ ?_
  refine iteInduction (fun hcode ↦ hletter '\u2028' hcode rfl rfl (by decide)) fun _ ↦ ?_
  refine iteInduction (fun hcode ↦ hletter '\u2029' hcode rfl rfl (by decide)) fun _ ↦ ?_
  have hbytes := character.utf8Size_pos
  refine iteInduction (fun hcode ↦ ?_) fun hbeyond ↦ iteInduction (fun hcode ↦ ?_) fun hcode ↦ ?_
  · exact escapeFor_number rfl (by decide) (by omega) (by decide) (by omega)
  · have htwo := two_le_utf8Size (by omega : 0x7f < character.toNat)
    exact escapeFor_number rfl (by decide) (by omega) (by decide) (by omega)
  · -- Characters with larger numbers stand for themselves.
    refine absurd ?_ hitself
    have hbreak : isBreak character = false := by
      simp only [isBreak, Bool.or_eq_false_iff, decide_eq_false_iff_not]
      refine ⟨⟨⟨⟨?_, ?_⟩, ?_⟩, ?_⟩, ?_⟩ <;> rintro rfl <;> exact hcode (by decide)
    have hstands : standsForItself character = true := by
      simp only [standsForItself, Bool.or_eq_true, decide_eq_true_eq]
      exact Or.inr (by omega)
    simp [hbreak, hstands]

/-- Between double quotes a character takes a line of characters that stand for themselves. -/
theorem characters_doubleQuotedCharacter (character : Char) :
    ∀ other ∈ doubleQuotedCharacter character,
      standsForItself other = true ∧ isBreak other = false := by
  rcases doubleQuotedCharacter_cases character with ⟨htext, hstands, hbreak, -⟩ | hescape
  · rw [htext, List.forall_mem_singleton]
    exact ⟨hstands, hbreak⟩
  · intro other hmem
    obtain ⟨hstands, hgap⟩ := hescape.characters other hmem
    exact ⟨hstands, (isGap_eq_false_iff.mp hgap).2⟩

/-- Between double quotes a character takes at most four characters for each of its bytes. -/
theorem length_doubleQuotedCharacter_le (character : Char) :
    (doubleQuotedCharacter character).length ≤ 4 * character.utf8Size := by
  rcases doubleQuotedCharacter_cases character with ⟨htext, -⟩ | hescape
  · have := character.utf8Size_pos
    simp only [htext, List.length_singleton]
    omega
  · exact hescape.length

end Roster.Yaml
