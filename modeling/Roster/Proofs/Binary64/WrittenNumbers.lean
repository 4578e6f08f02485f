import Roster.Proofs.Binary64.DecimalDigits
import Roster.Proofs.Binary64.ShortestDigits
import Roster.Yaml.Plain

/-!
# Floating-point numbers survive being written

The text of a floating-point number is read as the number, bit for bit (`Yaml.float?_render`), and
nothing else than a floating-point number can be meant by it (`Yaml.plainMeaning_render`). Of what
is not a number only the one that texts name can be told apart.
-/

set_option autoImplicit false
set_option relaxedAutoImplicit false

namespace Roster

namespace Binary64

/-! ### Reading decimal numbers -/

/-- The sign of a number as text. -/
def signText (negative : Bool) : List Char :=
  if negative then ['-'] else []

/-- A sign in front of a digit is read. -/
theorem readSign_signText (negative : Bool) {first : Char} (hfirst : first.isDigit = true)
    (rest : List Char) :
    readSign (signText negative ++ first :: rest) = (negative, first :: rest) := by
  cases negative with
  | true => rfl
  | false =>
    have hminus : first ≠ '-' := by rintro rfl; exact absurd hfirst (by decide)
    have hplus : first ≠ '+' := by rintro rfl; exact absurd hfirst (by decide)
    simp [signText, readSign, hminus, hplus]

/-- The text of a whole number is its sign and the digits of its size. -/
theorem toList_toString (number : ℤ) :
    (toString number).toList = signText (number < 0) ++ Nat.toDigits 10 number.natAbs := by
  cases number with
  | ofNat size =>
    have htext : toString (Int.ofNat size) = size.repr := rfl
    rw [htext, Nat.repr_eq_ofList_toDigits, String.toList_ofList]
    simp [signText]
  | negSucc size =>
    have htext : toString (Int.negSucc size) = "-" ++ (size + 1).repr := rfl
    rw [htext, Nat.repr_eq_ofList_toDigits, String.toList_append, String.toList_ofList]
    simp [signText, Int.negSucc_lt_zero]

/-- An exponent is read as the number that it was written for. -/
theorem readExponent_toString (exponent : ℤ) :
    readExponent ('e' :: (toString exponent).toList) = some exponent := by
  obtain ⟨first, rest, hdigits⟩ := List.exists_cons_of_ne_nil
    (Nat.toDigits_ne_nil (n := exponent.natAbs) (b := 10))
  have hall := isDigit_toDigits exponent.natAbs
  have hvalue := valueOfDigits_toDigits exponent.natAbs
  rw [hdigits] at hall hvalue
  rw [toList_toString, hdigits, readExponent, if_pos (Or.inl rfl),
    readSign_signText _ (hall first (by simp))]
  have hnone : ((first :: rest).isEmpty || !(first :: rest).all Char.isDigit) = false := by
    simpa using hall
  simp only [hnone, hvalue, Bool.false_eq_true, if_false, decide_eq_true_eq, Option.some.injEq]
  split <;> omega

/-- Digits are taken up to the first other character. -/
theorem takeWhile_isDigit {digits : List Char} (rest : List Char)
    (hdigits : ∀ character ∈ digits, character.isDigit = true)
    (hrest : ∀ character ∈ rest.head?, character.isDigit = false) :
    (digits ++ rest).takeWhile Char.isDigit = digits ∧
      (digits ++ rest).dropWhile Char.isDigit = rest := by
  have hnone : rest.takeWhile Char.isDigit = [] ∧ rest.dropWhile Char.isDigit = rest := by
    cases rest with
    | nil => exact ⟨rfl, rfl⟩
    | cons first others => simp [hrest first rfl]
  rw [List.takeWhile_append_of_pos hdigits, List.dropWhile_append_of_pos hdigits, hnone.1, hnone.2,
    List.append_nil]
  exact ⟨rfl, rfl⟩

/-- A number with a point is read digit by digit. -/
theorem ofDecimal?_point (negative : Bool) {whole part : List Char} (rest : List Char)
    (hsome : whole ≠ []) (hwhole : ∀ character ∈ whole, character.isDigit = true)
    (hpart : ∀ character ∈ part, character.isDigit = true)
    (hrest : ∀ character ∈ rest.head?, character.isDigit = false) :
    ofDecimal? (signText negative ++ (whole ++ '.' :: (part ++ rest))) =
      (readExponent rest).map fun exponent ↦ ofMagnitude negative
        (magnitudeOfDecimal (valueOfDigits (whole ++ part)) (exponent - part.length)) := by
  obtain ⟨first, others, rfl⟩ := List.exists_cons_of_ne_nil hsome
  obtain ⟨htake, hdrop⟩ := takeWhile_isDigit ('.' :: (part ++ rest)) hwhole (by simp)
  obtain ⟨htake', hdrop'⟩ := takeWhile_isDigit rest hpart hrest
  rw [List.cons_append] at htake hdrop ⊢
  rw [ofDecimal?, readSign_signText _ (hwhole first (by simp))]
  simp [htake, hdrop, htake', hdrop']

/-- A number without a point is read digit by digit. -/
theorem ofDecimal?_whole (negative : Bool) {whole : List Char} (rest : List Char)
    (hsome : whole ≠ []) (hwhole : ∀ character ∈ whole, character.isDigit = true)
    (hrest : ∀ character ∈ rest.head?, character.isDigit = false ∧ character ≠ '.') :
    ofDecimal? (signText negative ++ (whole ++ rest)) =
      (readExponent rest).map fun exponent ↦ ofMagnitude negative
        (magnitudeOfDecimal (valueOfDigits whole) exponent) := by
  obtain ⟨first, others, rfl⟩ := List.exists_cons_of_ne_nil hsome
  obtain ⟨htake, hdrop⟩ := takeWhile_isDigit rest hwhole
    fun character hmem ↦ (hrest character hmem).1
  rw [List.cons_append] at htake hdrop ⊢
  rw [ofDecimal?, readSign_signText _ (hwhole first (by simp))]
  cases rest with
  | nil =>
    simp only [htake, hdrop]
    simp
  | cons mark others =>
    have hmark := (hrest mark rfl).2
    simp [htake, hdrop, hmark]

/-- A number that ends behind the digits of its part is the whole number of all its digits, moved by
as many places as the part has. -/
theorem ofDecimal?_places (negative : Bool) (digits : ℕ) (exponent : ℤ) (whole part : List Char)
    (hsome : whole ≠ []) (hdigits : ∀ character ∈ whole ++ part, character.isDigit = true)
    (hvalue : valueOfDigits (whole ++ part) = digits) (hplaces : -(part.length : ℤ) = exponent) :
    ofDecimal? (signText negative ++ (whole ++ '.' :: part)) =
      some (ofMagnitude negative (magnitudeOfDecimal digits exponent)) := by
  have hread := ofDecimal?_point negative [] hsome
    (fun character hmem ↦ hdigits character (List.mem_append_left part hmem))
    (fun character hmem ↦ hdigits character (List.mem_append_right whole hmem)) (by simp)
  have hnothing : readExponent [] = some 0 := rfl
  rw [hnothing, Option.map_some, hvalue, zero_sub, hplaces, List.append_nil] at hread
  exact hread

/-- Digits in front of an exponent, with a point behind the first one if there are more, are read as
a number with one place. -/
theorem ofDecimal?_scientific (negative : Bool) (exponent : ℤ) {first : Char} {others : List Char}
    (hdigits : ∀ character ∈ first :: others, character.isDigit = true) :
    ofDecimal? (signText negative ++ (first :: (if others = [] then [] else '.' :: others) ++
        'e' :: (toString (exponent + others.length)).toList)) =
      some (ofMagnitude negative
        (magnitudeOfDecimal (valueOfDigits (first :: others)) exponent)) := by
  have hmark (shown : List Char) : ∀ character ∈ ('e' :: shown).head?,
      character.isDigit = false ∧ character ≠ '.' := by simp
  have hfirst : ∀ character ∈ [first], character.isDigit = true := by
    simpa using hdigits first (by simp)
  split
  · next hnone =>
    subst hnone
    have hread := ofDecimal?_whole negative _ (List.cons_ne_nil first []) hfirst
      (hmark (toString (exponent + ([] : List Char).length)).toList)
    rw [readExponent_toString] at hread
    simpa using hread
  · have hread := ofDecimal?_point negative _ (List.cons_ne_nil first []) hfirst
      (fun character hmem ↦ hdigits character (List.mem_cons_of_mem first hmem))
      (fun character hmem ↦ (hmark (toString (exponent + others.length)).toList character hmem).1)
    rw [readExponent_toString] at hread
    simpa using hread

/-! ### The layout of digits -/

/-- Laid out as text, digits are read as a number of the same value. -/
theorem ofDecimal?_digitsText (layout : NumberLayout) (negative : Bool) (digits : ℕ)
    (exponent : ℤ) :
    ∃ (shown : ℕ) (power : ℤ), (shown * 10 ^ power : ℚ) = digits * 10 ^ exponent ∧
      ofDecimal? (signText negative ++ layout.digitsText (Nat.toDigits 10 digits) exponent) =
        some (ofMagnitude negative (magnitudeOfDecimal shown power)) := by
  have hsome : Nat.toDigits 10 digits ≠ [] := Nat.toDigits_ne_nil
  have hdigits := isDigit_toDigits digits
  have hvalue := valueOfDigits_toDigits digits
  have hlaid := laidOut_digitsText layout hsome exponent
  generalize Nat.toDigits 10 digits = text at *
  generalize layout.digitsText text exponent = laid at *
  cases hlaid with
  | @whole count hfew =>
    refine ⟨digits * 10 ^ count * 10, -1, ?_, ?_⟩
    · push_cast
      rw [zpow_natCast, zpow_neg_one, mul_inv_cancel_right₀ (by norm_num)]
    · have hall : ∀ character ∈ (text ++ List.replicate count '0') ++ List.replicate 1 '0',
          character.isDigit = true := by
        simpa only [List.forall_mem_append] using ⟨⟨hdigits, isDigit_zeros count⟩, isDigit_zeros 1⟩
      have hshown : valueOfDigits ((text ++ List.replicate count '0') ++ List.replicate 1 '0') =
          digits * 10 ^ count * 10 := by
        rw [valueOfDigits_append_zeros, valueOfDigits_append_zeros, hvalue, pow_one]
      exact ofDecimal?_places negative _ (-1) _ _
        (List.append_ne_nil_of_left_ne_nil hsome _) hall hshown rfl
  | @point whole part hwhole hpart hsplit hfew =>
    subst hsplit
    exact ⟨digits, _, rfl, ofDecimal?_places negative digits _ whole part hwhole hdigits hvalue rfl⟩
  | @small count hfew =>
    have hzeros : List.replicate 1 '0' ++ (List.replicate count '0' ++ text) =
        List.replicate (count + 1) '0' ++ text := rfl
    refine ⟨digits, _, rfl, ofDecimal?_places negative digits _ (List.replicate 1 '0')
      (List.replicate count '0' ++ text) (by simp) ?_ ?_ rfl⟩
    · simpa only [List.forall_mem_append] using ⟨isDigit_zeros 1, isDigit_zeros count, hdigits⟩
    · rwa [hzeros, valueOfDigits_zeros_append]
  | scientific hsplit hlarge hsmall =>
    subst hsplit
    rw [← hvalue]
    exact ⟨_, exponent, rfl, ofDecimal?_scientific negative exponent hdigits⟩

/-! ### The text of a number -/

/-- A number is made of its sign and the bits below it. -/
theorem ofMagnitude_isNegative (number : Binary64) :
    ofMagnitude number.isNegative number.magnitude = number := by
  have hbits := number.bits.toNat_lt
  have hsum : number.magnitude + (if number.isNegative then signWeight else 0) =
      number.bits.toNat := by
    by_cases hnegative : signWeight ≤ number.bits.toNat
    · rw [isNegative, magnitude, decide_eq_true hnegative, if_pos rfl]
      rw [signWeight] at *
      omega
    · rw [isNegative, magnitude, decide_eq_false hnegative, if_neg Bool.false_ne_true]
      rw [signWeight] at *
      omega
  rw [ofMagnitude, hsum, UInt64.ofNat_toNat]

/-- A number that a text can stand for: of those that are not a number, the one that texts name. -/
def HasText (number : Binary64) : Prop :=
  number.isNotANumber = false ∨ number = notANumber

/-- A finite number is a number. -/
theorem isNotANumber_of_isFinite {number : Binary64} (hfinite : number.isFinite = true) :
    number.isNotANumber = false := by
  simp only [isFinite, isNotANumber, decide_eq_true_eq, decide_eq_false_iff_not] at *
  omega

/-- A number that a text can stand for is finite, an infinity or what is not a number. -/
theorem HasText.cases {number : Binary64} (htext : number.HasText) :
    number.isFinite = true ∨ number = infinity false ∨ number = infinity true ∨
      number = notANumber := by
  rcases htext with hnumber | rfl
  · by_cases hfinite : number.isFinite = true
    · exact Or.inl hfinite
    · have hmagnitude : number.magnitude = infinityMagnitude := by
        simp only [isFinite, isNotANumber, decide_eq_true_eq, decide_eq_false_iff_not] at *
        omega
      have hparts := ofMagnitude_isNegative number
      rw [hmagnitude] at hparts
      rw [← hparts]
      cases number.isNegative <;> simp [infinity]
  · simp

/-- The text of a finite number is a sign and the digits of its size. -/
theorem toList_render {number : Binary64} (hfinite : number.isFinite = true) :
    number.render.toList = signText number.isNegative ++
      (if number.magnitude = 0 then ['0', '.', '0']
        else NumberLayout.plain.digitsText (Nat.toDigits 10 (shortestDigits number.magnitude).1)
          (shortestDigits number.magnitude).2) := by
  have hnumber := isNotANumber_of_isFinite hfinite
  have hsign : (if number.isNegative then "-" else "").toList = signText number.isNegative := by
    cases number.isNegative <;> rfl
  rw [render, NumberLayout.render]
  simp only [hnumber, hfinite, Bool.false_eq_true, if_false, Bool.not_true]
  split
  · rw [String.toList_append, hsign]
    rfl
  · rw [String.toList_append, hsign, String.toList_ofList]

/-- The text of a finite number is read as the number. -/
theorem ofDecimal?_render {number : Binary64} (hfinite : number.isFinite = true) :
    ofDecimal? number.render.toList = some number := by
  rw [toList_render hfinite]
  split
  case isTrue hzero =>
    have hread := ofDecimal?_places number.isNegative 0 (-1) ['0'] ['0'] (by decide)
      (List.all_eq_true.mp (by decide)) rfl rfl
    have hnothing : magnitudeOfDecimal 0 (-1) = number.magnitude := hzero.symm
    rwa [hnothing, ofMagnitude_isNegative] at hread
  case isFalse hsome =>
    have hpositive := Nat.pos_of_ne_zero hsome
    have hless : number.magnitude < infinityMagnitude := by simpa [isFinite] using hfinite
    obtain ⟨shown, power, hvalue, hread⟩ := ofDecimal?_digitsText NumberLayout.plain
      number.isNegative (shortestDigits number.magnitude).1 (shortestDigits number.magnitude).2
    have hcovers := shortestDigits_covers hpositive
    rw [← hvalue] at hcovers
    rw [hread, magnitudeOfDecimal_eq_of_covers hpositive hless hcovers, ofMagnitude_isNegative]

/-- A character of a floating-point number in decimal. -/
def isNumberCharacter (character : Char) : Bool :=
  character.isDigit || character = '.' || character = 'e' || character = '-'

theorem isNumberCharacter_signText (negative : Bool) :
    ∀ character ∈ signText negative, isNumberCharacter character = true := by
  rw [signText]
  split
  · exact List.all_eq_true.mp (by decide)
  · simp

/-- What the text of a finite number looks like behind its sign: it begins with a digit, and it has
a point or an exponent, so that it is no whole number. -/
structure NumberForm (text : List Char) : Prop where
  /-- The first character is a digit. -/
  first : ∃ digit rest, text = digit :: rest ∧ digit.isDigit = true
  /-- There is a point or an exponent. -/
  mark : ∃ mark ∈ text, mark = '.' ∨ mark = 'e'
  /-- There are digits, signs, points and marks of exponents only. -/
  characters : ∀ character ∈ text, isNumberCharacter character = true

/-- Digits that are laid out have the form of a number. -/
theorem numberForm_digitsText (layout : NumberLayout) {digits : List Char} (exponent : ℤ)
    (hsome : digits ≠ []) (hdigits : ∀ character ∈ digits, character.isDigit = true) :
    NumberForm (layout.digitsText digits exponent) := by
  have hnumber {text : List Char} (htext : ∀ character ∈ text, character.isDigit = true) :
      ∀ character ∈ text, isNumberCharacter character = true :=
    fun character hmem ↦ by simp [isNumberCharacter, htext character hmem]
  have hmark : isNumberCharacter 'e' = true ∧ isNumberCharacter '.' = true := by decide
  have hlaid := laidOut_digitsText layout hsome exponent
  generalize layout.digitsText digits exponent = laid at *
  cases hlaid with
  | @whole count hfew =>
    obtain ⟨first, others, rfl⟩ := List.exists_cons_of_ne_nil hsome
    refine ⟨⟨first, _, rfl, hdigits first (by simp)⟩, ⟨'.', by simp, Or.inl rfl⟩, ?_⟩
    exact List.forall_mem_append.mpr
      ⟨List.forall_mem_append.mpr ⟨hnumber hdigits, hnumber (isDigit_zeros count)⟩,
        List.forall_mem_cons.mpr ⟨hmark.2, hnumber (isDigit_zeros 1)⟩⟩
  | @point whole part hwhole hpart hsplit hfew =>
    subst hsplit
    obtain ⟨hdigits, hdigits'⟩ := List.forall_mem_append.mp hdigits
    obtain ⟨first, others, rfl⟩ := List.exists_cons_of_ne_nil hwhole
    refine ⟨⟨first, _, rfl, hdigits first (by simp)⟩, ⟨'.', by simp, Or.inl rfl⟩, ?_⟩
    exact List.forall_mem_append.mpr
      ⟨hnumber hdigits, List.forall_mem_cons.mpr ⟨hmark.2, hnumber hdigits'⟩⟩
  | @small count hfew =>
    refine ⟨⟨'0', _, rfl, rfl⟩, ⟨'.', by simp, Or.inl rfl⟩, ?_⟩
    exact List.forall_mem_append.mpr
      ⟨hnumber (isDigit_zeros 1), List.forall_mem_cons.mpr
        ⟨hmark.2, List.forall_mem_append.mpr ⟨hnumber (isDigit_zeros count), hnumber hdigits⟩⟩⟩
  | @scientific exponent first others hsplit hlarge hsmall =>
    subst hsplit
    have hshown : ∀ character ∈ (toString (exponent + others.length)).toList,
        isNumberCharacter character = true := by
      rw [toList_toString, List.forall_mem_append]
      exact ⟨isNumberCharacter_signText _, hnumber (isDigit_toDigits _)⟩
    obtain ⟨hfirst, hothers⟩ := List.forall_mem_cons.mp hdigits
    refine ⟨⟨first, _, rfl, hfirst⟩, ⟨'e', by simp, Or.inr rfl⟩, ?_⟩
    simp only [List.forall_mem_append, List.forall_mem_cons]
    refine ⟨⟨hnumber hdigits first (by simp), ?_⟩, hmark.1, hshown⟩
    split
    · simp
    · exact List.forall_mem_cons.mpr ⟨hmark.2, hnumber hothers⟩

/-- The text of a finite number is a sign and a text that has the form of a number. -/
theorem exists_numberForm_render {number : Binary64} (hfinite : number.isFinite = true) :
    ∃ text, number.render.toList = signText number.isNegative ++ text ∧ NumberForm text := by
  refine ⟨_, toList_render hfinite, ?_⟩
  split
  · exact ⟨⟨'0', _, rfl, rfl⟩, ⟨'.', by decide, Or.inl rfl⟩, List.all_eq_true.mp (by decide)⟩
  · exact numberForm_digitsText _ _ Nat.toDigits_ne_nil (isDigit_toDigits _)

end Binary64

namespace Yaml

open Binary64

/-! ### Plain texts -/

/-- A text with a character that numbers do not have is not the text of a number. -/
theorem ne_of_foreign {text other : String}
    (htext : ∀ character ∈ text.toList, isNumberCharacter character = true)
    (hother : other.toList.all isNumberCharacter = false) : text ≠ other := by
  rintro rfl
  rw [List.all_eq_true.mpr htext] at hother
  cases hother

/-- A text with no other characters than numbers have spells neither nothing nor a truth value. -/
theorem not_word_of_numberCharacters {text : String} (hempty : text ≠ "")
    (htext : ∀ character ∈ text.toList, isNumberCharacter character = true) :
    (decide (text = "") || isNull text) = false ∧ boolean? text = none := by
  have hother (other : String) (hforeign : other.toList.all isNumberCharacter = false) :
      text ≠ other := ne_of_foreign htext hforeign
  constructor
  · simp (disch := decide) [hempty, isNull, hother]
  · rw [boolean?, if_neg (by simp (disch := decide) [hother]),
      if_neg (by simp (disch := decide) [hother])]

/-- A text with the form of a number is no whole number. -/
theorem unsignedNumber?_of_numberForm {text : List Char} (hform : NumberForm text) :
    unsignedNumber? text = none := by
  have hforeign (character : Char) (hmem : character ∈ text)
      (habsent : isNumberCharacter character = false) : False := by
    rw [hform.characters character hmem] at habsent
    cases habsent
  obtain ⟨mark, hmem, hmark⟩ := hform.mark
  have hdigit : Text.isDigitOf 10 mark = false := by
    rcases hmark with rfl | rfl <;> decide
  unfold unsignedNumber?
  split
  · exact (hforeign 'x' (by simp) (by decide)).elim
  · exact (hforeign 'o' (by simp) (by decide)).elim
  · exact (hforeign 'b' (by simp) (by decide)).elim
  · rw [Text.numberInBase?, if_pos]
    have hnot : text.all (Text.isDigitOf 10) = false := by
      rw [List.all_eq_false]
      exact ⟨mark, hmem, by simp [hdigit]⟩
    simp [hnot]

/-- The text of a finite number has no character that numbers do not have, and neither a plus nor
nothing at its start. -/
theorem render_characters {number : Binary64} (hfinite : number.isFinite = true) :
    (∀ character ∈ number.render.toList, isNumberCharacter character = true) ∧
      number.render.toList.head? ≠ some '+' ∧ number.render ≠ "" := by
  obtain ⟨text, hrender, hform⟩ := exists_numberForm_render hfinite
  have hcharacters : ∀ character ∈ number.render.toList, isNumberCharacter character = true := by
    rw [hrender, List.forall_mem_append]
    exact ⟨isNumberCharacter_signText _, hform.characters⟩
  refine ⟨hcharacters, fun hplus ↦ ?_, ?_⟩
  · exact absurd (hcharacters '+' (List.mem_of_mem_head? hplus)) (by decide)
  · rintro hempty
    obtain ⟨mark, hmem, _⟩ := hform.mark
    rw [hempty] at hrender
    simp_all

/-- A text that does not begin with a plus and spells nothing special is read as a decimal number.
-/
theorem float?_eq_filter {text : String} (hplus : text.toList.head? ≠ some '+')
    (hother : ∀ special ∈
      [".inf", ".Inf", ".INF", "-.inf", "-.Inf", "-.INF", ".nan", ".NaN", ".NAN"],
      text ≠ special) :
    float? text = (ofDecimal? text.toList).filter isFinite := by
  obtain ⟨characters, rfl⟩ : ∃ characters, text = String.ofList characters :=
    ⟨_, String.ofList_toList.symm⟩
  simp only [List.forall_mem_cons, String.toList_ofList] at hplus hother ⊢
  cases characters with
  | nil => rfl
  | cons first rest =>
    have hfirst : first ≠ '+' := fun hsame ↦ hplus (hsame ▸ rfl)
    simp [float?, hfirst, hother, -String.ofList_cons]

/-- A text with no other characters than numbers have spells nothing special. -/
theorem ne_special_of_numberCharacters {text : String}
    (htext : ∀ character ∈ text.toList, isNumberCharacter character = true) :
    ∀ special ∈ [".inf", ".Inf", ".INF", "-.inf", "-.Inf", "-.INF", ".nan", ".NaN", ".NAN"],
      text ≠ special := by
  intro special hmem
  have hforeign : ∀ special ∈
      [".inf", ".Inf", ".INF", "-.inf", "-.Inf", "-.INF", ".nan", ".NaN", ".NAN"],
      special.toList.all isNumberCharacter = false := by decide
  exact ne_of_foreign htext (hforeign special hmem)

/-- The text of a number is read as the number, bit for bit. -/
theorem float?_render {number : Binary64} (htext : number.HasText) :
    float? number.render = some number := by
  rcases htext.cases with hfinite | rfl | rfl | rfl
  · obtain ⟨hcharacters, hplus, _⟩ := render_characters hfinite
    rw [float?_eq_filter hplus (ne_special_of_numberCharacters hcharacters),
      ofDecimal?_render hfinite, Option.filter_some, if_pos hfinite]
  · decide +kernel
  · decide +kernel
  · decide +kernel

/-- A sign and a text with the form of a number are neither a whole number nor digits behind a zero.
-/
theorem wholeNumber?_of_numberForm (negative : Bool) {text : List Char} (hform : NumberForm text) :
    hasLeadingZero (signText negative ++ text) = false ∧
      wholeNumber? (signText negative ++ text) = none := by
  obtain ⟨digit, rest, rfl, hdigit⟩ := hform.first
  obtain ⟨mark, hmem, hmark⟩ := hform.mark
  have hnot : (digit :: rest).all Char.isDigit = false := by
    rw [List.all_eq_false]
    refine ⟨mark, hmem, ?_⟩
    rcases hmark with rfl | rfl <;> decide
  have hminus : digit ≠ '-' := by rintro rfl; exact absurd hdigit (by decide)
  have hplus : digit ≠ '+' := by rintro rfl; exact absurd hdigit (by decide)
  have hunsigned := unsignedNumber?_of_numberForm hform
  rw [signText]
  split
  · simp_all [hasLeadingZero, wholeNumber?]
  · simp_all [hasLeadingZero, wholeNumber?]

/-- The text of a finite number is neither a whole number nor digits behind a zero. -/
theorem wholeNumber?_render {number : Binary64} (hfinite : number.isFinite = true) :
    hasLeadingZero number.render.toList = false ∧ wholeNumber? number.render.toList = none := by
  obtain ⟨text, hrender, hform⟩ := exists_numberForm_render hfinite
  rw [hrender]
  exact wholeNumber?_of_numberForm number.isNegative hform

/-- The text of a number means the number. -/
theorem plainMeaning_render {number : Binary64} (htext : number.HasText) :
    plainMeaning number.render = .float number := by
  rcases htext.cases with hfinite | rfl | rfl | rfl
  · obtain ⟨hcharacters, _, hempty⟩ := render_characters hfinite
    obtain ⟨hzero, hwhole⟩ := wholeNumber?_render hfinite
    obtain ⟨hword, hboolean⟩ := not_word_of_numberCharacters hempty hcharacters
    simp [plainMeaning, hword, hboolean, hwhole, hzero, float?_render htext]
  · decide +kernel
  · decide +kernel
  · decide +kernel

end Yaml

end Roster
