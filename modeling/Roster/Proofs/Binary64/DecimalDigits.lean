import Mathlib.Data.List.Basic
import Mathlib.Data.List.Induction
import Mathlib.Tactic.IntervalCases
import Mathlib.Tactic.NormNum
import Mathlib.Tactic.Ring
import Roster.Binary64.Decimal
import Roster.Binary64.Shortest

/-!
# Decimal digits

Digits have a value, and digits that do not begin with a zero are the digits of their value
(`toDigits_valueOfDigits`). The digits of a number are laid out as text in one of four ways
(`LaidOut`), of which its size decides (`laidOut_iff`).
-/

set_option autoImplicit false
set_option relaxedAutoImplicit false

namespace Roster.Binary64

/-! ### The value of digits -/

/-- The value of digits, by the library's name. -/
theorem valueOfDigits_eq (digits : List Char) :
    valueOfDigits digits = Nat.ofDigitChars 10 digits 0 := by
  rw [valueOfDigits, Nat.ofDigitChars_eq_foldl]
  congr 1
  funext value digit
  rw [Nat.mul_comm]

/-- The digits of a number have its value. -/
theorem valueOfDigits_toDigits (number : ℕ) : valueOfDigits (Nat.toDigits 10 number) = number := by
  rw [valueOfDigits_eq, Nat.ofDigitChars_ten_toDigits]

/-- Zeros behind digits multiply their value by ten each. -/
theorem valueOfDigits_append_zeros (digits : List Char) (count : ℕ) :
    valueOfDigits (digits ++ List.replicate count '0') = valueOfDigits digits * 10 ^ count := by
  rw [valueOfDigits_eq, valueOfDigits_eq, Nat.ofDigitChars_append, Nat.ofDigitChars_replicate_zero,
    Nat.mul_comm]

/-- Zeros in front of digits do not count. -/
theorem valueOfDigits_zeros_append (digits : List Char) (count : ℕ) :
    valueOfDigits (List.replicate count '0' ++ digits) = valueOfDigits digits := by
  rw [valueOfDigits_eq, valueOfDigits_eq, Nat.ofDigitChars_append, Nat.ofDigitChars_replicate_zero,
    Nat.mul_zero]

theorem valueOfDigits_concat (digits : List Char) (digit : Char) :
    valueOfDigits (digits ++ [digit]) = 10 * valueOfDigits digits + (digit.toNat - '0'.toNat) := by
  rw [valueOfDigits, valueOfDigits, List.foldl_append, List.foldl_cons, List.foldl_nil, mul_comm]

/-! ### The digits of a number -/

/-- The digits of a number are decimal digits. -/
theorem isDigit_toDigits (number : ℕ) :
    ∀ character ∈ Nat.toDigits 10 number, character.isDigit = true :=
  fun _ hmem ↦ Nat.isDigit_of_mem_toDigits (by norm_num) (by norm_num) hmem

theorem isDigit_zeros (count : ℕ) :
    ∀ character ∈ List.replicate count '0', character.isDigit = true :=
  fun _ hmem ↦ List.eq_of_mem_replicate hmem ▸ rfl

/-- A decimal digit is the one of its value. -/
theorem digitChar_of_isDigit {digit : Char} (hdigit : digit.isDigit = true) :
    digit.toNat - '0'.toNat < 10 ∧ Nat.digitChar (digit.toNat - '0'.toNat) = digit := by
  have hcode : 48 ≤ digit.toNat ∧ digit.toNat ≤ 57 := by
    simpa [Char.isDigit, UInt32.le_iff_toNat_le] using hdigit
  have hzero : '0'.toNat = 48 := rfl
  refine ⟨by omega, Char.toNat_inj.mp ?_⟩
  rw [Nat.toNat_digitChar_of_lt_ten (by omega)]
  omega

theorem digitChar_eq_zero_iff {value : ℕ} (hvalue : value < 10) :
    Nat.digitChar value = '0' ↔ value = 0 := by
  interval_cases value <;> decide

/-- Only zero is written with a zero in front. -/
theorem head?_toDigits {number : ℕ} (hnumber : number ≠ 0) :
    (Nat.toDigits 10 number).head? ≠ some '0' := by
  induction number using Nat.strong_induction_on with
  | _ number ih =>
    rcases Nat.lt_or_ge number 10 with hless | hmore
    · rw [Nat.toDigits_of_lt_base hless, List.head?_cons]
      exact fun hzero ↦ hnumber ((digitChar_eq_zero_iff hless).mp (Option.some.inj hzero))
    · rw [Nat.toDigits_of_base_le (by norm_num) hmore, List.head?_append_of_ne_nil _
        Nat.toDigits_ne_nil]
      exact ih (number / 10) (by omega) (by omega)

/-- Digits that do not begin with a zero are those of their value. -/
theorem toDigits_valueOfDigits {digits : List Char} (hsome : digits ≠ [])
    (hdigits : ∀ character ∈ digits, character.isDigit = true) (hhead : digits.head? ≠ some '0') :
    Nat.toDigits 10 (valueOfDigits digits) = digits := by
  induction digits using List.reverseRecOn with
  | nil => exact absurd rfl hsome
  | append_singleton front digit ih =>
    obtain ⟨hless, hdigit⟩ := digitChar_of_isDigit (hdigits digit (by simp))
    rw [valueOfDigits_concat]
    by_cases hfront : front = []
    · subst hfront
      have hnothing : valueOfDigits [] = 0 := rfl
      rw [hnothing, Nat.mul_zero, Nat.zero_add, Nat.toDigits_of_lt_base hless, hdigit]
      rfl
    · rw [List.head?_append_of_ne_nil _ hfront] at hhead
      have hvalue := ih hfront (fun character hmem ↦ hdigits character (by simp [hmem])) hhead
      have hpositive : 0 < valueOfDigits front := by
        refine Nat.pos_of_ne_zero fun hzero ↦ hhead ?_
        rw [← hvalue, hzero]
        rfl
      rw [← Nat.toDigits_append_toDigits (by norm_num) hpositive hless, hvalue,
        Nat.toDigits_of_lt_base hless, hdigit]

/-- Ten times a number, some times, has as many more zeros. -/
theorem toDigits_mul_pow {number : ℕ} (hnumber : number ≠ 0) (count : ℕ) :
    Nat.toDigits 10 (number * 10 ^ count) = Nat.toDigits 10 number ++ List.replicate count '0' := by
  have hvalue : number * 10 ^ count =
      valueOfDigits (Nat.toDigits 10 number ++ List.replicate count '0') := by
    rw [valueOfDigits_append_zeros, valueOfDigits_toDigits]
  rw [hvalue]
  refine toDigits_valueOfDigits (List.append_ne_nil_of_left_ne_nil Nat.toDigits_ne_nil _) ?_ ?_
  · exact List.forall_mem_append.mpr ⟨isDigit_toDigits number, isDigit_zeros count⟩
  · rw [List.head?_append_of_ne_nil _ Nat.toDigits_ne_nil]
    exact head?_toDigits hnumber

/-- Digits that do not begin with a zero, behind zeros. -/
theorem exists_zeros_append {digits : List Char} (hvalue : valueOfDigits digits ≠ 0) :
    ∃ count rest, digits = List.replicate count '0' ++ rest ∧ rest ≠ [] ∧
      rest.head? ≠ some '0' := by
  induction digits with
  | nil => exact absurd rfl hvalue
  | cons first others ih =>
    by_cases hfirst : first = '0'
    · subst hfirst
      have hothers : valueOfDigits ('0' :: others) = valueOfDigits others :=
        valueOfDigits_zeros_append others 1
      obtain ⟨count, rest, rfl, hsome, hhead⟩ := ih (hothers ▸ hvalue)
      exact ⟨count + 1, rest, rfl, hsome, hhead⟩
    · exact ⟨0, first :: others, rfl, List.cons_ne_nil first others,
        fun hzero ↦ hfirst (Option.some.inj hzero)⟩

/-- The last digit tells whether a number is a multiple of ten. -/
theorem valueOfDigits_mod_ten {digits : List Char} (hsome : digits ≠ [])
    (hdigits : ∀ character ∈ digits, character.isDigit = true) :
    valueOfDigits digits % 10 = 0 ↔ digits.getLast? = some '0' := by
  induction digits using List.reverseRecOn with
  | nil => exact absurd rfl hsome
  | append_singleton front digit _ =>
    obtain ⟨hless, hdigit⟩ := digitChar_of_isDigit (hdigits digit (by simp))
    rw [valueOfDigits_concat, List.getLast?_concat, Option.some_inj, Nat.mul_add_mod,
      Nat.mod_eq_of_lt hless, ← digitChar_eq_zero_iff hless, hdigit]

/-- Some digits make a number below the power of ten. -/
theorem valueOfDigits_lt {digits : List Char}
    (hdigits : ∀ character ∈ digits, character.isDigit = true) :
    valueOfDigits digits < 10 ^ digits.length := by
  induction digits using List.reverseRecOn with
  | nil => exact Nat.one_pos
  | append_singleton front digit ih =>
    have hfront := ih fun character hmem ↦ hdigits character (by simp [hmem])
    have hless := (digitChar_of_isDigit (hdigits digit (by simp))).1
    rw [valueOfDigits_concat, List.length_append, List.length_singleton, pow_succ]
    omega

/-! ### The layout of digits -/

/-- How digits are laid out: with zeros behind them and one behind the point, with the point between
them, with a point and zeros before them, or with an exponent if they are far from the point. -/
inductive LaidOut (layout : NumberLayout) (digits : List Char) : ℤ → List Char → Prop
  /-- A whole number. -/
  | whole {count : ℕ} (hfew : (digits.length : ℤ) + count ≤ layout.mostWholePlaces) :
    LaidOut layout digits count ((digits ++ List.replicate count '0') ++ '.' :: ['0'])
  /-- A number with a whole and a part. -/
  | point {whole part : List Char} (hwhole : whole ≠ []) (hpart : part ≠ [])
    (hdigits : whole ++ part = digits) (hfew : (whole.length : ℤ) ≤ layout.mostWholePlaces) :
    LaidOut layout digits (-part.length) (whole ++ '.' :: part)
  /-- A number less than one. -/
  | small {count : ℕ} (hfew : (count : ℤ) ≤ layout.mostLeadingZeros) :
    LaidOut layout digits (-(List.replicate count '0' ++ digits).length)
      (['0'] ++ '.' :: (List.replicate count '0' ++ digits))
  /-- A number with an exponent. -/
  | scientific {exponent : ℤ} {first : Char} {others : List Char}
    (hdigits : digits = first :: others)
    (hlarge : 0 < digits.length + exponent →
      layout.mostWholePlaces < digits.length + exponent)
    (hsmall : digits.length + exponent ≤ 0 →
      layout.mostLeadingZeros < -(digits.length + exponent)) :
    LaidOut layout digits exponent
      (first :: (if others = [] then [] else '.' :: others) ++
        'e' :: (toString (exponent + others.length)).toList)

variable {layout : NumberLayout} {digits : List Char} {exponent : ℤ} {text : List Char}

/-- The text of some digits is laid out. -/
theorem laidOut_digitsText (layout : NumberLayout) (hsome : digits ≠ []) (exponent : ℤ) :
    LaidOut layout digits exponent (layout.digitsText digits exponent) := by
  rw [NumberLayout.digitsText]
  split
  case isTrue hwhole =>
    obtain ⟨count, rfl⟩ := Int.eq_ofNat_of_zero_le hwhole.1
    exact .whole hwhole.2
  case isFalse hwhole =>
    split
    case isTrue hpoint =>
      generalize hplaces : (digits.length + exponent).toNat = places
      have hless : places < digits.length := by omega
      have hexponent : exponent = -(digits.drop places).length := by
        rw [List.length_drop]
        omega
      rw [hexponent, List.append_assoc]
      refine .point ?_ ?_ (List.take_append_drop places digits) ?_
      · rw [Ne, List.take_eq_nil_iff]
        exact not_or.mpr ⟨by omega, hsome⟩
      · rw [Ne, List.drop_eq_nil_iff]
        omega
      · rw [List.length_take]
        omega
    case isFalse hpoint =>
      split
      case isTrue hsmall =>
        generalize hcount : (-(digits.length + exponent)).toNat = count
        have hexponent : exponent = -(List.replicate count '0' ++ digits).length := by
          rw [List.length_append, List.length_replicate]
          omega
        rw [hexponent, List.append_assoc]
        exact .small (by omega)
      case isFalse hfar =>
        obtain ⟨first, others, rfl⟩ := List.exists_cons_of_ne_nil hsome
        have hshown : ((first :: others).length : ℤ) + exponent - 1 = exponent + others.length := by
          rw [List.length_cons]
          omega
        rw [hshown]
        have hlaid : LaidOut layout (first :: others) exponent _ :=
          .scientific rfl (by omega) (by omega)
        cases others <;> exact hlaid

/-- What is laid out is the text of the digits. -/
theorem LaidOut.digitsText_eq (hsome : digits ≠ []) (hlaid : LaidOut layout digits exponent text) :
    layout.digitsText digits exponent = text := by
  have hlength : 0 < digits.length := List.length_pos_iff.mpr hsome
  rw [NumberLayout.digitsText]
  cases hlaid with
  | whole hfew => rw [if_pos ⟨Int.natCast_nonneg _, hfew⟩, Int.toNat_natCast]
  | @point whole part hwhole hpart hdigits hfew =>
    have hpositive : 0 < whole.length := List.length_pos_iff.mpr hwhole
    have hpositive' : 0 < part.length := List.length_pos_iff.mpr hpart
    have hplaces : (digits.length : ℤ) + -part.length = whole.length := by
      rw [← hdigits, List.length_append]
      omega
    simp only [hplaces]
    rw [if_neg (by omega), if_pos ⟨by omega, hfew⟩, Int.toNat_natCast, ← hdigits, List.take_left,
      List.drop_left, List.append_assoc, List.singleton_append]
  | @small count hfew =>
    have hexponent : (-(List.replicate count '0' ++ digits).length : ℤ) =
        -count - digits.length := by
      rw [List.length_append, List.length_replicate]
      omega
    have hplaces : (digits.length : ℤ) + (-count - digits.length) = -count := by omega
    simp only [hexponent, hplaces]
    rw [if_neg (by omega), if_neg (by omega), if_pos ⟨by omega, by omega⟩, neg_neg,
      Int.toNat_natCast, List.append_assoc]
    rfl
  | @scientific exponent first others hdigits hlarge hsmall =>
    subst hdigits
    have hshown : ((first :: others).length : ℤ) + exponent - 1 = exponent + others.length := by
      rw [List.length_cons]
      omega
    rw [if_neg (by omega), if_neg (by omega), if_neg (by omega), hshown]
    cases others <;> rfl

/-- The text of digits is the one that they are laid out as. -/
theorem laidOut_iff (hsome : digits ≠ []) :
    LaidOut layout digits exponent text ↔ layout.digitsText digits exponent = text :=
  ⟨fun hlaid ↦ hlaid.digitsText_eq hsome,
    fun htext ↦ htext ▸ laidOut_digitsText layout hsome exponent⟩

end Roster.Binary64
