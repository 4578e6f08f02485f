import Roster.Proofs.Binary64.ShortDecimals
import Roster.Proofs.Binary64.WrittenNumbers

/-!
# Digits around a point

A text of digits, a point and digits (`IsPointed`) is read as a floating-point number unless it is
too big (`Yaml.plainMeaning_pointed`). The text that the number is written as has a form of its own
(`IsCanonical`): no spare zeros stand at either end, and not too many behind the point. So a text
that is not of that form never comes back from the number (`isCanonical_of_render`). A text of that
form comes back if it has at most fifteen digits (`render_of_isCanonical`).
-/

set_option autoImplicit false
set_option relaxedAutoImplicit false

namespace Roster

namespace Binary64

/-! ### Texts with a point -/

/-- Digits on both sides of a point. -/
structure IsPointed (whole part : List Char) : Prop where
  whole_ne_nil : whole ≠ []
  part_ne_nil : part ≠ []
  isDigit_whole : ∀ character ∈ whole, character.isDigit = true
  isDigit_part : ∀ character ∈ part, character.isDigit = true

/-- The form in which a number is written: a zero stands at the start or at the end only if it is
the one digit there, and no more than four zeros follow a point behind a single zero. -/
structure IsCanonical (whole part : List Char) : Prop where
  start : whole = ['0'] ∨ whole.head? ≠ some '0'
  ending : part = ['0'] ∨ part.getLast? ≠ some '0'
  places : whole = ['0'] → ¬ List.replicate 5 '0' <+: part

instance (whole part : List Char) : Decidable (IsPointed whole part) :=
  decidable_of_iff (whole ≠ [] ∧ part ≠ [] ∧ whole.all Char.isDigit ∧ part.all Char.isDigit)
    ⟨fun ⟨hwhole, hpart, hdigits, hdigits'⟩ ↦
        ⟨hwhole, hpart, List.all_eq_true.mp hdigits, List.all_eq_true.mp hdigits'⟩,
      fun ⟨hwhole, hpart, hdigits, hdigits'⟩ ↦
        ⟨hwhole, hpart, List.all_eq_true.mpr hdigits, List.all_eq_true.mpr hdigits'⟩⟩

instance (whole part : List Char) : Decidable (IsCanonical whole part) :=
  decidable_of_iff ((whole = ['0'] ∨ whole.head? ≠ some '0') ∧
      (part = ['0'] ∨ part.getLast? ≠ some '0') ∧
      (whole = ['0'] → ¬ List.replicate 5 '0' <+: part))
    ⟨fun ⟨hstart, hending, hplaces⟩ ↦ ⟨hstart, hending, hplaces⟩,
      fun ⟨hstart, hending, hplaces⟩ ↦ ⟨hstart, hending, hplaces⟩⟩

/-- A text with a point. -/
def pointedText (whole part : List Char) : String :=
  String.ofList (whole ++ '.' :: part)

variable {whole part : List Char}

@[simp] theorem toList_pointedText : (pointedText whole part).toList = whole ++ '.' :: part :=
  String.toList_ofList

theorem IsPointed.isDigit_append (hpointed : IsPointed whole part) :
    ∀ character ∈ whole ++ part, character.isDigit = true :=
  List.forall_mem_append.mpr ⟨hpointed.isDigit_whole, hpointed.isDigit_part⟩

/-- No exponent is in a text of digits with a point. -/
theorem IsPointed.not_mem_e (hpointed : IsPointed whole part) : 'e' ∉ whole ++ '.' :: part := by
  have hnone : Char.isDigit 'e' = false := by decide
  rw [List.mem_append, List.mem_cons]
  rintro (hmem | heq | hmem)
  · exact Bool.noConfusion (hnone.symm.trans (hpointed.isDigit_whole 'e' hmem))
  · exact absurd heq (by decide)
  · exact Bool.noConfusion (hnone.symm.trans (hpointed.isDigit_part 'e' hmem))

/-- A text is cut at its point in one way. -/
theorem append_point_inj {first second behind later : List Char}
    (hfirst : ∀ character ∈ first, character.isDigit = true)
    (hsecond : ∀ character ∈ second, character.isDigit = true)
    (hsame : first ++ '.' :: behind = second ++ '.' :: later) :
    first = second ∧ behind = later := by
  obtain ⟨htake, hdrop⟩ := takeWhile_isDigit ('.' :: behind) hfirst (by simp)
  obtain ⟨htake', hdrop'⟩ := takeWhile_isDigit ('.' :: later) hsecond (by simp)
  rw [hsame] at htake hdrop
  exact ⟨htake.symm.trans htake', (List.cons.inj (hdrop.symm.trans hdrop')).2⟩

/-! ### The form of a number -/

/-- Digits without a zero at either end that are laid out with a point have the form of a number. -/
theorem isCanonical_of_laidOut {digits : List Char} {exponent : ℤ}
    (hdigits : ∀ character ∈ digits, character.isDigit = true) (hsome : digits ≠ [])
    (hfirst : digits.head? ≠ some '0') (hlast : digits.getLast? ≠ some '0')
    (hpointed : IsPointed whole part)
    (hlaid : LaidOut .plain digits exponent (whole ++ '.' :: part)) : IsCanonical whole part := by
  generalize htext : whole ++ '.' :: part = text at hlaid
  cases hlaid with
  | @whole count hfew =>
    have hhead : (digits ++ List.replicate count '0').head? ≠ some '0' := by
      rwa [List.head?_append_of_ne_nil _ hsome]
    obtain ⟨rfl, rfl⟩ := append_point_inj hpointed.isDigit_whole
      (List.forall_mem_append.mpr ⟨hdigits, isDigit_zeros count⟩) htext
    exact ⟨.inr hhead, .inl rfl, fun hzero ↦ absurd (hzero ▸ rfl) hhead⟩
  | @point front back hfront hback hsplit hfew =>
    subst hsplit
    rw [List.head?_append_of_ne_nil _ hfront] at hfirst
    rw [List.getLast?_append_of_ne_nil _ hback] at hlast
    obtain ⟨rfl, rfl⟩ := append_point_inj hpointed.isDigit_whole
      (List.forall_mem_append.mp hdigits).1 htext
    exact ⟨.inr hfirst, .inr hlast, fun hzero ↦ absurd (hzero ▸ rfl) hfirst⟩
  | @small count hfew =>
    obtain ⟨rfl, rfl⟩ := append_point_inj hpointed.isDigit_whole (isDigit_zeros 1) htext
    refine ⟨.inl rfl, .inr ?_, fun _ hfive ↦ ?_⟩
    · rwa [List.getLast?_append_of_ne_nil _ hsome]
    · have hmost : count ≤ 4 := Int.ofNat_le.mp hfew
      obtain ⟨more, hmore⟩ : ∃ more, 5 = count + (more + 1) := ⟨4 - count, by omega⟩
      rw [hmore, ← List.replicate_append_replicate, List.prefix_append_right_inj,
        List.replicate_succ] at hfive
      obtain ⟨rest, rfl⟩ := hfive
      exact hfirst rfl
  | scientific hsplit hlarge hsmall =>
    have hmark : 'e' ∈ whole ++ '.' :: part := htext ▸ by simp
    exact absurd hmark hpointed.not_mem_e

/-- Digits with zeros behind them are laid out with one zero behind the point. -/
theorem laidOut_whole {digits count : ℕ} (hdigits : digits ≠ 0) (hwhole : whole ≠ [])
    (hall : ∀ character ∈ whole, character.isDigit = true) (hhead : whole.head? ≠ some '0')
    (hvalue : valueOfDigits whole = digits * 10 ^ count) (hfew : whole.length ≤ 16) :
    LaidOut .plain (Nat.toDigits 10 digits) count (whole ++ '.' :: ['0']) := by
  have htext : Nat.toDigits 10 digits ++ List.replicate count '0' = whole := by
    rw [← toDigits_mul_pow hdigits, ← hvalue, toDigits_valueOfDigits hwhole hall hhead]
  rw [← htext]
  rw [← htext, List.length_append, List.length_replicate] at hfew
  exact .whole (Int.ofNat_le.mpr hfew)

/-- Digits with zeros before them are laid out behind a zero and a point. -/
theorem laidOut_small (hpart : ∀ character ∈ part, character.isDigit = true)
    (hvalue : valueOfDigits part ≠ 0) (hplaces : ¬ List.replicate 5 '0' <+: part) :
    LaidOut .plain (Nat.toDigits 10 (valueOfDigits part)) (-part.length)
      (['0'] ++ '.' :: part) := by
  obtain ⟨count, rest, rfl, hsome, hrest⟩ := exists_zeros_append hvalue
  have hcount : count ≤ 4 := by
    by_contra hmany
    refine hplaces ?_
    obtain ⟨more, rfl⟩ := Nat.exists_eq_add_of_le (not_le.mp hmany)
    rw [← List.replicate_append_replicate, List.append_assoc]
    exact List.prefix_append _ _
  rw [valueOfDigits_zeros_append,
    toDigits_valueOfDigits hsome (List.forall_mem_append.mp hpart).2 hrest]
  exact .small (Int.ofNat_le.mpr hcount)

/-- A text in the form of a number is what its digits are laid out as. -/
theorem laidOut_of_isCanonical {digits zeros : ℕ} (hpointed : IsPointed whole part)
    (hcanonical : IsCanonical whole part)
    (hvalue : valueOfDigits (whole ++ part) = digits * 10 ^ zeros) (hten : digits % 10 ≠ 0)
    (hfew : whole.length ≤ 16) :
    LaidOut .plain (Nat.toDigits 10 digits) (zeros - part.length) (whole ++ '.' :: part) := by
  have hall := hpointed.isDigit_append
  obtain ⟨hwhole, hpart, hdigits, hdigits'⟩ := hpointed
  have hsome : digits ≠ 0 := by omega
  have hboth : whole ++ part ≠ [] := List.append_ne_nil_of_left_ne_nil hwhole part
  rcases hcanonical.ending with rfl | hlast
  · -- Zeros behind the digits, all but one of them before the point.
    have hvalue' : valueOfDigits whole * 10 = digits * 10 ^ zeros :=
      (valueOfDigits_append_zeros whole 1).symm.trans hvalue
    obtain ⟨count, rfl⟩ : ∃ count, zeros = count + 1 := by
      refine Nat.exists_eq_succ_of_ne_zero fun hzero ↦ ?_
      rw [hzero, pow_zero, mul_one] at hvalue'
      omega
    rw [pow_succ, ← mul_assoc] at hvalue'
    have hcount := Nat.eq_of_mul_eq_mul_right (by norm_num) hvalue'
    have hhead : whole.head? ≠ some '0' := by
      refine hcanonical.start.resolve_left ?_
      rintro rfl
      exact absurd hcount.symm (Nat.mul_pos (Nat.pos_of_ne_zero hsome) (by positivity)).ne'
    have hexponent : ((count + 1 : ℕ) : ℤ) - (['0'] : List Char).length = count := by
      rw [List.length_singleton]
      omega
    rw [hexponent]
    exact laidOut_whole hsome hwhole hdigits hhead hcount hfew
  · have hnone : valueOfDigits (whole ++ part) % 10 ≠ 0 := by
      rwa [Ne, valueOfDigits_mod_ten hboth hall, List.getLast?_append_of_ne_nil _ hpart]
    obtain rfl : zeros = 0 := by
      by_contra hzeros
      exact hnone (hvalue ▸ mul_pow_mod_ten digits hzeros)
    rw [pow_zero, mul_one] at hvalue
    subst hvalue
    rw [Int.natCast_zero, zero_sub]
    rcases hcanonical.start with rfl | hhead
    · have hsmall : valueOfDigits (['0'] ++ part) = valueOfDigits part :=
        valueOfDigits_zeros_append part 1
      rw [hsmall] at hsome ⊢
      exact laidOut_small hdigits' hsome (hcanonical.places rfl)
    · rw [toDigits_valueOfDigits hboth hall (by rwa [List.head?_append_of_ne_nil _ hwhole])]
      exact .point hwhole hpart rfl (Int.ofNat_le.mpr hfew)

/-! ### The number of a text with a point -/

/-- The floating-point number that a text with a point is read as. -/
def pointedNumber (whole part : List Char) : Binary64 :=
  ofMagnitude false (magnitudeOfDecimal (valueOfDigits (whole ++ part)) (-part.length))

theorem ofDecimal?_pointed (hpointed : IsPointed whole part) :
    ofDecimal? (whole ++ '.' :: part) = some (pointedNumber whole part) :=
  ofDecimal?_places false _ _ whole part hpointed.whole_ne_nil hpointed.isDigit_append rfl rfl

/-- No number is read as more than an infinity. -/
theorem magnitudeOfDecimal_le (digits : ℕ) (exponent : ℤ) :
    magnitudeOfDecimal digits exponent ≤ infinityMagnitude := by
  have hnearest (numerator denominator : ℕ) :
      nearestMagnitude numerator denominator ≤ infinityMagnitude := Nat.min_le_left _ _
  simp only [magnitudeOfDecimal]
  split
  · exact Nat.zero_le _
  split
  · exact le_rfl
  split
  · exact Nat.zero_le _
  split <;> exact hnearest _ _

/-- The parts of a number without a sign. -/
theorem parts_ofMagnitude_false {bits : ℕ} (hbits : bits ≤ infinityMagnitude) :
    (ofMagnitude false bits).magnitude = bits ∧ (ofMagnitude false bits).isNegative = false := by
  have hsmall : bits < signWeight := by
    rw [infinityMagnitude, exponentWeight] at hbits
    rw [signWeight]
    omega
  have hless : bits < 2 ^ 64 := by
    rw [signWeight] at hsmall
    omega
  have hvalue : (UInt64.ofNat (bits + if false = true then signWeight else 0)).toNat = bits := by
    rw [if_neg Bool.false_ne_true, Nat.add_zero, UInt64.toNat_ofNat', Nat.mod_eq_of_lt hless]
  rw [magnitude, isNegative, ofMagnitude, hvalue, Nat.mod_eq_of_lt hsmall,
    decide_eq_false (not_le.mpr hsmall)]
  exact ⟨rfl, rfl⟩

theorem magnitude_pointedNumber (whole part : List Char) : (pointedNumber whole part).magnitude =
    magnitudeOfDecimal (valueOfDigits (whole ++ part)) (-part.length) :=
  (parts_ofMagnitude_false (magnitudeOfDecimal_le _ _)).1

/-- The text that a finite number of a text with a point is written as. -/
theorem toList_render_pointedNumber (hfinite : (pointedNumber whole part).isFinite = true) :
    (pointedNumber whole part).render.toList =
      if (pointedNumber whole part).magnitude = 0 then ['0', '.', '0']
      else NumberLayout.plain.digitsText
        (Nat.toDigits 10 (shortestDigits (pointedNumber whole part).magnitude).1)
        (shortestDigits (pointedNumber whole part).magnitude).2 := by
  have hsign : (pointedNumber whole part).isNegative = false :=
    (parts_ofMagnitude_false (magnitudeOfDecimal_le _ _)).2
  rw [toList_render hfinite, hsign]
  rfl

/-- A text with a point that comes back from its number has the form of a number. -/
theorem isCanonical_of_render (hpointed : IsPointed whole part)
    (hfinite : (pointedNumber whole part).isFinite = true)
    (hrender : (pointedNumber whole part).render = pointedText whole part) :
    IsCanonical whole part := by
  have htext := congrArg String.toList hrender
  rw [toList_render_pointedNumber hfinite, toList_pointedText] at htext
  split at htext
  case isTrue hzero =>
    have hdigit : ∀ character ∈ ['0'], character.isDigit = true :=
      List.forall_mem_singleton.mpr rfl
    have htext' : ['0'] ++ '.' :: ['0'] = whole ++ '.' :: part := htext
    obtain ⟨rfl, rfl⟩ := append_point_inj hdigit hpointed.isDigit_whole htext'
    exact ⟨.inl rfl, .inl rfl, fun _ ↦ by decide⟩
  case isFalse hsome =>
    generalize (shortestDigits (pointedNumber whole part).magnitude).2 = exponent at htext
    have hten := shortestDigits_mod_ten (Nat.pos_of_ne_zero hsome)
    generalize (shortestDigits (pointedNumber whole part).magnitude).1 = digits at htext hten
    have hlast : (Nat.toDigits 10 digits).getLast? ≠ some '0' := by
      rwa [Ne, ← valueOfDigits_mod_ten Nat.toDigits_ne_nil (isDigit_toDigits digits),
        valueOfDigits_toDigits]
    exact isCanonical_of_laidOut (isDigit_toDigits digits) Nat.toDigits_ne_nil
      (head?_toDigits (by omega)) hlast hpointed ((laidOut_iff Nat.toDigits_ne_nil).mpr htext)

/-- Digits without value that have the form of a number are a single zero on both sides. -/
theorem eq_zero_of_isCanonical (hpointed : IsPointed whole part)
    (hcanonical : IsCanonical whole part) (hzero : valueOfDigits (whole ++ part) = 0) :
    whole = ['0'] ∧ part = ['0'] := by
  have hsome : whole ++ part ≠ [] := List.append_ne_nil_of_left_ne_nil hpointed.whole_ne_nil part
  constructor
  · refine hcanonical.start.resolve_right fun hhead ↦ ?_
    have hfront : (whole ++ part).head? = whole.head? :=
      List.head?_append_of_ne_nil whole hpointed.whole_ne_nil
    rw [← hfront] at hhead
    have hdigits := toDigits_valueOfDigits hsome hpointed.isDigit_append hhead
    rw [hzero] at hdigits
    rw [← hdigits] at hhead
    exact hhead rfl
  · refine hcanonical.ending.resolve_right fun hlast ↦ hlast ?_
    have hend : (whole ++ part).getLast? = part.getLast? :=
      List.getLast?_append_of_ne_nil whole hpointed.part_ne_nil
    rw [← hend]
    exact (valueOfDigits_mod_ten hsome hpointed.isDigit_append).mp (by rw [hzero])

/-! ### Fifteen digits -/

/-- A text with a point has a value less than the power of ten, if it has few digits. -/
theorem IsPointed.valueOfDigits_lt (hpointed : IsPointed whole part)
    (hfew : (whole ++ part).length ≤ 15) : valueOfDigits (whole ++ part) < 10 ^ 15 :=
  (Binary64.valueOfDigits_lt hpointed.isDigit_append).trans_le
    (Nat.pow_le_pow_right (by norm_num) hfew)

theorem magnitude_of_value_eq_zero (hzero : valueOfDigits (whole ++ part) = 0) :
    (pointedNumber whole part).magnitude = 0 := by
  rw [magnitude_pointedNumber, hzero]
  rfl

/-- With at most fifteen digits a positive number is finite and not on the finest grid. -/
theorem magnitude_of_short (hpointed : IsPointed whole part) (hfew : (whole ++ part).length ≤ 15)
    (hsome : 0 < valueOfDigits (whole ++ part)) :
    2 * exponentWeight ≤ (pointedNumber whole part).magnitude ∧
      (pointedNumber whole part).magnitude < infinityMagnitude := by
  have hplaces : part.length ≤ 15 := by
    rw [List.length_append] at hfew
    omega
  rw [magnitude_pointedNumber]
  exact magnitudeOfDecimal_of_short hsome (hpointed.valueOfDigits_lt hfew) hplaces

/-- With at most fifteen digits a text with a point is read as a finite number. -/
theorem isFinite_of_short (hpointed : IsPointed whole part) (hfew : (whole ++ part).length ≤ 15) :
    (pointedNumber whole part).isFinite = true := by
  rw [isFinite, decide_eq_true_eq]
  rcases Nat.eq_zero_or_pos (valueOfDigits (whole ++ part)) with hzero | hsome
  · rw [magnitude_of_value_eq_zero hzero]
    decide
  · exact (magnitude_of_short hpointed hfew hsome).2

/-- With at most fifteen digits a positive number is written with the digits of the text that it is
read from, less the zeros at either end. -/
theorem shortestDigits_pointedNumber (hpointed : IsPointed whole part)
    (hfew : (whole ++ part).length ≤ 15) (hsome : 0 < valueOfDigits (whole ++ part)) :
    ∃ digits zeros : ℕ, valueOfDigits (whole ++ part) = digits * 10 ^ zeros ∧ digits % 10 ≠ 0 ∧
      shortestDigits (pointedNumber whole part).magnitude =
        (digits, (zeros : ℤ) - part.length) := by
  obtain ⟨hcoarse, hbounded⟩ := magnitude_of_short hpointed hfew hsome
  have hpositive : 0 < (pointedNumber whole part).magnitude := by
    rw [exponentWeight] at hcoarse
    omega
  obtain ⟨zeros, digits, hten, hvalue⟩ :=
    Nat.exists_eq_pow_mul_and_not_dvd hsome.ne' 10 (by norm_num)
  have hten' : digits % 10 ≠ 0 := fun hzero ↦ hten (Nat.dvd_of_mod_eq_zero hzero)
  have hdigits : digits < 10 ^ 15 := (Nat.le_mul_of_pos_left digits (by positivity)).trans_lt
    (hvalue ▸ hpointed.valueOfDigits_lt hfew)
  have hcovers := covers_magnitudeOfDecimal (magnitude_pointedNumber whole part).symm hpositive
    hbounded
  have hpoint : ((valueOfDigits (whole ++ part) : ℕ) : ℚ) * 10 ^ (-part.length : ℤ) =
      digits * 10 ^ (zeros - part.length : ℤ) := by
    rw [hvalue, sub_eq_add_neg, zpow_add₀ (by norm_num), zpow_natCast]
    push_cast
    ring
  rw [hpoint] at hcovers
  exact ⟨digits, zeros, hvalue.trans (mul_comm _ _), hten',
    shortestDigits_of_short hpositive hdigits hten' (lt_gridPower hcoarse) hcovers⟩

/-- With at most fifteen digits a text in the form of a number comes back from its number. -/
theorem render_of_isCanonical (hpointed : IsPointed whole part)
    (hcanonical : IsCanonical whole part) (hfew : (whole ++ part).length ≤ 15) :
    (pointedNumber whole part).render = pointedText whole part := by
  refine String.toList_injective ?_
  rw [toList_render_pointedNumber (isFinite_of_short hpointed hfew), toList_pointedText]
  rcases Nat.eq_zero_or_pos (valueOfDigits (whole ++ part)) with hzero | hsome
  · obtain ⟨rfl, rfl⟩ := eq_zero_of_isCanonical hpointed hcanonical hzero
    rw [if_pos (magnitude_of_value_eq_zero hzero)]
    rfl
  · obtain ⟨digits, zeros, hvalue, hten, hshortest⟩ :=
      shortestDigits_pointedNumber hpointed hfew hsome
    have hpositive : (pointedNumber whole part).magnitude ≠ 0 := by
      have hcoarse := (magnitude_of_short hpointed hfew hsome).1
      rw [exponentWeight] at hcoarse
      omega
    have hplaces : whole.length ≤ 16 := by
      rw [List.length_append] at hfew
      omega
    rw [if_neg hpositive, hshortest]
    exact (laidOut_of_isCanonical hpointed hcanonical hvalue hten hplaces).digitsText_eq
      Nat.toDigits_ne_nil

/-- A text with a point has the form of a number. -/
theorem IsPointed.numberForm (hpointed : IsPointed whole part) :
    NumberForm (whole ++ '.' :: part) := by
  obtain ⟨hwhole, -, hdigits, hdigits'⟩ := hpointed
  have hcharacter {character : Char} (hdigit : character.isDigit = true) :
      isNumberCharacter character = true := by simp [isNumberCharacter, hdigit]
  refine ⟨?_, ⟨'.', by simp, .inl rfl⟩, ?_⟩
  · obtain ⟨first, rest, rfl⟩ := List.exists_cons_of_ne_nil hwhole
    exact ⟨first, _, rfl, hdigits first List.mem_cons_self⟩
  · simp only [List.forall_mem_append, List.forall_mem_cons]
    exact ⟨fun character hmem ↦ hcharacter (hdigits character hmem), by decide,
      fun character hmem ↦ hcharacter (hdigits' character hmem)⟩

end Binary64

namespace Yaml

open Binary64

/-- A text with a point means the number that it is read as, or itself if that is too big. -/
theorem plainMeaning_pointed {whole part : List Char} (hpointed : IsPointed whole part) :
    plainMeaning (pointedText whole part) =
      if (pointedNumber whole part).isFinite then .float (pointedNumber whole part)
      else .text := by
  have hform := hpointed.numberForm
  have htext : (pointedText whole part).toList = signText false ++ (whole ++ '.' :: part) :=
    toList_pointedText
  have hcharacters : ∀ character ∈ (pointedText whole part).toList,
      isNumberCharacter character = true := toList_pointedText ▸ hform.characters
  have hempty : pointedText whole part ≠ "" := by
    rw [Ne, ← String.toList_eq_nil_iff, toList_pointedText]
    exact List.append_ne_nil_of_left_ne_nil hpointed.whole_ne_nil _
  have hplus : (pointedText whole part).toList.head? ≠ some '+' := fun hplus ↦
    absurd (hcharacters '+' (List.mem_of_mem_head? hplus)) (by decide)
  obtain ⟨hword, hboolean⟩ := not_word_of_numberCharacters hempty hcharacters
  obtain ⟨hzero, hwhole⟩ := wholeNumber?_of_numberForm false hform
  rw [← htext] at hzero hwhole
  have hfloat : float? (pointedText whole part) =
      (some (pointedNumber whole part)).filter isFinite := by
    rw [float?_eq_filter hplus (ne_special_of_numberCharacters hcharacters), toList_pointedText,
      ofDecimal?_pointed hpointed]
  simp only [plainMeaning, hword, hboolean, hwhole, hzero, hfloat, Bool.false_eq_true, if_false,
    Option.bind_none, Option.filter_some]
  cases (pointedNumber whole part).isFinite <;> rfl

end Yaml

end Roster
