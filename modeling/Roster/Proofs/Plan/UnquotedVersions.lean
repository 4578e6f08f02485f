import Roster.Proofs.Binary64.PointedTexts
import Roster.Proofs.WrittenDocuments

/-!
# Versions without quotes

A version with a point in it is a floating-point number unless it is quoted. Of the number only its
value is kept, so what is read is the text that the number is written as (`keptText`). It means the
same number, but it is the text itself only if that has the form of a number: a version `2.10` is
read as `2.1`. Up to fifteen digits the form decides (`keptText_eq_iff`).

For plans this is `PlanDocument.ofYaml_version`: a plan that was read, written again with another
version, is read with that version if it is quoted, and with its `keptText` if it is not.
-/

set_option autoImplicit false
set_option relaxedAutoImplicit false

namespace Roster

open Binary64 Yaml

namespace Yaml

variable {whole part : List Char}

/-! ### What is kept of a text with a point -/

/-- What is read where a text with a point stands without quotes. -/
def keptText (whole part : List Char) : String :=
  if (pointedNumber whole part).isFinite then (pointedNumber whole part).render
  else pointedText whole part

/-- What is kept means the same as the text. -/
theorem plainMeaning_keptText (hpointed : IsPointed whole part) :
    plainMeaning (keptText whole part) = plainMeaning (pointedText whole part) := by
  rw [keptText]
  split
  case isTrue hfinite =>
    rw [plainMeaning_render (.inl (isNotANumber_of_isFinite hfinite)),
      plainMeaning_pointed hpointed, if_pos hfinite]
  case isFalse => rfl

/-- A text that is kept has the form of a number, or it is too big to be one. -/
theorem isCanonical_of_keptText (hpointed : IsPointed whole part)
    (hkept : keptText whole part = pointedText whole part) :
    IsCanonical whole part ∨ plainMeaning (pointedText whole part) = .text := by
  rw [plainMeaning_pointed hpointed]
  rw [keptText] at hkept
  split at hkept
  case isTrue hfinite => exact .inl (isCanonical_of_render hpointed hfinite hkept)
  case isFalse hinfinite => exact .inr (if_neg hinfinite)

/-- A text of at most fifteen digits is kept if and only if it has the form of a number. -/
theorem keptText_eq_iff (hpointed : IsPointed whole part) (hfew : (whole ++ part).length ≤ 15) :
    keptText whole part = pointedText whole part ↔ IsCanonical whole part := by
  have hfinite := isFinite_of_short hpointed hfew
  rw [keptText, if_pos hfinite]
  exact ⟨isCanonical_of_render hpointed hfinite,
    fun hcanonical ↦ render_of_isCanonical hpointed hcanonical hfew⟩

/-! ### Scalars -/

/-- A text with a point is written without quotes if none are asked for. -/
theorem harmless_pointed (hpointed : IsPointed whole part) :
    Harmless (pointedText whole part) := by
  have htext : (pointedText whole part).toList = signText false ++ (whole ++ '.' :: part) :=
    toList_pointedText
  exact harmless_of_numberForm htext hpointed.numberForm

/-- Of a text with a point and without quotes its `keptText` is read. -/
theorem scalarText_pointed (hpointed : IsPointed whole part) (depth : ℕ) :
    Decoder.scalarText depth (.scalar none .plain (pointedText whole part)) =
      pure (some (keptText whole part)) := by
  have hmeaning := plainMeaning_pointed hpointed
  have hvalue : Decoder.value depth (.scalar none .plain (pointedText whole part)) =
      Decoder.plainValue (pointedText whole part) := Value.value_scalar depth .plain _
  rw [Decoder.plainValue, hmeaning] at hvalue
  have hpresent : Decoder.Present (.scalar none .plain (pointedText whole part)) := by
    refine .scalar fun _ ↦ ?_
    rw [hmeaning]
    split <;> exact PlainMeaning.noConfusion
  rw [keptText]
  split
  case isTrue hfinite =>
    rw [if_pos hfinite] at hvalue
    exact Decoder.scalarText_of_float hpresent hvalue
  case isFalse hinfinite =>
    rw [if_neg hinfinite] at hvalue
    exact Decoder.scalarText_of_text hpresent hvalue

/-- A text in quotes is read as it is. -/
theorem scalarText_quoted {style : ScalarStyle} (hstyle : style ≠ .plain) (depth : ℕ)
    (text : String) :
    Decoder.scalarText depth (.scalar none style text) = pure (some text) := by
  refine Decoder.scalarText_of_text (.scalar fun hplain ↦ absurd hplain hstyle) ?_
  rw [Value.value_scalar, if_neg hstyle]

end Yaml

namespace PlanDocument

variable {whole part : List Char} {text : String} {document : PlanDocument}

/-! ### Plans -/

/-- A plan with another version. -/
def withVersion (document : PlanDocument) (version : String) : PlanDocument :=
  { document with planMeta := { document.planMeta with upgradeFrom := some version } }

/-- A plan that was read, written with a node for its version, is read with the version that the
node is read as. -/
theorem ofYaml_toNodeWith (hread : ofYaml text = .ok document) {node : Node}
    (hwritable : node.Writable) {version : String}
    (hversion : Decoder.scalarText 126 (node.written false) = pure (some version)) :
    ofYaml (document.toNodeWith (some node)).render = .ok (document.withVersion version) := by
  have hreadable : IsReadable 125 document := isReadable_of_ofYaml hread
  have hchanged : IsReadable 125 (document.withVersion version) :=
    ⟨hreadable.testcases, hreadable.planMeta⟩
  have hnode : (document.toNodeWith (some node)).Writable :=
    hreadable.writableWith fun found hfound ↦ Option.mem_some.mp hfound ▸ hwritable
  exact decodeText_eq_ok (ofText_render_ofEntries (by simp) hnode)
    (hchanged.decode_writtenWith false hversion)

/-- The node of a version with a point. -/
def versionNode (style : ScalarStyle) (whole part : List Char) : Node :=
  .scalar none style (pointedText whole part)

theorem writable_versionNode (hpointed : IsPointed whole part) (style : ScalarStyle) :
    (versionNode style whole part).Writable := by
  have hharmless := harmless_pointed hpointed
  refine .scalar (fun hempty ↦ ?_) fun hmem ↦ absurd (hharmless.characters '\n' hmem) (by decide)
  obtain ⟨mark, hmark, _⟩ := hharmless.start
  rw [hempty] at hmark
  simp at hmark

/-- A quoted version is read as it is. -/
theorem scalarText_versionNode {style : ScalarStyle} (hstyle : style ≠ .plain) (depth : ℕ)
    (whole part : List Char) :
    Decoder.scalarText depth ((versionNode style whole part).written false) =
      pure (some (pointedText whole part)) := by
  refine scalarText_quoted (fun hplain ↦ hstyle (eq_plain_of_writtenStyle ?_ hplain)) depth _
  rw [toList_pointedText]
  exact fun hempty ↦ absurd hempty (by simp)

/-- A plan that was read, written with a version with a point, is read with this version unless the
version is plain. Plain, without quotes, it is read with a version that means the same number. This
is another one if the version does not have the form of a number; up to fifteen digits it is another
one only then. -/
theorem ofYaml_version (hread : ofYaml text = .ok document) (hpointed : IsPointed whole part) :
    (∀ style ≠ .plain,
      ofYaml (document.toNodeWith (some (versionNode style whole part))).render =
        .ok (document.withVersion (pointedText whole part))) ∧
    ofYaml (document.toNodeWith (some (versionNode .plain whole part))).render =
      .ok (document.withVersion (keptText whole part)) ∧
    plainMeaning (keptText whole part) = plainMeaning (pointedText whole part) ∧
    (keptText whole part = pointedText whole part →
      IsCanonical whole part ∨ plainMeaning (pointedText whole part) = .text) ∧
    ((whole ++ part).length ≤ 15 →
      (keptText whole part = pointedText whole part ↔ IsCanonical whole part)) := by
  refine ⟨fun style hstyle ↦ ?_, ?_, plainMeaning_keptText hpointed,
    isCanonical_of_keptText hpointed, keptText_eq_iff hpointed⟩
  · exact ofYaml_toNodeWith hread (writable_versionNode hpointed style)
      (scalarText_versionNode hstyle 126 whole part)
  · refine ofYaml_toNodeWith hread (writable_versionNode hpointed .plain) ?_
    rw [versionNode, (harmless_pointed hpointed).written]
    exact scalarText_pointed hpointed 126

example : (empty.toNodeWith (some (versionNode .plain ['2'] ['5']))).render =
    "testcases: \x7b\x7d\nmeta:\n  upgrade-from-version: 2.5\n" := rfl

/-- A version that is kept, and one that is kept only in quotes. -/
theorem ofYaml_version_sample : ofYaml samplePlanText = .ok samplePlan ∧
    ofYaml (samplePlan.toNodeWith (some (versionNode .plain ['2'] ['5']))).render =
      .ok (samplePlan.withVersion "2.5") ∧
    ofYaml (samplePlan.toNodeWith (some (versionNode .doubleQuoted ['2'] ['1', '0']))).render =
      .ok (samplePlan.withVersion "2.10") ∧
    ofYaml (samplePlan.toNodeWith (some (versionNode .plain ['2'] ['1', '0']))).render =
      .ok (samplePlan.withVersion "2.1") := by
  obtain ⟨hread, _⟩ := ofYaml_samplePlanText
  have hshort : IsPointed ['2'] ['5'] := by decide
  have hlong : IsPointed ['2'] ['1', '0'] := by decide
  have hkept : keptText ['2'] ['1', '0'] = "2.1" := by decide +kernel
  obtain ⟨-, hplain, -, -, hiff⟩ := ofYaml_version hread hshort
  obtain ⟨hquoted, hplain', -, -, -⟩ := ofYaml_version hread hlong
  refine ⟨hread, ?_, hquoted .doubleQuoted (by decide), ?_⟩
  · rw [(hiff (by decide)).mpr (by decide)] at hplain
    exact hplain
  · rw [hkept] at hplain'
    exact hplain'

/-- Not every version without quotes is kept. -/
theorem not_forall_version_kept : ¬ ∀ whole part, IsPointed whole part →
    (ofYaml ("meta:\n  upgrade-from-version: " ++ pointedText whole part ++ "\n")).toOption.bind
      (fun document ↦ document.planMeta.upgradeFrom) = some (pointedText whole part) := by
  intro hall
  exact absurd (hall ['2'] ['1', '0'] (by decide)) (by decide +kernel)

end PlanDocument

end Roster
