import Roster.Lists.Definition
import Roster.Proofs.Yaml.WrittenRecords
import Roster.Proofs.Yaml.WrittenValues

/-!
# List definitions survive being written

The only thing in a list definition that a text might not stand for is a recorded duration. If the
durations are numbers that were read (`ListDefinition.IsReadable`), the definition written as a tree
and read again is the same one (`ListDefinition.IsReadable.decode_written`): a profile without a
list stays apart from one with an empty list, and each grouping is again the one entry of a table.
-/

set_option autoImplicit false
set_option relaxedAutoImplicit false

namespace Roster.ListDefinition

open Yaml

variable {depth : ℕ} {node : Node}

/-! ### Definitions that were read -/

/-- A list definition as it may be read: a text stands for each duration. -/
def IsReadable (definition : ListDefinition) : Prop :=
  ∀ entry ∈ definition.metadata.durations.entries, entry.2.HasText

/-- A number that was read has a text. -/
theorem hasText_of_float {number : Binary64}
    (hreturns : Returns (Decoder.float depth node) number) :
    number.HasText := by
  obtain ⟨target, -, hrest⟩ := hreturns.of_bind
  cases target with
  | scalar tag style text =>
    dsimp only at hrest
    split at hrest
    · split at hrest
      · next found hfound =>
        obtain rfl := returns_pure_iff.mp hrest
        exact Value.hasText_of_float? hfound
      · exact absurd hrest not_returns_throw
    · exact absurd hrest not_returns_throw
  | _ => exact absurd hrest not_returns_misfit

/-- A text stands for each duration that was read. -/
theorem hasText_of_decodeMetadata {metadata : ListMetadata}
    (hreturns : Returns (decodeMetadata (depth + 2) node) metadata) :
    ∀ entry ∈ metadata.durations.entries, entry.2.HasText := by
  refine Decoder.of_returns_record (fun state : ListMetadata ↦
      ∀ entry ∈ state.durations.entries, entry.2.HasText) hreturns
    (fun _ hmem ↦ absurd hmem List.not_mem_nil) ?_ ?_
  · simp only [List.forall_mem_cons, List.not_mem_nil, false_implies, implies_true, and_true]
    refine ⟨?groupings, ?excluded, ?durations, ?overrides⟩ <;>
      intro source change hchange state hstate <;> obtain ⟨found, hfound, rfl⟩ := hchange.of_map
    case durations =>
      intro entry hmem
      rcases Decoder.of_returns_orDefault hfound with rfl | ⟨source, hsource⟩
      · cases hmem
      · obtain ⟨items, rfl, hitems⟩ := Decoder.of_returns_table hsource
        obtain ⟨source, hsource⟩ := hitems entry (Table.mem_of_mem_ofList hmem)
        exact hasText_of_float hsource
    all_goals exact hstate
  · intro name _ source change hchange state hstate
    rwa [Decoder.of_returns_ignored hchange]

/-- A list definition that was read may be read. -/
theorem isReadable_of_decode {definition : ListDefinition}
    (hreturns : Returns (decode (depth + 3) node) definition) : IsReadable definition := by
  refine Decoder.of_returns_record IsReadable hreturns
    (fun _ hmem ↦ absurd hmem List.not_mem_nil) ?_ ?_
  · simp only [List.forall_mem_cons, List.not_mem_nil, false_implies, implies_true, and_true]
    refine ⟨?explicit, ?unions, ?metadata⟩ <;> intro source change hchange state hstate <;>
      obtain ⟨found, hfound, rfl⟩ := hchange.of_map
    case metadata =>
      rcases Decoder.of_returns_orDefault hfound with rfl | ⟨source, hsource⟩
      · exact fun _ hmem ↦ absurd hmem List.not_mem_nil
      · exact hasText_of_decodeMetadata hsource
    all_goals exact hstate
  · intro name _ source change hchange state hstate
    rwa [Decoder.of_returns_ignored hchange]

/-! ### Definitions that are written -/

theorem decodeTexts_written (inKey : Bool) (texts : List String) :
    decodeTexts (depth + 1) ((Node.ofTexts texts).written inKey) = pure texts :=
  Decoder.list_written_ofTexts inKey texts

theorem decodeTextsOrNone_written (inKey : Bool) (texts : List String) :
    decodeTextsOrNone (depth + 1) ((Node.ofTexts texts).written inKey) = pure texts :=
  Decoder.orDefault_of_present .sequence (decodeTexts_written inKey texts)

/-- An explicit profile is read if it is written, also one without a list. -/
theorem optional_written_explicitNode (inKey : Bool) (tests : Option (List String)) :
    Decoder.optional decodeTexts (depth + 1) ((explicitNode tests).written inKey) = pure tests := by
  cases tests with
  | none =>
    rw [explicitNode, Value.harmless_words.1.written]
    rfl
  | some tests => exact Decoder.optional_of_present .sequence (decodeTexts_written inKey tests)

/-- A grouping is read if it is written: the table has the one entry again. -/
theorem decodeGrouping_written (inKey : Bool) (grouping : Grouping) :
    decodeGrouping (depth + 2) ((groupingNode grouping).written inKey) = pure grouping := by
  obtain ⟨primary, dependents⟩ := grouping
  have htable : Decoder.table decodeTexts (depth + 2)
      ((Node.ofEntries [(primary, Node.ofTexts dependents)]).written inKey) =
        pure (Table.ofList [(primary, dependents)]) :=
    Decoder.table_mapping none (.cons ⟨Decoder.text_written_ofText _ primary,
      decodeTexts_written false dependents⟩ .nil)
  exact Decoder.bind_of_eq_pure htable _

/-- The tests that need an earlier install are read if they are written. -/
theorem decodeOverrides_written (inKey : Bool) (tests : List String) :
    decodeOverrides (depth + 2)
      ((Node.ofEntries [("tests", Node.ofTexts tests)]).written inKey) = pure tests := by
  rw [decodeOverrides]
  refine Eq.trans (Decoder.record_written inKey (.cons (by
    exact Decoder.field_of_eq_pure _ (decodeTextsOrNone_written false tests)) .nil) ?_) ?_
  · exact List.nodup_singleton _
  · rfl

/-- A duration is read if it is written. -/
theorem float_written {number : Binary64} (inKey : Bool) (htext : number.HasText) :
    Decoder.float depth ((Node.ofFloat number).written inKey) = pure number := by
  have hwritten : (Node.ofFloat number).written inKey = .scalar none .plain number.render :=
    (harmless_render htext).written inKey
  simp [hwritten, Decoder.float, float?_render htext]

/-- What concerns all profiles is read if it is written. -/
theorem decodeMetadata_written {metadata : ListMetadata} (inKey : Bool)
    (hdurations : ∀ entry ∈ metadata.durations.entries, entry.2.HasText) :
    decodeMetadata (depth + 4) ((metadataNode metadata).written inKey) = pure metadata := by
  obtain ⟨groupings, excluded, durations, overrides⟩ := metadata
  have hgroupings : Decoder.orDefault [] (Decoder.list decodeGrouping) (depth + 3)
      ((Node.sequence none (groupings.map groupingNode)).written false) = pure groupings := by
    refine Decoder.orDefault_of_present .sequence ?_
    rw [Node.written, Node.writtenItems_eq_map, List.map_map]
    exact Decoder.list_sequence none (List.forall₂_map_left_iff.mpr
      (List.forall₂_same.mpr fun grouping _ ↦ decodeGrouping_written false grouping))
  have hexcluded : decodeTextsOrNone (depth + 3)
      ((Node.ofTexts excluded).written false) = pure excluded :=
    decodeTextsOrNone_written false excluded
  have hdurations : Decoder.orDefault ∅ (Decoder.table Decoder.float) (depth + 3)
      ((Node.ofEntries (durations.map .ofFloat).entries).written false) = pure durations :=
    Decoder.orDefault_of_present .mapping (Decoder.table_written false durations
      fun entry hmem ↦ float_written false (hdurations entry hmem))
  have hoverrides : Decoder.orDefault [] decodeOverrides (depth + 3)
      ((Node.ofEntries [("tests", Node.ofTexts overrides)]).written false) = pure overrides :=
    Decoder.orDefault_of_present .mapping (decodeOverrides_written false overrides)
  rw [decodeMetadata]
  refine Eq.trans (Decoder.record_written inKey
    (.cons (by exact Decoder.field_of_eq_pure _ hgroupings)
      (.cons (by exact Decoder.field_of_eq_pure _ hexcluded)
        (.cons (by exact Decoder.field_of_eq_pure _ hdurations)
          (.cons (by exact Decoder.field_of_eq_pure _ hoverrides) .nil)))) ?_) ?_
  · change ["groupings", "exclude_from_regression", "recorded_durations",
      "install_tag_override"].Nodup
    decide
  · rfl

/-- A list definition that may be read is read if it is written. -/
theorem IsReadable.decode_written {definition : ListDefinition}
    (hreadable : definition.IsReadable) (inKey : Bool) :
    decode (depth + 5) (definition.toNode.written inKey) = pure definition := by
  obtain ⟨explicitProfiles, unions, metadata⟩ := definition
  have hexplicit : Decoder.orDefault ∅ (Decoder.table (Decoder.optional decodeTexts)) (depth + 4)
      ((Node.ofEntries (explicitProfiles.map explicitNode).entries).written false) =
        pure explicitProfiles :=
    Decoder.orDefault_of_present .mapping (Decoder.table_written false explicitProfiles
      fun entry _ ↦ optional_written_explicitNode false entry.2)
  have hunions : Decoder.orDefault ∅ (Decoder.table decodeTexts) (depth + 4)
      ((Node.ofEntries (unions.map .ofTexts).entries).written false) = pure unions :=
    Decoder.orDefault_of_present .mapping (Decoder.table_written false unions
      fun entry _ ↦ decodeTexts_written false entry.2)
  have hmetadata : Decoder.orDefault .empty decodeMetadata (depth + 4)
      ((metadataNode metadata).written false) = pure metadata :=
    Decoder.orDefault_of_present .mapping (decodeMetadata_written false hreadable)
  rw [decode]
  refine Eq.trans (Decoder.record_written inKey
    (.cons (by exact Decoder.field_of_eq_pure _ hexplicit)
      (.cons (by exact Decoder.field_of_eq_pure _ hunions)
        (.cons (by exact Decoder.field_of_eq_pure _ hmetadata) .nil))) ?_) ?_
  · change ["testprofiles", "macro-profiles", "metadata"].Nodup
    decide
  · rfl

/-- A list definition that may be read can be written. -/
theorem IsReadable.writable {definition : ListDefinition} (hreadable : definition.IsReadable) :
    definition.toNode.Writable := by
  have htable {Item : Type} {items : Table Item} {toNode : Item → Node}
      (hitems : ∀ entry ∈ items.entries, (toNode entry.2).Writable) :
      (Node.ofEntries (items.map toNode).entries).Writable := by
    refine .ofEntries fun entry hmem ↦ ?_
    obtain ⟨source, hsource, rfl⟩ := List.mem_map.mp hmem
    exact hitems source hsource
  have hexplicit (tests : Option (List String)) : (explicitNode tests).Writable := by
    cases tests with
    | none => exact Value.harmless_words.1.writable
    | some tests => exact Node.writable_ofTexts tests
  have hgrouping (grouping : Grouping) : (groupingNode grouping).Writable :=
    .ofEntries (List.forall_mem_singleton.mpr (Node.writable_ofTexts grouping.dependents))
  have hmetadata : (metadataNode definition.metadata).Writable := by
    refine .ofEntries ?_
    simp only [List.forall_mem_cons, List.not_mem_nil, false_implies, implies_true, and_true]
    refine ⟨.sequence fun item hmem ↦ ?_, Node.writable_ofTexts _, htable fun entry hmem ↦
      (harmless_render (hreadable entry hmem)).writable,
      .ofEntries (List.forall_mem_singleton.mpr (Node.writable_ofTexts _))⟩
    obtain ⟨grouping, -, rfl⟩ := List.mem_map.mp hmem
    exact hgrouping grouping
  refine .ofEntries ?_
  simp only [List.forall_mem_cons, List.not_mem_nil, false_implies, implies_true, and_true]
  exact ⟨htable fun entry _ ↦ hexplicit entry.2, htable fun entry _ ↦ Node.writable_ofTexts entry.2,
    hmetadata⟩

end Roster.ListDefinition
