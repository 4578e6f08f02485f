import Roster.Lists.Grouping
import Roster.Yaml.Decoder
import Roster.Yaml.Writer

/-!
# List definitions

A list definition is a document that names lists of tests, the profiles, in two ways: explicitly, or
as the union of other profiles. Beside them it holds what concerns all profiles: groupings of tests
that have to run together, tests left out of regression runs, the recorded durations of tests, and
the tests that need an install of an earlier release.

`ListDefinition.ofYaml` reads a definition and `ListDefinition.toYaml` writes one.
-/

set_option autoImplicit false
set_option relaxedAutoImplicit false

namespace Roster

open Yaml

/-- What concerns all profiles. -/
structure ListMetadata where
  /-- The groupings, in the order in which they apply. -/
  groupings : List Grouping
  /-- Profiles and tests left out of regression runs. -/
  excluded : List String
  /-- The seconds that tests took when they last ran. -/
  durations : Table Binary64
  /-- The tests that need an install of an earlier release. -/
  installOverrides : List String
deriving Inhabited

/-- A list definition as it is written. -/
structure ListDefinition where
  /-- The explicit profiles; one may be declared without a list. -/
  explicitProfiles : Table (Option (List String))
  /-- The profiles that unite others. -/
  unions : Table (List String)
  /-- What concerns all profiles. -/
  metadata : ListMetadata
deriving Inhabited

/-- Metadata that say nothing. -/
def ListMetadata.empty : ListMetadata := ⟨[], [], ∅, []⟩

/-- A definition without profiles. -/
def ListDefinition.empty : ListDefinition := ⟨∅, ∅, .empty⟩

namespace ListDefinition

/-- Reads a list of texts. -/
def decodeTexts : Decoder (List String) :=
  Decoder.list Decoder.text

/-- Reads a list of texts that may be left blank. -/
def decodeTextsOrNone : Decoder (List String) :=
  Decoder.orDefault [] decodeTexts

/-- Reads a grouping: a mapping of the primary test to the others. -/
def decodeGrouping : Decoder Grouping := fun depth node ↦ do
  let found ← Decoder.table decodeTexts depth node
  match found.entries with
  | [(primary, dependents)] => return ⟨primary, dependents⟩
  | entries => throw (.groupingKeys entries.length)

/-- Reads the tests that need an earlier install. -/
def decodeOverrides : Decoder (List String) :=
  Decoder.record []
    [("tests", Decoder.field decodeTextsOrNone fun tests _ ↦ tests)] fun _ ↦ Decoder.ignored

/-- Reads what concerns all profiles. -/
def decodeMetadata : Decoder ListMetadata :=
  Decoder.record .empty
    [("groupings", Decoder.field (Decoder.orDefault [] (Decoder.list decodeGrouping))
        fun groupings metadata ↦ { metadata with groupings := groupings }),
      ("exclude_from_regression", Decoder.field decodeTextsOrNone
        fun excluded metadata ↦ { metadata with excluded := excluded }),
      ("recorded_durations", Decoder.field (Decoder.orDefault ∅ (Decoder.table Decoder.float))
        fun durations metadata ↦ { metadata with durations := durations }),
      ("install_tag_override", Decoder.field (Decoder.orDefault [] decodeOverrides)
        fun tests metadata ↦ { metadata with installOverrides := tests })]
    fun _ ↦ Decoder.ignored

/-- Reads a list definition. Fields that are not known are passed over. -/
def decode : Decoder ListDefinition :=
  Decoder.record .empty
    [("testprofiles", Decoder.field
        (Decoder.orDefault ∅ (Decoder.table (Decoder.optional decodeTexts)))
        fun profiles definition ↦ { definition with explicitProfiles := profiles }),
      ("macro-profiles", Decoder.field (Decoder.orDefault ∅ (Decoder.table decodeTexts))
        fun unions definition ↦ { definition with unions := unions }),
      ("metadata", Decoder.field (Decoder.orDefault .empty decodeMetadata)
        fun metadata definition ↦ { definition with metadata := metadata })]
    fun _ ↦ Decoder.ignored

/-- The list definition that a text holds. -/
def ofYaml (text : String) : Except ReadError ListDefinition :=
  decodeText decode text

/-- The node that a grouping is written as. -/
def groupingNode (grouping : Grouping) : Node :=
  .ofEntries [(grouping.primary, .ofTexts grouping.dependents)]

/-- The node that the metadata are written as. -/
def metadataNode (metadata : ListMetadata) : Node :=
  .ofEntries
    [("groupings", .sequence none (metadata.groupings.map groupingNode)),
      ("exclude_from_regression", .ofTexts metadata.excluded),
      ("recorded_durations", .ofEntries (metadata.durations.map .ofFloat).entries),
      ("install_tag_override", .ofEntries [("tests", .ofTexts metadata.installOverrides)])]

/-- The node that an explicit profile is written as. -/
def explicitNode : Option (List String) → Node
  | some tests => .ofTexts tests
  | none => .scalar none .plain "null"

/-- The node that a list definition is written as. -/
def toNode (definition : ListDefinition) : Node :=
  .ofEntries
    [("testprofiles", .ofEntries (definition.explicitProfiles.map explicitNode).entries),
      ("macro-profiles", .ofEntries (definition.unions.map .ofTexts).entries),
      ("metadata", metadataNode definition.metadata)]

/-- The text that a list definition is written as. -/
def toYaml (definition : ListDefinition) : String :=
  definition.toNode.render

end ListDefinition

end Roster
