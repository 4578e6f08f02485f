import Roster.Yaml.Decoder
import Roster.Yaml.Writer

/-!
# Plan documents

A plan is a document with test cases by name and, beside them, what concerns the plan as a whole:
the plans that it includes and the release that its upgrade tests start from. A test case may refer
to the test that implements it. Test cases and plans may carry any other fields as well.

`PlanDocument.ofYaml` reads a document and `PlanDocument.toYaml` writes one.
-/

set_option autoImplicit false
set_option relaxedAutoImplicit false

namespace Roster

open Yaml

/-- An entry of a plan. -/
structure Testcase where
  /-- The full name of the test that implements the entry. -/
  reference : Option String
  /-- All other fields. -/
  extra : Table Value
deriving Inhabited

/-- What concerns a plan as a whole. -/
structure PlanMeta where
  /-- The plans merged into this one, in order. -/
  includes : List String
  /-- The release that the upgrade tests of the plan start from. -/
  upgradeFrom : Option String
  /-- All other fields. -/
  extra : Table Value
deriving Inhabited

/-- A plan as it is written. -/
structure PlanDocument where
  /-- The entries by name. -/
  testcases : Table Testcase
  /-- What concerns the plan as a whole. -/
  planMeta : PlanMeta
deriving Inhabited

/-- A test case that says nothing. -/
def Testcase.empty : Testcase := ⟨none, ∅⟩

/-- A plan as a whole that says nothing. -/
def PlanMeta.empty : PlanMeta := ⟨[], none, ∅⟩

/-- A plan without entries. -/
def PlanDocument.empty : PlanDocument := ⟨∅, .empty⟩

namespace PlanDocument

/-- Fields read so far: those of a record, and its other fields in the order in which they stand. -/
structure Fields (Known : Type) where
  /-- The known fields. -/
  known : Known
  /-- The other fields, the last one first. -/
  others : List (String × Value)

/-- Reads a field that is not known. -/
def otherField {Known : Type} (name : String) : Decoder (Fields Known → Fields Known) :=
  Decoder.field Decoder.untaggedValue fun value fields ↦
    { fields with others := (name, value) :: fields.others }

/-- The other fields as a table. Free-form mappings with a key twice are refused here. -/
def otherFields {Known : Type} (fields : Fields Known) : Reading (Table Value) := do
  let entries ← fields.others.reverse.mapM fun entry ↦ do
    return (entry.1, ← Decoder.distinct entry.2)
  return Table.ofList entries

/-- Reads the fields of a test case. -/
def decodeTestcaseFields : Decoder Testcase := fun depth node ↦ do
  let fields ← Decoder.record (⟨none, []⟩ : Fields (Option String))
    [("testcase", Decoder.field (Decoder.optional Decoder.text) fun reference fields ↦
      { fields with known := reference })]
    otherField depth node
  return ⟨fields.known, ← otherFields fields⟩

/-- Reads a test case, of which nothing needs to be written. -/
def decodeTestcase : Decoder Testcase :=
  Decoder.orDefault .empty decodeTestcaseFields

/-- Reads what concerns a plan as a whole. -/
def decodeMeta : Decoder PlanMeta := fun depth node ↦ do
  let fields ← Decoder.record (⟨([], none), []⟩ : Fields (List String × Option String))
    [("include", Decoder.field (Decoder.orDefault [] (Decoder.list Decoder.text))
        fun includes fields ↦ { fields with known := (includes, fields.known.2) }),
      ("upgrade-from-version", Decoder.field Decoder.scalarText fun version fields ↦
        { fields with known := (fields.known.1, version) })]
    otherField depth node
  return ⟨fields.known.1, fields.known.2, ← otherFields fields⟩

/-- Reads a plan. Fields of the plan that are not known are passed over. -/
def decode : Decoder PlanDocument :=
  Decoder.record .empty
    [("testcases", Decoder.field (Decoder.orDefault ∅ (Decoder.table decodeTestcase))
        fun testcases document ↦ { document with testcases := testcases }),
      ("meta", Decoder.field (Decoder.orDefault .empty decodeMeta)
        fun planMeta document ↦ { document with planMeta := planMeta })]
    fun _ ↦ Decoder.ignored

/-- The plan that a text holds. -/
def ofYaml (text : String) : Except ReadError PlanDocument :=
  decodeText decode text

/-- The other fields as they are written. -/
def extraEntries (extra : Table Value) : List (String × Node) :=
  extra.entries.map fun entry ↦ (entry.1, entry.2.toNode)

/-- A field that is written only when there is something in it. -/
def presentEntry (name : String) (node : Option Node) : List (String × Node) :=
  node.toList.map fun node ↦ (name, node)

/-- The node that a test case is written as. -/
def testcaseNode (testcase : Testcase) : Node :=
  .ofEntries (presentEntry "testcase" (testcase.reference.map .ofText) ++
    extraEntries testcase.extra)

/-- The node that what concerns a plan as a whole is written as. -/
def metaNode (planMeta : PlanMeta) : Node :=
  .ofEntries
    (presentEntry "include"
        (if planMeta.includes.isEmpty then none else some (.ofTexts planMeta.includes)) ++
      presentEntry "upgrade-from-version" (planMeta.upgradeFrom.map .ofText) ++
      extraEntries planMeta.extra)

/-- The node that a plan is written as. -/
def toNode (document : PlanDocument) : Node :=
  .ofEntries
    [("testcases", .ofEntries (document.testcases.map testcaseNode).entries),
      ("meta", metaNode document.planMeta)]

/-- The text that a plan is written as. -/
def toYaml (document : PlanDocument) : String :=
  document.toNode.render

end PlanDocument

end Roster
