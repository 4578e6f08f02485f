import Roster.Proofs.Lists.WrittenDefinitions
import Roster.Proofs.Plan.WrittenPlans
import Roster.Proofs.Yaml.ScannedTrees

/-!
# Documents survive being written

A plan or a list definition that was read from some text is the same again when it is written and
the new text is read.
-/

set_option autoImplicit false
set_option relaxedAutoImplicit false

namespace Roster

open Yaml

variable {Result : Type} {decoder : Decoder Result} {text : String} {result : Result}

/-- The data of a text were read from its root. -/
theorem returns_of_decodeText (hread : decodeText decoder text = .ok result) :
    Returns (decoder 128 (Document.ofText text.toList).root) result := by
  rw [decodeText] at hread
  split at hread
  · cases hread
  · next found jumps hrun =>
    split at hread
    · cases hread
      exact ⟨_, _, _, hrun⟩
    all_goals cases hread

/-- The data of a text are what its root gives, if the text holds nothing else. -/
theorem decodeText_eq_ok {node : Node}
    (hdocument : Document.ofText text.toList = ⟨node, .nothing⟩)
    (hread : decoder 128 node = pure result) : decodeText decoder text = .ok result := by
  simp only [decodeText, hdocument, hread]
  rfl

/-- The node of a document is the one that its text holds. -/
theorem ofText_render_ofEntries {entries : List (String × Node)} (hsome : entries ≠ [])
    (hwritable : (Node.ofEntries entries).Writable) :
    Document.ofText (Node.ofEntries entries).render.toList =
      ⟨(Node.ofEntries entries).written false, .nothing⟩ :=
  Document.ofText_render hwritable (by simpa using hsome)

/-- A text is read as a document that is read from its own text, if what is read of the text is
written in the same way and is read again. -/
theorem eq_ok_of_written {Document : Type} {read : String → Except ReadError Document}
    {write : Document → String} {document : Document} {written : String}
    (hshown : (read text).toOption.map write = some written)
    (hagain : ∀ other, read text = .ok other → read (write other) = .ok other)
    (hdocument : read (write document) = .ok document) (hwritten : write document = written) :
    read text = .ok document := by
  obtain ⟨other, hread, hsame⟩ := exists_eq_ok_of_toOption hshown
  have hother := hagain other hread
  rw [hsame, ← hwritten, hdocument] at hother
  rw [hread, Except.ok.inj hother]

namespace PlanDocument

variable {document : PlanDocument}

theorem isReadable_of_ofYaml (hread : ofYaml text = .ok document) : IsReadable 125 document :=
  isReadable_of_decode (returns_of_decodeText hread)

/-- A plan that may be read is read from the text that it is written as. -/
theorem IsReadable.ofYaml_toYaml (hreadable : IsReadable 125 document) :
    ofYaml document.toYaml = .ok document :=
  decodeText_eq_ok (ofText_render_ofEntries (by simp) hreadable.writable)
    (hreadable.decode_written false)

end PlanDocument

namespace ListDefinition

variable {definition : ListDefinition}

theorem isReadable_of_ofYaml (hread : ofYaml text = .ok definition) : definition.IsReadable :=
  isReadable_of_decode (returns_of_decodeText hread)

/-- A list definition that may be read is read from the text that it is written as. -/
theorem IsReadable.ofYaml_toYaml (hreadable : definition.IsReadable) :
    ofYaml definition.toYaml = .ok definition := by
  have hwritten : decode 128 (definition.toNode.written false) = pure definition :=
    hreadable.decode_written false
  exact decodeText_eq_ok (ofText_render_ofEntries (by simp) hreadable.writable) hwritten

end ListDefinition

/-- Plans and list definitions that were read from a text are read again from the text that they are
written as. -/
theorem written_documents_are_read (text : String) :
    (∀ document, PlanDocument.ofYaml text = .ok document →
      PlanDocument.ofYaml document.toYaml = .ok document) ∧
    ∀ definition, ListDefinition.ofYaml text = .ok definition →
      ListDefinition.ofYaml definition.toYaml = .ok definition := by
  constructor
  · intro document hread
    exact (PlanDocument.isReadable_of_ofYaml hread).ofYaml_toYaml
  · intro definition hread
    exact (ListDefinition.isReadable_of_ofYaml hread).ofYaml_toYaml

/-! ### Two documents -/

/-- A plan with a number as its version and a test case that has nothing but a name. -/
def samplePlanText : String :=
  "meta:\n  include: [a]\n  upgrade-from-version: 2.30\n  note: [1, ~, .inf]\n" ++
  "testcases:\n  one:\n  two:\n    testcase: b.c\n    weight: 0.1\n"

/-- The plan of this text. -/
def samplePlan : PlanDocument where
  testcases := .ofList
    [("one", .empty), ("two", ⟨some "b.c", .ofList [("weight", .float ⟨0x3fb999999999999a⟩)]⟩)]
  planMeta :=
    ⟨["a"], some "2.3", .ofList [("note", .sequence [.integer 1, .null, .float (.infinity false)])]⟩

/-- The text that the plan is written as. -/
def writtenPlanText : String :=
  "testcases:\n  one: \x7b\x7d\n  two:\n    testcase: b.c\n    weight: 0.1\n" ++
  "meta:\n  include:\n  - a\n  upgrade-from-version: '2.3'\n  note:\n  - 1\n  - null\n  - .inf\n"

/-- A list definition with a profile that is null and one that is empty. -/
def sampleDefinitionText : String :=
  "testprofiles:\n  p: [a, b]\n  q: ~\n  r: []\nmacro-profiles:\n  m: [p]\n" ++
  "metadata:\n  groupings:\n    - a: [b]\n  recorded_durations:\n    a: 1.5\n" ++
  "  install_tag_override:\n    tests: [b]\n"

/-- The list definition of this text. -/
def sampleDefinition : ListDefinition where
  explicitProfiles := .ofList [("p", some ["a", "b"]), ("q", none), ("r", some [])]
  unions := .ofList [("m", ["p"])]
  metadata := ⟨[⟨"a", ["b"]⟩], [], .ofList [("a", ⟨0x3ff8000000000000⟩)], ["b"]⟩

/-- The text that the list definition is written as. -/
def writtenDefinitionText : String :=
  "testprofiles:\n  p:\n  - a\n  - b\n  q: null\n  r: []\nmacro-profiles:\n  m:\n  - p\n" ++
  "metadata:\n  groupings:\n  - a:\n    - b\n  exclude_from_regression: []\n" ++
  "  recorded_durations:\n    a: 1.5\n  install_tag_override:\n    tests:\n    - b\n"

theorem isReadable_samplePlan : PlanDocument.IsReadable 125 samplePlan where
  testcases := by
    have hnumber : Binary64.HasText ⟨0x3fb999999999999a⟩ := .inl (by decide)
    refine List.forall_mem_cons.mpr ⟨PlanDocument.isExtra_empty _ _, ?_⟩
    refine List.forall_mem_singleton.mpr ⟨?_, List.forall_mem_singleton.mpr rfl⟩
    exact List.forall_mem_singleton.mpr ⟨by decide, .float hnumber⟩
  planMeta := by
    have hnumber : (Binary64.infinity false).HasText := .inl (by decide)
    have hitems : ∀ item ∈ ([.integer 1, .null, .float (.infinity false)] : List Value),
        item.Fits 125 := by
      rw [List.forall_mem_cons, List.forall_mem_cons, List.forall_mem_singleton]
      exact ⟨.integer (by decide), .null, .float hnumber⟩
    refine ⟨?_, List.forall_mem_singleton.mpr rfl⟩
    exact List.forall_mem_singleton.mpr ⟨by decide, .sequence hitems⟩

theorem isReadable_sampleDefinition : sampleDefinition.IsReadable := by
  have hnumber : Binary64.HasText ⟨0x3ff8000000000000⟩ := .inl (by decide)
  exact List.forall_mem_singleton.mpr hnumber

/-- The text is read as the plan, since what is read of it is written as the plan is. -/
theorem ofYaml_samplePlanText :
    PlanDocument.ofYaml samplePlanText = .ok samplePlan ∧ samplePlan.toYaml = writtenPlanText := by
  have hwritten : samplePlan.toYaml = writtenPlanText := by decide +kernel
  have hshown : (PlanDocument.ofYaml samplePlanText).toOption.map PlanDocument.toYaml =
      some writtenPlanText := by
    decide +kernel
  have hagain : ∀ document, PlanDocument.ofYaml samplePlanText = .ok document →
      PlanDocument.ofYaml document.toYaml = .ok document := fun _ hread ↦
    (PlanDocument.isReadable_of_ofYaml hread).ofYaml_toYaml
  exact ⟨eq_ok_of_written hshown hagain isReadable_samplePlan.ofYaml_toYaml hwritten, hwritten⟩

theorem ofYaml_sampleDefinitionText :
    ListDefinition.ofYaml sampleDefinitionText = .ok sampleDefinition ∧
      sampleDefinition.toYaml = writtenDefinitionText := by
  have hwritten : sampleDefinition.toYaml = writtenDefinitionText := by decide +kernel
  have hshown : (ListDefinition.ofYaml sampleDefinitionText).toOption.map ListDefinition.toYaml =
      some writtenDefinitionText := by
    decide +kernel
  have hagain : ∀ definition, ListDefinition.ofYaml sampleDefinitionText = .ok definition →
      ListDefinition.ofYaml definition.toYaml = .ok definition := fun _ hread ↦
    (ListDefinition.isReadable_of_ofYaml hread).ofYaml_toYaml
  exact ⟨eq_ok_of_written hshown hagain isReadable_sampleDefinition.ofYaml_toYaml hwritten, hwritten⟩

/-- The plan and the list definition are read from their texts, and once more from those that they
are written as. -/
theorem written_samples_are_read :
    (PlanDocument.ofYaml samplePlanText = .ok samplePlan ∧
      samplePlan.toYaml = writtenPlanText ∧
      PlanDocument.ofYaml writtenPlanText = .ok samplePlan) ∧
    ListDefinition.ofYaml sampleDefinitionText = .ok sampleDefinition ∧
      sampleDefinition.toYaml = writtenDefinitionText ∧
      ListDefinition.ofYaml writtenDefinitionText = .ok sampleDefinition := by
  obtain ⟨hplan, hplanText⟩ := ofYaml_samplePlanText
  obtain ⟨hdefinition, hdefinitionText⟩ := ofYaml_sampleDefinitionText
  have hplanAgain := (written_documents_are_read samplePlanText).1 _ hplan
  have hdefinitionAgain := (written_documents_are_read sampleDefinitionText).2 _ hdefinition
  rw [hplanText] at hplanAgain
  rw [hdefinitionText] at hdefinitionAgain
  exact ⟨⟨hplan, hplanText, hplanAgain⟩, hdefinition, hdefinitionText, hdefinitionAgain⟩

end Roster
