import Roster.Proofs.File.ParentPaths
import Roster.Proofs.Lists.ResolutionPasses
import Roster.Proofs.Plan.IncludeGraph

/-!
# Profiles of plans that load

Let a plan load. Its tests are the merged entries that do not prepare or clean up a suite
(`LoadedPlan.IsTest`), and a test runs what the directory two levels above its declaring file is
called (`Testcase.Runs`). What can be missing is the reference, the declaration or the directory, in
this order (`Testcase.Faulty`).

The profile of the plan then lists what its tests run. It exists when each of them runs something,
and otherwise the least test by name that runs nothing decides the error. Other entries have no part
in it: two plan directories in which the plans that are reached differ in such entries only give the
same profile, or the same error (`PlanDirectory.deriveProfile_eq_of_sameTests`).
`PlanDirectory.deriveProfile_of_load` puts this together.
-/

set_option autoImplicit false
set_option relaxedAutoImplicit false

namespace Roster

open Relation

/-! ### The tests of a loaded plan -/

/-- The name of an entry that prepares or cleans up a suite. -/
def IsHookName (name : String) : Prop :=
  "BeforeSuite".toList <:+ name.toList ∨ "AfterSuite".toList <:+ name.toList

instance (name : String) : Decidable (IsHookName name) :=
  inferInstanceAs (Decidable (_ ∨ _))

theorem isHook_iff {name : String} : PlanDirectory.isHook name = true ↔ IsHookName name := by
  simp [PlanDirectory.isHook, PlanDirectory.hookEndings, IsHookName]

namespace LoadedPlan

/-- A merged entry of a plan that is a test. -/
structure IsTest (loaded : LoadedPlan) (name : String) (testcase : Testcase) : Prop where
  merged : loaded.testcases.get? name = some testcase
  named : ¬ IsHookName name

/-- The tests of a plan by name. -/
def tests (loaded : LoadedPlan) : List (String × Testcase) :=
  loaded.testcases.entries.filter fun entry ↦ !PlanDirectory.isHook entry.1

variable {loaded other : LoadedPlan} {name : String} {testcase : Testcase}

theorem mem_tests_iff : (name, testcase) ∈ loaded.tests ↔ loaded.IsTest name testcase := by
  rw [tests, List.mem_filter, Table.mem_entries_iff, Bool.not_eq_true', Bool.eq_false_iff, Ne,
    isHook_iff]
  exact ⟨fun ⟨hmerged, hnamed⟩ ↦ ⟨hmerged, hnamed⟩, fun ⟨hmerged, hnamed⟩ ↦ ⟨hmerged, hnamed⟩⟩

/-- The tests of a plan stand in the order of their names. -/
theorem pairwise_tests (loaded : LoadedPlan) :
    loaded.tests.Pairwise fun first second ↦ first.1 < second.1 :=
  (List.pairwise_map.mp loaded.testcases.ordered).filter _

/-- Plans with the same tests list them in the same way. -/
theorem tests_eq_of_isTest_iff
    (hsame : ∀ name testcase, loaded.IsTest name testcase ↔ other.IsTest name testcase) :
    loaded.tests = other.tests := by
  have hmem : ∀ entry, entry ∈ loaded.tests ↔ entry ∈ other.tests := by
    rintro ⟨name, testcase⟩
    rw [mem_tests_iff, mem_tests_iff, hsame]
  have hdistinct (plan : LoadedPlan) : plan.tests.Nodup :=
    plan.pairwise_tests.imp fun hless hsame ↦ absurd (hsame ▸ hless) (String.lt_irrefl _)
  have hperm : loaded.tests.Perm other.tests :=
    (List.perm_ext_iff_of_nodup (hdistinct loaded) (hdistinct other)).mpr hmem
  exact hperm.eq_of_pairwise (fun _ _ _ _ hless hgreater ↦
    absurd hgreater (String.lt_asymm hless)) loaded.pairwise_tests other.pairwise_tests

end LoadedPlan

/-! ### What a test runs -/

namespace Testcase

/-- What a test runs: its reference is declared in a file whose path ends with this name, a
directory and the file itself. -/
def Runs (testcase : Testcase) (inventory : Inventory) (test : String) : Prop :=
  ∃ reference definition front directory file, testcase.reference = some reference ∧
    inventory.definitions.get? reference = some definition ∧
    definition.declaringFile.components = front ++ [.entry test, directory, file]

/-- Why a test of a plan runs nothing: the first of its reference, the declaration and the directory
that is missing. -/
inductive Faulty (inventory : Inventory) (plan name : String) (testcase : Testcase) :
    ListError → Prop
  /-- The test has no reference. -/
  | missingReference (habsent : testcase.reference = none) :
      Faulty inventory plan name testcase (.missingReference plan name)
  /-- The reference is declared nowhere. -/
  | undeclared {reference : String} (hreference : testcase.reference = some reference)
      (habsent : inventory.definitions.get? reference = none) :
      Faulty inventory plan name testcase (.undeclared plan name reference)
  /-- There is no named directory two levels above the declaring file. -/
  | unnamedDirectory {reference : String} {definition : TestDefinition}
      (hreference : testcase.reference = some reference)
      (hdeclared : inventory.definitions.get? reference = some definition)
      (habsent : ∀ front test directory file,
        definition.declaringFile.components ≠ front ++ [.entry test, directory, file]) :
      Faulty inventory plan name testcase (.unnamedDirectory plan name definition.declaringFile)

variable {inventory : Inventory} {plan name test : String} {testcase : Testcase}
variable {fault : ListError}

theorem runs_iff : testcase.Runs inventory test ↔
    ∃ reference, testcase.reference = some reference ∧
      (inventory.sourceOf reference).bind testName? = some test := by
  simp only [Runs, Inventory.sourceOf, Option.bind_eq_some_iff, Option.map_eq_some_iff,
    testName?_eq_some_iff]
  constructor
  · rintro ⟨reference, definition, front, directory, file, hreference, hdeclared, hfile⟩
    exact ⟨reference, hreference, _, ⟨definition, hdeclared, rfl⟩, front, directory, file, hfile⟩
  · rintro ⟨reference, hreference, _, ⟨definition, hdeclared, rfl⟩, front, directory, file, hfile⟩
    exact ⟨reference, definition, front, directory, file, hreference, hdeclared, hfile⟩

/-- What a test runs is decided by its reference. -/
theorem runs_iff_eq {reference group : String} (hreference : testcase.reference = some reference)
    (hgroup : (inventory.sourceOf reference).bind testName? = some group) :
    testcase.Runs inventory test ↔ test = group := by
  simp [runs_iff, hreference, hgroup, eq_comm]

theorem testOfEntry_eq_ok_iff_runs :
    testOfEntry inventory plan (name, testcase) = .ok test ↔ testcase.Runs inventory test := by
  rw [testOfEntry, runs_iff]
  cases testcase.reference with
  | none => simp
  | some reference =>
    cases hsource : inventory.sourceOf reference with
    | none => simp [hsource]
    | some file => cases hname : testName? file <;> simp [hsource, hname]

theorem testOfEntry_eq_error_iff :
    testOfEntry inventory plan (name, testcase) = .error fault ↔
      testcase.Faulty inventory plan name fault := by
  have hunnamed (file : Path) : testName? file = none ↔
      ∀ front test directory last, file.components ≠ front ++ [.entry test, directory, last] := by
    rw [Option.eq_none_iff_forall_ne_some]
    simp only [Ne, testName?_eq_some_iff, not_exists]
    exact ⟨fun hnone front test ↦ hnone test front, fun hnone test front ↦ hnone front test⟩
  constructor
  · intro hfault
    rw [testOfEntry] at hfault
    cases hreference : testcase.reference with
    | none =>
      simp only [hreference, Except.error.injEq] at hfault
      exact hfault ▸ .missingReference hreference
    | some reference =>
      cases hdeclared : inventory.definitions.get? reference with
      | none =>
        simp only [hreference, Inventory.sourceOf, hdeclared, Option.map_none,
          Except.error.injEq] at hfault
        exact hfault ▸ .undeclared hreference hdeclared
      | some definition =>
        simp only [hreference, Inventory.sourceOf, hdeclared, Option.map_some] at hfault
        cases hname : testName? definition.declaringFile with
        | none =>
          simp only [hname, Except.error.injEq] at hfault
          exact hfault ▸ .unnamedDirectory hreference hdeclared ((hunnamed _).mp hname)
        | some test => simp [hname] at hfault
  · rintro (hreference | ⟨hreference, hdeclared⟩ | ⟨hreference, hdeclared, hname⟩)
    · rw [testOfEntry, hreference]
    · simp only [testOfEntry, hreference, Inventory.sourceOf, hdeclared, Option.map_none]
    · simp only [testOfEntry, hreference, Inventory.sourceOf, hdeclared, Option.map_some,
        (hunnamed _).mpr hname]

end Testcase

/-! ### Outlines of documents -/

/-- What a document says of its plan: the plans that it includes, and its entries with their
references. -/
def PlanDocument.outline (document : PlanDocument) :
    List String × List (String × Option String) :=
  (document.planMeta.includes, (document.testcases.map Testcase.reference).entries)

/-- An outline shows which reference an entry has. -/
theorem PlanDocument.find?_outline (document : PlanDocument) (name : String) :
    Table.find? name document.outline.2 =
      (document.testcases.get? name).map Testcase.reference :=
  Table.get?_map document.testcases Testcase.reference name

namespace LoadedPlan

variable {documents : List PlanDocument} {name : String}
variable {outlines : List (List String × List (String × Option String))}

/-- The references of the tests of a merged plan stand in the outlines of its documents, and the
last outline with an entry of the name counts. -/
theorem exists_isTest_iff (houtlines : documents.map PlanDocument.outline = outlines)
    {reference : Option String} :
    (∃ testcase, (ofDocuments documents).IsTest name testcase ∧ testcase.reference = reference) ↔
      (outlines.reverse.findSome? fun outline ↦ Table.find? name outline.2) = some reference ∧
        ¬ IsHookName name := by
  have hfound : (outlines.reverse.findSome? fun outline ↦ Table.find? name outline.2) =
      ((ofDocuments documents).testcases.get? name).map Testcase.reference := by
    rw [← houtlines, ← List.map_reverse, List.findSome?_map, get?_ofDocuments, List.map_findSome?]
    simp only [Function.comp_def, PlanDocument.find?_outline]
  rw [hfound, Option.map_eq_some_iff]
  constructor
  · rintro ⟨testcase, ⟨hmerged, hnamed⟩, hreference⟩
    exact ⟨⟨testcase, hmerged, hreference⟩, hnamed⟩
  · rintro ⟨⟨testcase, hmerged, hreference⟩, hnamed⟩
    exact ⟨testcase, ⟨hmerged, hnamed⟩, hreference⟩

/-- A test of a merged plan has its reference in some outline. -/
theorem IsTest.mem_outlines {testcase : Testcase}
    (htest : (ofDocuments documents).IsTest name testcase)
    (houtlines : documents.map PlanDocument.outline = outlines) :
    (name, testcase.reference) ∈ outlines.flatMap Prod.snd := by
  obtain ⟨hfound, -⟩ := (exists_isTest_iff houtlines).mp ⟨testcase, htest, rfl⟩
  obtain ⟨outline, houtline, hentry⟩ := List.exists_of_findSome?_eq_some hfound
  exact List.mem_flatMap.mpr
    ⟨outline, List.mem_reverse.mp houtline, Table.mem_of_find?_eq_some hentry⟩

end LoadedPlan

/-! ### Entries that are no tests -/

/-- Two documents include the same plans and have the same tests. Their other entries may differ,
and so may all else that they say. -/
structure PlanDocument.SameTests (first second : PlanDocument) : Prop where
  includes : first.planMeta.includes = second.planMeta.includes
  tests : ∀ name, ¬ IsHookName name → first.testcases.get? name = second.testcases.get? name

/-- In documents with the same tests in a row, the first test of a name is the same. -/
theorem PlanDocument.findSome?_eq_of_sameTests {documents found : List PlanDocument} {name : String}
    (hsame : List.Forall₂ PlanDocument.SameTests documents found) (hnamed : ¬ IsHookName name) :
    (documents.findSome? fun document ↦ document.testcases.get? name) =
      found.findSome? fun document ↦ document.testcases.get? name := by
  induction hsame with
  | nil => rfl
  | cons hdocuments _ ih =>
    rw [List.findSome?_cons, List.findSome?_cons, hdocuments.tests name hnamed, ih]

/-- Documents with the same tests make plans with the same tests. -/
theorem LoadedPlan.isTest_ofDocuments_iff {documents found : List PlanDocument}
    (hsame : List.Forall₂ PlanDocument.SameTests documents found) (name : String)
    (testcase : Testcase) :
    (ofDocuments documents).IsTest name testcase ↔ (ofDocuments found).IsTest name testcase := by
  have hmerged (hnamed : ¬ IsHookName name) :
      (ofDocuments documents).testcases.get? name = (ofDocuments found).testcases.get? name := by
    rw [get?_ofDocuments, get?_ofDocuments]
    exact PlanDocument.findSome?_eq_of_sameTests (List.forall₂_reverse_iff.mpr hsame) hnamed
  constructor
  · rintro ⟨hfound, hnamed⟩
    exact ⟨hmerged hnamed ▸ hfound, hnamed⟩
  · rintro ⟨hfound, hnamed⟩
    exact ⟨(hmerged hnamed).trans hfound, hnamed⟩

namespace PlanDirectory

variable {plans others : PlanDirectory} {plan name : String}

/-- Two plan directories have the same tests for a plan: whatever it reaches can be read in both,
and there are the same tests in it. -/
def SameTests (plans others : PlanDirectory) (plan : String) : Prop :=
  ∀ reached, ReflTransGen plans.Includes plan reached → ∃ document other,
    plans.read reached = .ok document ∧ others.read reached = .ok other ∧ document.SameTests other

/-- A visit of the same plans in the other directory meets documents with the same tests. -/
theorem Visits.exists_of_sameTests {names : List String} {documents : List PlanDocument}
    (hvisits : plans.Visits names documents) (hsame : ∀ name ∈ names, plans.SameTests others name) :
    ∃ found, others.Visits names found ∧
      List.Forall₂ PlanDocument.SameTests documents found := by
  induction hvisits with
  | none => exact ⟨[], .none, .nil⟩
  | @plan name rest document included later hread _ _ ihincluded ihlater =>
    obtain ⟨hname, hrest⟩ := List.forall_mem_cons.mp hsame
    obtain ⟨again, other, hagain, hother, hdocuments⟩ := hname name .refl
    cases hread.symm.trans hagain
    obtain ⟨below, hbelow, hincluded⟩ := ihincluded fun included hmem reached hreach ↦
      hname reached (hreach.head ⟨document, hread, hmem⟩)
    obtain ⟨behind, hbehind, hlater⟩ := ihlater hrest
    rw [hdocuments.includes] at hbelow
    exact ⟨_, .plan hother hbelow hbehind, .cons hdocuments (List.rel_append hincluded hlater)⟩

/-- A plan that can be visited loads as the plan of the documents that the visit meets. -/
theorem load_of_visits {documents : List PlanDocument} (hvisits : plans.Visits [name] documents) :
    plans.load name = .ok (.ofDocuments documents) := by
  have hreached : ∀ reached, ReflTransGen plans.Includes name reached →
      plans.Readable reached ∧ ¬ TransGen plans.Includes reached reached := by
    intro reached hreach
    obtain ⟨found, hfound⟩ := hvisits.exists_of_reflTransGen hreach
    exact ⟨hfound.readable, hfound.not_transGen_includes⟩
  obtain ⟨loaded, hloaded⟩ : ∃ loaded, plans.load name = .ok loaded :=
    exists_loadBelow_eq_ok (fun _ hmem ↦ absurd hmem List.not_mem_nil) hreached
  obtain ⟨found, hfound, rfl⟩ := load_eq_ok_iff.mp hloaded
  rw [hloaded, hvisits.unique (visits_of_findings hfound)]

/-- The profile of a plan that loads is made of its tests. -/
theorem deriveProfile_eq_of_load {loaded : LoadedPlan} (hload : plans.load plan = .ok loaded)
    (inventory : Inventory) :
    deriveProfile plans inventory plan =
      (loaded.tests.mapM (testOfEntry inventory plan)).map ascending := by
  rw [deriveProfile, testsOf, hload]
  rfl

/-- The profile of a plan that loads is the same in a directory with the same tests. -/
theorem deriveProfile_eq_of_sameTests {loaded : LoadedPlan} (hload : plans.load plan = .ok loaded)
    (hsame : plans.SameTests others plan) (inventory : Inventory) :
    deriveProfile others inventory plan = deriveProfile plans inventory plan := by
  obtain ⟨documents, hfound, rfl⟩ := load_eq_ok_iff.mp hload
  obtain ⟨found, hvisits, hdocuments⟩ :=
    (visits_of_findings hfound).exists_of_sameTests (List.forall_mem_singleton.mpr hsame)
  rw [deriveProfile_eq_of_load hload, deriveProfile_eq_of_load (load_of_visits hvisits),
    LoadedPlan.tests_eq_of_isTest_iff (LoadedPlan.isTest_ofDocuments_iff hdocuments)]

/-! ### The profile -/

/-- Let a plan load. Its profile exists exactly when each of its tests runs something, and it lists
what they run, in order and each once. Otherwise the error is that of the least test by name that
runs nothing. The other entries of the plan and of the plans that it includes have no part in it. -/
theorem deriveProfile_of_load {loaded : LoadedPlan} (hload : plans.load plan = .ok loaded)
    (inventory : Inventory) :
    ((∃ tests, deriveProfile plans inventory plan = .ok tests) ↔
      ∀ name testcase, loaded.IsTest name testcase → ∃ test, testcase.Runs inventory test) ∧
    (∀ tests, deriveProfile plans inventory plan = .ok tests →
      tests.Pairwise (· < ·) ∧ ∀ test, test ∈ tests ↔
        ∃ name testcase, loaded.IsTest name testcase ∧ testcase.Runs inventory test) ∧
    (∀ fault, deriveProfile plans inventory plan = .error fault ↔
      ∃ name testcase, loaded.IsTest name testcase ∧ testcase.Faulty inventory plan name fault ∧
        ∀ earlier other, loaded.IsTest earlier other → earlier < name →
          ∃ test, other.Runs inventory test) ∧
    ∀ others : PlanDirectory, plans.SameTests others plan →
      deriveProfile others inventory plan = deriveProfile plans inventory plan := by
  rw [deriveProfile_eq_of_load hload]
  refine ⟨⟨?_, fun hruns ↦ ?_⟩, ?_, fun fault ↦ ?_, fun others hsame ↦ ?_⟩
  · rintro ⟨tests, htests⟩ name testcase htest
    obtain ⟨names, hnames, -⟩ := map_eq_ok_iff.mp htests
    obtain ⟨test, -, hruns⟩ := exists_mem_of_mapM_eq_ok hnames (LoadedPlan.mem_tests_iff.mpr htest)
    exact ⟨test, Testcase.testOfEntry_eq_ok_iff_runs.mp hruns⟩
  · have hoks : ∀ entry ∈ loaded.tests, ∃ test, testOfEntry inventory plan entry = .ok test := by
      rintro ⟨name, testcase⟩ hentry
      obtain ⟨test, htest⟩ := hruns name testcase (LoadedPlan.mem_tests_iff.mp hentry)
      exact ⟨test, Testcase.testOfEntry_eq_ok_iff_runs.mpr htest⟩
    obtain ⟨names, hnames⟩ := exists_mapM_eq_ok hoks
    exact ⟨ascending names, map_eq_ok_iff.mpr ⟨names, hnames, rfl⟩⟩
  · intro tests htests
    obtain ⟨names, hnames, rfl⟩ := map_eq_ok_iff.mp htests
    refine ⟨ascending_ascending names, fun test ↦ ?_⟩
    rw [mem_ascending, mem_of_mapM_eq_ok hnames]
    simp only [Prod.exists, LoadedPlan.mem_tests_iff, Testcase.testOfEntry_eq_ok_iff_runs]
  · rw [map_eq_error_iff, mapM_eq_error_iff_of_pairwise (fun _ _ ↦ String.lt_asymm)
      loaded.pairwise_tests]
    simp only [Prod.exists, Prod.forall, LoadedPlan.mem_tests_iff,
      Testcase.testOfEntry_eq_ok_iff_runs, Testcase.testOfEntry_eq_error_iff]
  · rw [deriveProfile_eq_of_sameTests hload hsame, deriveProfile_eq_of_load hload]

/-! ### A replaced reference -/

/-- What is read for a plan depends on its file alone. -/
theorem read_congr (hpath : others.path = plans.path)
    (hfile : others.disk.isFile (plans.pathOf name) = plans.disk.isFile (plans.pathOf name))
    (htext : others.disk.readText (plans.pathOf name) = plans.disk.readText (plans.pathOf name)) :
    others.read name = plans.read name := by
  have hsame : others.pathOf name = plans.pathOf name := by
    rw [pathOf, pathOf, hpath]
  simp only [read, hsame, hfile, htext]

/-- A plan `whole` with a hook that has any reference. In `broken` the reference of `b` is replaced
by none. -/
def hookedPlans (hook : String) : PlanDirectory where
  disk := ⟨.directory [
    ("broken.yaml", .file (Text.Utf8.encode "meta: \x7binclude: [whole, gaps]\x7d")),
    ("gaps.yaml", .file (Text.Utf8.encode "testcases: \x7bb: , c: \x7btestcase: other\x7d\x7d")),
    ("hooks.yaml", .file (Text.Utf8.encode
      ("testcases: \x7bBeforeSuite: \x7btestcase: " ++ hook ++ "\x7d\x7d"))),
    ("whole.yaml", .file (Text.Utf8.encode
      ("testcases: \x7ba: \x7btestcase: reads\x7d, b: \x7btestcase: sends\x7d\x7d\n" ++
        "meta: \x7binclude: [hooks]\x7d")))], []⟩
  path := ⟨""⟩

/-- Two tests, declared below `disk` and below `net`. -/
def twoGroups : Inventory where
  definitions := Table.ofList [("reads", ⟨"reads", "src/disk/reader/a.go", 3, ""⟩),
    ("sends", ⟨"sends", "src/net/sender/./b.go", 7, ""⟩)]
  diagnostics := []

/-- What the files of the plans say. -/
def hookedOutline (hook : String) : String → List String × List (String × Option String)
  | "broken" => (["whole", "gaps"], [])
  | "gaps" => ([], [("b", none), ("c", some "other")])
  | "hooks" => ([], [("BeforeSuite", some hook)])
  | _ => (["hooks"], [("a", some "reads"), ("b", some "sends")])

theorem read_hookedPlans {hook : String} (hfile : (hook, name) ∈ [("other", "broken"),
    ("other", "gaps"), ("other", "hooks"), ("reads", "hooks"), ("other", "whole")]) :
    ∃ document, (hookedPlans hook).read name = .ok document ∧
      document.outline = hookedOutline hook name := by
  have hviews : ∀ file ∈ [("other", "broken"), ("other", "gaps"), ("other", "hooks"),
      ("reads", "hooks"), ("other", "whole")],
      ((hookedPlans file.1).read file.2).toOption.map PlanDocument.outline =
        some (hookedOutline file.1 file.2) := by
    decide +kernel
  exact exists_eq_ok_of_toOption (hviews (hook, name) hfile)

/-- The documents that the two plans are made of. -/
theorem load_hookedPlans :
    (∃ documents, (hookedPlans "other").load "whole" = .ok (.ofDocuments documents) ∧
      documents.map PlanDocument.outline = ["whole", "hooks"].map (hookedOutline "other")) ∧
    ∃ documents, (hookedPlans "other").load "broken" = .ok (.ofDocuments documents) ∧
      documents.map PlanDocument.outline =
        ["broken", "whole", "hooks", "gaps"].map (hookedOutline "other") := by
  obtain ⟨broken, hbroken, hbrokenOutline⟩ := read_hookedPlans (by decide : ("other", "broken") ∈ _)
  obtain ⟨gaps, hgaps, hgapsOutline⟩ := read_hookedPlans (by decide : ("other", "gaps") ∈ _)
  obtain ⟨hooks, hhooks, hhooksOutline⟩ := read_hookedPlans (by decide : ("other", "hooks") ∈ _)
  obtain ⟨whole, hwhole, hwholeOutline⟩ := read_hookedPlans (by decide : ("other", "whole") ∈ _)
  have hbelowHooks : (hookedPlans "other").Visits hooks.planMeta.includes [] := by
    rw [show hooks.planMeta.includes = [] from congrArg Prod.fst hhooksOutline]
    exact .none
  have hbelowGaps : (hookedPlans "other").Visits gaps.planMeta.includes [] := by
    rw [show gaps.planMeta.includes = [] from congrArg Prod.fst hgapsOutline]
    exact .none
  have hbelowWhole : (hookedPlans "other").Visits whole.planMeta.includes [hooks] := by
    rw [show whole.planMeta.includes = ["hooks"] from congrArg Prod.fst hwholeOutline]
    exact .plan hhooks hbelowHooks .none
  have hbelowBroken : (hookedPlans "other").Visits broken.planMeta.includes
      [whole, hooks, gaps] := by
    rw [show broken.planMeta.includes = ["whole", "gaps"] from congrArg Prod.fst hbrokenOutline]
    exact .plan hwhole hbelowWhole (.plan hgaps hbelowGaps .none)
  refine ⟨⟨_, load_of_visits (.plan hwhole hbelowWhole .none), ?_⟩,
    _, load_of_visits (.plan hbroken hbelowBroken .none), ?_⟩
  · simp only [List.append_nil, List.map_cons, List.map_nil, hwholeOutline, hhooksOutline]
  · simp only [List.append_nil, List.map_cons, List.map_nil, hbrokenOutline, hwholeOutline,
      hhooksOutline, hgapsOutline]

/-- The file of `whole` does not depend on the hook. -/
theorem read_whole_congr :
    (hookedPlans "reads").read "whole" = (hookedPlans "other").read "whole" := by
  have hpath : (hookedPlans "reads").path = (hookedPlans "other").path := rfl
  have hfile : (hookedPlans "reads").disk.isFile ((hookedPlans "other").pathOf "whole") =
        (hookedPlans "other").disk.isFile ((hookedPlans "other").pathOf "whole") ∧
      (hookedPlans "reads").disk.readText ((hookedPlans "other").pathOf "whole") =
        (hookedPlans "other").disk.readText ((hookedPlans "other").pathOf "whole") := by
    decide +kernel
  exact read_congr hpath hfile.1 hfile.2

/-- The tests of `whole` do not depend on the hook. -/
theorem sameTests_hookedPlans :
    (hookedPlans "other").SameTests (hookedPlans "reads") "whole" := by
  obtain ⟨whole, hwhole, hwholeOutline⟩ := read_hookedPlans (by decide : ("other", "whole") ∈ _)
  obtain ⟨hooks, hhooks, hhooksOutline⟩ := read_hookedPlans (by decide : ("other", "hooks") ∈ _)
  obtain ⟨again, hagain, hagainOutline⟩ := read_hookedPlans (by decide : ("reads", "hooks") ∈ _)
  have hincludes : whole.planMeta.includes = ["hooks"] := congrArg Prod.fst hwholeOutline
  have hnothing : hooks.planMeta.includes = [] := congrArg Prod.fst hhooksOutline
  have hnone : again.planMeta.includes = [] := congrArg Prod.fst hagainOutline
  have hreached : ∀ reached, ReflTransGen (hookedPlans "other").Includes "whole" reached →
      reached = "whole" ∨ reached = "hooks" := by
    intro reached hreach
    induction hreach with
    | refl => exact .inl rfl
    | tail _ hstep ih =>
      obtain ⟨document, hread, hmem⟩ := hstep
      rcases ih with rfl | rfl
      · cases hwhole.symm.trans hread
        rw [hincludes] at hmem
        exact .inr (List.mem_singleton.mp hmem)
      · cases hhooks.symm.trans hread
        rw [hnothing] at hmem
        cases hmem
  have hunnamed {document : PlanDocument} {hook name : String} (hnamed : ¬ IsHookName name)
      (houtline : document.outline = hookedOutline hook "hooks") :
      document.testcases.get? name = none := by
    have hother : name ≠ "BeforeSuite" := by
      rintro rfl
      exact hnamed (by decide)
    have hfound := document.find?_outline name
    rw [houtline, hookedOutline, Table.find?, if_neg hother, Table.find?] at hfound
    exact Option.map_eq_none_iff.mp hfound.symm
  intro reached hreach
  rcases hreached reached hreach with rfl | rfl
  · exact ⟨whole, whole, hwhole, Eq.trans read_whole_congr hwhole, rfl, fun _ _ ↦ rfl⟩
  · refine ⟨hooks, again, hhooks, hagain, hnothing.trans hnone.symm, fun name hnamed ↦ ?_⟩
    rw [hunnamed hnamed hhooksOutline, hunnamed hnamed hagainOutline]

/-- Both tests of `whole` count, whatever the hook refers to. In `broken` the test `b` has no
reference, which is reported, and that `c` is declared nowhere is not. -/
theorem deriveProfile_of_load_hookedPlans :
    (∀ hook ∈ ["other", "reads"],
      deriveProfile (hookedPlans hook) twoGroups "whole" = .ok ["disk", "net"]) ∧
    deriveProfile (hookedPlans "other") twoGroups "broken" =
      .error (.missingReference "broken" "b") := by
  obtain ⟨⟨whole, hwhole, houtlines⟩, broken, hbroken, hlisted⟩ := load_hookedPlans
  obtain ⟨hexists, htests, -, hsame⟩ := deriveProfile_of_load hwhole twoGroups
  obtain ⟨-, -, hfault, -⟩ := deriveProfile_of_load hbroken twoGroups
  have hreads : (twoGroups.sourceOf "reads").bind testName? = some "disk" := by decide
  have hsends : (twoGroups.sourceOf "sends").bind testName? = some "net" := by decide
  have hall : ∀ name testcase, (LoadedPlan.ofDocuments whole).IsTest name testcase →
      testcase.reference = some "reads" ∨ testcase.reference = some "sends" := by
    intro name testcase htest
    have hmem : (name, testcase.reference) ∈
        [("a", some "reads"), ("b", some "sends"), ("BeforeSuite", some "other")] :=
      htest.mem_outlines houtlines
    simp only [List.mem_cons, List.not_mem_nil, Prod.mk.injEq, or_false] at hmem
    rcases hmem with ⟨-, hreference⟩ | ⟨-, hreference⟩ | ⟨rfl, -⟩
    · exact .inl hreference
    · exact .inr hreference
    · exact absurd (by decide) htest.named
  have hruns : ∀ name testcase, (LoadedPlan.ofDocuments whole).IsTest name testcase →
      ∃ test, testcase.Runs twoGroups test := by
    intro name testcase htest
    rcases hall name testcase htest with hreference | hreference
    · exact ⟨"disk", (Testcase.runs_iff_eq hreference hreads).mpr rfl⟩
    · exact ⟨"net", (Testcase.runs_iff_eq hreference hsends).mpr rfl⟩
  have hlist : ∀ test, (∃ name testcase, (LoadedPlan.ofDocuments whole).IsTest name testcase ∧
      testcase.Runs twoGroups test) ↔ test ∈ ["disk", "net"] := by
    intro test
    rw [List.mem_pair]
    constructor
    · rintro ⟨name, testcase, htest, hgroup⟩
      rcases hall name testcase htest with hreference | hreference
      · exact .inl ((Testcase.runs_iff_eq hreference hreads).mp hgroup)
      · exact .inr ((Testcase.runs_iff_eq hreference hsends).mp hgroup)
    · rintro (rfl | rfl)
      · obtain ⟨testcase, htest, hreference⟩ : ∃ testcase,
            (LoadedPlan.ofDocuments whole).IsTest "a" testcase ∧
              testcase.reference = some "reads" :=
          (LoadedPlan.exists_isTest_iff houtlines).mpr (by decide)
        exact ⟨"a", testcase, htest, (Testcase.runs_iff_eq hreference hreads).mpr rfl⟩
      · obtain ⟨testcase, htest, hreference⟩ : ∃ testcase,
            (LoadedPlan.ofDocuments whole).IsTest "b" testcase ∧
              testcase.reference = some "sends" :=
          (LoadedPlan.exists_isTest_iff houtlines).mpr (by decide)
        exact ⟨"b", testcase, htest, (Testcase.runs_iff_eq hreference hsends).mpr rfl⟩
  have hprofile : deriveProfile (hookedPlans "other") twoGroups "whole" = .ok ["disk", "net"] := by
    obtain ⟨tests, hderive⟩ := hexists.mpr hruns
    obtain ⟨hordered, hmem⟩ := htests tests hderive
    have hsorted : Ascending ["disk", "net"] := by decide
    rw [hderive, Ascending.eq_of_mem_iff hordered hsorted fun test ↦ (hmem test).trans (hlist test)]
  refine ⟨?_, (hfault _).mpr ?_⟩
  · intro hook hhook
    rcases List.mem_pair.mp hhook with rfl | rfl
    · exact hprofile
    · rw [hsame _ sameTests_hookedPlans, hprofile]
  · obtain ⟨testcase, htest, hreference⟩ : ∃ testcase,
        (LoadedPlan.ofDocuments broken).IsTest "b" testcase ∧ testcase.reference = none :=
      (LoadedPlan.exists_isTest_iff hlisted).mpr (by decide)
    refine ⟨"b", testcase, htest, .missingReference hreference, fun name other hother hless ↦ ?_⟩
    have hmem : (name, other.reference) ∈ [("a", some "reads"), ("b", some "sends"),
        ("BeforeSuite", some "other"), ("b", none), ("c", some "other")] :=
      hother.mem_outlines hlisted
    simp only [List.mem_cons, List.not_mem_nil, Prod.mk.injEq, or_false] at hmem
    rcases hmem with ⟨-, hfirst⟩ | ⟨rfl, -⟩ | ⟨rfl, -⟩ | ⟨rfl, -⟩ | ⟨rfl, -⟩
    · exact ⟨"disk", (Testcase.runs_iff_eq hfirst hreads).mpr rfl⟩
    · exact absurd hless (by decide)
    · exact absurd (by decide) hother.named
    · exact absurd hless (by decide)
    · exact absurd hless (by decide)

end PlanDirectory

end Roster
