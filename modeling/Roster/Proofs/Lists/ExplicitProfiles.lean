import Roster.Proofs.Lists.ProfileReference
import Roster.Settings.Basic

/-!
# Definitions that need no profile of a plan

The names of the plans of a directory are read off the names of its files
(`PlanDirectory.exists_names_eq_ok`). What the files hold is read only for the plans that need a
profile, and so are the sources. Where each plan is reserved or has an explicit profile, a resolution
succeeds, and the names of the plan files are all that its lists take from the disk
(`Resolver.resolve_of_explicit`).
-/

set_option autoImplicit false
set_option relaxedAutoImplicit false

namespace Roster

/-! ### Resolutions without plans to read -/

/-- A note about an explicit profile is no warning. -/
theorem Diagnostic.warnings_map_explicitOverPlan (names : List String) :
    warnings (names.map explicitOverPlan) = [] :=
  List.filter_eq_nil_iff.mpr (List.forall_mem_map.mpr fun _ _ ↦ Bool.false_ne_true)

/-- A note about a union is no warning. -/
theorem Profiles.warnings_unionDiagnostics (profiles : Profiles) (unions : Table (List String)) :
    Diagnostic.warnings (profiles.unionDiagnostics unions) = [] :=
  List.filter_eq_nil_iff.mpr (List.forall_mem_map.mpr fun _ _ ↦ Bool.false_ne_true)

namespace Resolver

/-- Where no plan needs a profile, a resolution succeeds, and its lists take nothing but the names of
the plans from the disk. Nothing is reported but that a name stands for two things. -/
theorem exists_resolve_eq_ok_of_names {settings : Settings} {definition : ListDefinition}
    {disk other : Disk} {names : List String} (hnames : (settings.plans disk).names = .ok names)
    (hnames' : (settings.plans other).names = .ok names)
    (hexplicit : ∀ name ∈ names, name ∉ settings.reservedPlans →
      name ∈ definition.explicitProfiles.names) :
    ∃ lists, (settings.resolver disk).resolve definition = .ok lists ∧
      (settings.resolver other).resolve definition = .ok lists ∧
      Diagnostic.warnings lists.diagnostics = [] := by
  have hnone (found : Disk) : (settings.resolver found).pendingPlans
      (explicitProfiles definition.explicitProfiles) names = [] := by
    refine List.eq_nil_iff_forall_not_mem.mpr fun name hpending ↦ ?_
    obtain ⟨hopen, habsent⟩ := mem_pendingPlans.mp hpending
    obtain ⟨hname, hfree⟩ := mem_openPlans.mp hopen
    rw [names_explicitProfiles] at habsent
    exact habsent (hexplicit name hname hfree)
  have hplans : (settings.resolver disk).withPlans
      (explicitProfiles definition.explicitProfiles) = _ :=
    withPlans_of_pendingPlans_eq_nil hnames (hnone disk)
  have hplans' : (settings.resolver other).withPlans
      (explicitProfiles definition.explicitProfiles) = _ :=
    withPlans_of_pendingPlans_eq_nil hnames' (hnone other)
  -- which plans are noted depends on the settings only, so that both resolutions note the same
  refine ⟨_, resolve_eq_ok_iff.mpr ⟨_, _, hplans, rfl⟩,
    resolve_eq_ok_iff.mpr ⟨_, _, hplans', rfl⟩, ?_⟩
  rw [Diagnostic.warnings_append, Diagnostic.warnings_map_explicitOverPlan,
    Profiles.warnings_unionDiagnostics, List.append_nil]

/-- Let two disks have the same plan files under the same settings, and let each plan be reserved or
have an explicit profile, if only one without a list. A resolution succeeds on both, and its lists
are the same, whatever the plan files hold and whatever stands in the sources. No warning comes with
them. -/
theorem resolve_of_explicit (settings : Settings) (definition : ListDefinition) {disk other : Disk}
    (hformed : disk.root.WellFormed) (hformed' : other.root.WellFormed)
    (hdirectory : disk.isDirectory settings.plansPath = true)
    (hdirectory' : other.isDirectory settings.plansPath = true)
    (hfiles : ∀ file,
      (settings.plans disk).HasPlanFile file ↔ (settings.plans other).HasPlanFile file)
    (hexplicit : ∀ file, (settings.plans disk).HasPlanFile file →
      Path.stem file ∉ settings.reservedPlans →
      Path.stem file ∈ definition.explicitProfiles.names) :
    ∃ lists, (settings.resolver disk).resolve definition = .ok lists ∧
      (settings.resolver other).resolve definition = .ok lists ∧
      Diagnostic.warnings lists.diagnostics = [] := by
  obtain ⟨names, hnames, hnames', hfile⟩ :=
    PlanDirectory.exists_names_eq_ok_of_hasPlanFile hformed hformed' hdirectory hdirectory' hfiles
  have hcovered : ∀ name ∈ names, name ∉ settings.reservedPlans →
      name ∈ definition.explicitProfiles.names := by
    intro name hname hopen
    obtain ⟨file, hhere, rfl⟩ := hfile name hname
    exact hexplicit file hhere hopen
  exact exists_resolve_eq_ok_of_names hnames hnames' hcovered

/-! ### Two source trees with the same plans -/

/-- A reserved plan and another one with some text. -/
def plansWith (nightly : String) : List (String × FileTree) :=
  [("common.yaml", .file []), ("nightly.yaml", .file (Text.Utf8.encode nightly))]

/-- Sources with one test, and a plan that refers to it. -/
def soundDisk : Disk :=
  ⟨.directory [("src", .directory [("io", .directory [("io_test.go", sampleSource)])]),
    ("testplans", .directory (plansWith "testcases:\n  first:\n    testcase: io.IO runs\n"))], []⟩

/-- A root that is no directory, and a plan that includes itself. -/
def brokenDisk : Disk :=
  ⟨.directory [("src", .file []),
    ("testplans", .directory (plansWith "meta: \x7binclude: [nightly]\x7d"))], []⟩

/-- Where the sources and the plans of both trees are. -/
def treeSettings : Settings :=
  { Settings.standard with scrapeRoots := ["src"] }

/-- A definition with an explicit profile for the plan, which has no list. -/
def coveringDefinition : ListDefinition where
  explicitProfiles := Table.ofList [("nightly", none), ("smoke", some ["a", "b"])]
  unions := Table.ofList [("m", ["smoke", "nightly"])]
  metadata := ⟨[⟨"a", ["b"]⟩], ["m"], ∅, []⟩

theorem wellFormed_plansWith (nightly : String) :
    (FileTree.directory (plansWith nightly)).WellFormed :=
  .cons (by decide) (by simp) (.file _) (.cons (by decide) (by simp) (.file _) .empty)

theorem wellFormed_soundDisk : soundDisk.root.WellFormed := by
  refine .cons (by decide) (by decide) ?src
    (.cons (by decide) (by decide) (wellFormed_plansWith _) .empty)
  case src =>
    exact .cons (by decide) (by decide) (.cons (by decide) (by decide) (.file _) .empty) .empty

theorem wellFormed_brokenDisk : brokenDisk.root.WellFormed :=
  .cons (by decide) (by decide) (.file _)
    (.cons (by decide) (by decide) (wellFormed_plansWith _) .empty)

theorem hasPlanFile_plansWith {plans : PlanDirectory} {nightly : String}
    (hlocate : plans.disk.locate plans.path = .ok (.directory (plansWith nightly)))
    {file : String} : plans.HasPlanFile file ↔ file = "common.yaml" ∨ file = "nightly.yaml" := by
  constructor
  · rintro ⟨entries, bytes, hothers, hentry, _⟩
    cases hlocate.symm.trans hothers
    rcases List.mem_pair.mp hentry with hcommon | hnightly
    · exact .inl (congrArg Prod.fst hcommon)
    · exact .inr (congrArg Prod.fst hnightly)
  · rintro (rfl | rfl)
    · exact ⟨_, _, hlocate, List.mem_cons_self, by decide⟩
    · exact ⟨_, _, hlocate, List.mem_cons_of_mem _ List.mem_cons_self, by decide⟩

/-- The second tree has no inventory, and its plan cannot be loaded. The definition has the same
lists on it as on the first one. -/
theorem resolve_of_explicit_brokenDisk :
    treeSettings.inventory brokenDisk = .error (.file "/src" .notADirectory) ∧
    (∃ chain, (treeSettings.plans brokenDisk).load "nightly" = .error (.includeCycle chain)) ∧
    ∃ lists, (treeSettings.resolver soundDisk).resolve coveringDefinition = .ok lists ∧
      (treeSettings.resolver brokenDisk).resolve coveringDefinition = .ok lists ∧
      Diagnostic.warnings lists.diagnostics = [] := by
  have hcycle : (match (treeSettings.plans brokenDisk).load "nightly" with
      | .error (.includeCycle _) => true
      | _ => false) = true := by
    decide +kernel
  have hsound {file : String} : (treeSettings.plans soundDisk).HasPlanFile file ↔
      file = "common.yaml" ∨ file = "nightly.yaml" :=
    hasPlanFile_plansWith (by rfl)
  have hbroken {file : String} : (treeSettings.plans brokenDisk).HasPlanFile file ↔
      file = "common.yaml" ∨ file = "nightly.yaml" :=
    hasPlanFile_plansWith (by rfl)
  refine ⟨by rfl, ?_, ?_⟩
  · split at hcycle
    · next chain hload => exact ⟨chain, hload⟩
    · cases hcycle
  · refine resolve_of_explicit treeSettings coveringDefinition wellFormed_soundDisk
      wellFormed_brokenDisk (by rfl) (by rfl) (fun file ↦ hsound.trans hbroken.symm) ?_
    intro file hfile hopen
    rcases hsound.mp hfile with rfl | rfl
    · exact absurd (by decide) hopen
    · decide

end Resolver

end Roster
