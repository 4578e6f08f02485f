import Roster.Proofs.Lists.ExplicitProfiles
import Roster.Proofs.Source.DuplicateReports

/-!
# What a resolution reports

The reports of a resolution come from three passes. The first one notes each open plan that an
explicit profile stands for, the last one each union that replaces a profile, and both go through
names in ascending order. Between them stand the reports of the sources, if some plan needs them
(`Resolver.SourceReports`); they are taken over once, however many plans need them.

`Resolver.resolve_diagnostics` says so of all resolutions that succeed. Notes are no warnings, so
that there are as many warnings as declarations that are lost in the sources.
-/

set_option autoImplicit false
set_option relaxedAutoImplicit false

namespace Roster.Resolver

variable {resolver : Resolver} {definition : ListDefinition} {lists : ResolvedLists}
variable {names : List String}

/-- What a resolution takes over from the sources, with the number of declarations that are lost in
them. It reads them when an open plan is not among the explicit profiles, and not at all
otherwise. -/
inductive SourceReports (resolver : Resolver) (explicit : List String) :
    List Diagnostic → Nat → Prop
  /-- A plan needs the sources: all that one scrape reports is taken over. -/
  | scraped {plan : String} {declarations : List Declaration} (hopen : resolver.IsOpenPlan plan)
      (hneeded : plan ∉ explicit)
      (hdeclared : Source.Declared resolver.plans.disk resolver.suffixes resolver.roots
        declarations)
      (hscrape : Source.scrape resolver.plans.disk resolver.suffixes resolver.roots =
        .ok (Inventory.ofDeclarations declarations)) :
      SourceReports resolver explicit (Inventory.ofDeclarations declarations).diagnostics
        (Inventory.lostCount declarations)
  /-- No plan needs them. -/
  | unread (hexplicit : ∀ plan, resolver.IsOpenPlan plan → plan ∈ explicit) :
      SourceReports resolver explicit [] 0

/-! ### Names that stand for two things -/

/-- The plans that an explicit profile stands for are the open ones with one. -/
theorem mem_shadowedPlans_iff (hnames : resolver.plans.names = .ok names) {name : String} :
    name ∈ resolver.shadowedPlans (explicitProfiles definition.explicitProfiles) names ↔
      resolver.IsOpenPlan name ∧ name ∈ definition.explicitProfiles.names := by
  rw [mem_shadowedPlans, names_explicitProfiles, mem_openPlans_iff hnames]

/-- They stand in the order of their names. -/
theorem ascending_shadowedPlans (hformed : resolver.plans.disk.root.WellFormed)
    (hnames : resolver.plans.names = .ok names) (explicit : Profiles) :
    Ascending (resolver.shadowedPlans explicit names) :=
  ((PlanDirectory.ascending_and_mem_names_iff hformed hnames).1.filter _).filter _

/-! ### The reports before the unions -/

/-- Before the unions, a note about each plan that an explicit profile stands for comes before what
is taken over from the sources. -/
theorem exists_reports_withPlans {based : Profiles} {reports : List Diagnostic}
    (hplans : resolver.withPlans (explicitProfiles definition.explicitProfiles) =
      .ok (based, reports)) :
    ∃ names scraped, resolver.plans.names = .ok names ∧
      reports = (resolver.shadowedPlans (explicitProfiles definition.explicitProfiles) names).map
        Diagnostic.explicitOverPlan ++ scraped ∧
      resolver.SourceReports definition.explicitProfiles.names scraped
        (Diagnostic.warningCount scraped) := by
  obtain ⟨names, hnames, hcases⟩ := withPlans_eq_ok hplans
  have hpending {plan : String} : plan ∈ resolver.pendingPlans
      (explicitProfiles definition.explicitProfiles) names ↔
      resolver.IsOpenPlan plan ∧ definition.explicitProfiles.get? plan = none :=
    mem_pendingPlans_iff hnames
  rcases hcases with ⟨hnone, _, rfl⟩ | ⟨inventory, found, hsome, hscrape, _, _, rfl⟩
  · refine ⟨names, [], hnames, (List.append_nil _).symm, .unread fun plan hopen ↦ ?_⟩
    by_contra habsent
    have hmem := hpending.mpr ⟨hopen, Table.get?_eq_none_iff.mpr habsent⟩
    rw [hnone] at hmem
    cases hmem
  · obtain ⟨plan, hmem⟩ := List.exists_mem_of_ne_nil _ hsome
    obtain ⟨hopen, habsent⟩ := hpending.mp hmem
    obtain ⟨declarations, hdeclared, rfl⟩ := Source.scrape_eq_ok hscrape
    refine ⟨names, _, hnames, rfl, ?_⟩
    rw [Diagnostic.warningCount, Inventory.length_warnings_ofDeclarations]
    exact .scraped hopen (Table.get?_eq_none_iff.mp habsent) hdeclared hscrape

/-- Notes on both sides do not change how many warnings there are. -/
theorem warningCount_between_notes (shadowed : List String) (scraped : List Diagnostic)
    (profiles : Profiles) (unions : Table (List String)) :
    Diagnostic.warningCount (shadowed.map Diagnostic.explicitOverPlan ++ scraped ++
      profiles.unionDiagnostics unions) = Diagnostic.warningCount scraped := by
  simp only [Diagnostic.warningCount, Diagnostic.warnings_append,
    Diagnostic.warnings_map_explicitOverPlan, Profiles.warnings_unionDiagnostics,
    List.nil_append, List.append_nil]

/-! ### All reports -/

/-- Let a resolution succeed. Its reports are, in this order: one note for each open plan that is
also an explicit profile, by name; if some open plan is not explicit, all that one scrape of the
roots reports, and nothing otherwise; and one note for each union that has the name of an explicit
profile or of an open plan, by name. There are as many warnings among them as declarations that are
lost in the sources, and none if the sources are not needed. -/
theorem resolve_diagnostics (hformed : resolver.plans.disk.root.WellFormed)
    (hresolve : resolver.resolve definition = .ok lists) :
    ∃ shadowed scraped replaced,
      lists.diagnostics = shadowed.map Diagnostic.explicitOverPlan ++ scraped ++
        replaced.map Diagnostic.unionOverProfile ∧
      (Ascending shadowed ∧ ∀ name, name ∈ shadowed ↔
        resolver.IsOpenPlan name ∧ name ∈ definition.explicitProfiles.names) ∧
      resolver.SourceReports definition.explicitProfiles.names scraped
        (Diagnostic.warningCount lists.diagnostics) ∧
      Ascending replaced ∧ ∀ name, name ∈ replaced ↔ name ∈ definition.unions.names ∧
        (name ∈ definition.explicitProfiles.names ∨ resolver.IsOpenPlan name) := by
  obtain ⟨based, reports, hplans, rfl⟩ := resolve_eq_ok_iff.mp hresolve
  obtain ⟨names, scraped, hnames, rfl, hscraped⟩ := exists_reports_withPlans hplans
  refine ⟨_, scraped, definition.unions.names.filter based.contains, rfl,
    ⟨ascending_shadowedPlans hformed hnames _, fun name ↦ mem_shadowedPlans_iff hnames⟩, ?_,
    definition.unions.ordered.filter _, fun name ↦ ?_⟩
  · rwa [warningCount_between_notes]
  · rw [List.mem_filter, Table.contains_iff, mem_names_withPlans hplans]

/-! ### Names that stand for several things -/

/-- Two reserved plans, two that refer to a test, and one that refers to nothing. -/
def overlappingPlans : List (String × FileTree) :=
  [("common.yaml", samplePlan "nothing"), ("daily.yaml", samplePlan "io. runs"),
    ("extra.yaml", samplePlan "nothing"), ("nightly.yaml", samplePlan "io. runs"),
    ("smoke.yaml", samplePlan "nothing")]

/-- A source file with a test that is declared twice and a case whose description is computed. -/
def repeatingSource : FileTree :=
  .file (Text.Utf8.encode ("k8stest.InitTesting(t, \"io\", \"io\")\n" ++
    "It(\"runs\", func() \x7b\n" ++ "It(\"runs\", func() \x7b\n" ++ "It(name, func() \x7b\n"))

/-- Where these plans and sources are. -/
def overlappingResolver : Resolver where
  plans := ⟨⟨.directory [("plans", .directory overlappingPlans),
    ("src", .directory [("io", .directory [("io_test.go", repeatingSource)])])], []⟩, "plans"⟩
  suffixes := ["go"]
  roots := ["src"]
  reserved := ["common", "extra"]
  bookends := []

/-- A definition whose names overlap with the plans: a reserved plan is an explicit profile and
another one is a union, `nightly` is a plan and a union, and `smoke` is a plan, an explicit profile
and a union. -/
def overlappingDefinition : ListDefinition where
  explicitProfiles := Table.ofList [("common", none), ("p", some ["a"]), ("smoke", some ["b"])]
  unions := Table.ofList
    [("extra", ["p"]), ("nightly", ["p"]), ("p", ["smoke"]), ("smoke", ["p"]), ("u", ["p"])]
  metadata := ⟨[], [], ∅, []⟩

/-- What is reported on the way. -/
def overlappingReports : List Diagnostic :=
  [.explicitOverPlan "smoke",
    .duplicate "io. runs" ⟨"/src/io/io_test.go", 2, "It(\"runs\", func() \x7b"⟩
      ⟨"/src/io/io_test.go", 3, "It(\"runs\", func() \x7b"⟩,
    .unresolved ⟨"/src/io/io_test.go", 4, "It(name, func() \x7b"⟩,
    .unionOverProfile "nightly", .unionOverProfile "p", .unionOverProfile "smoke"]

theorem wellFormed_overlappingResolver :
    overlappingResolver.plans.disk.root.WellFormed := by
  refine .cons (by decide) (by decide) ?plans (.cons (by decide) (by decide) ?src .empty)
  case plans =>
    refine .directory (by decide) (by decide) ?_
    simp only [overlappingPlans, List.forall_mem_cons]
    exact ⟨.file _, .file _, .file _, .file _, .file _, List.forall_mem_nil _⟩
  case src =>
    exact .cons (by decide) (by decide) (.cons (by decide) (by decide) (.file _) .empty) .empty

/-- The plans stand in order. -/
theorem names_overlappingPlans :
    overlappingResolver.plans.names = .ok ["common", "daily", "extra", "nightly", "smoke"] := by
  have hlocate : overlappingResolver.plans.disk.locate overlappingResolver.plans.path =
      .ok (.directory overlappingPlans) := rfl
  have hnames : overlappingPlans.filterMap PlanDirectory.nameOfEntry =
      ["common", "daily", "extra", "nightly", "smoke"] := by
    decide
  exact hnames ▸ PlanDirectory.names_of_pairwise hlocate (by decide) (by decide)

theorem resolve_overlappingDefinition :
    ∃ lists, overlappingResolver.resolve overlappingDefinition = .ok lists ∧
      lists.diagnostics = overlappingReports := by
  have hrun : (overlappingResolver.resolve overlappingDefinition).toOption.map
      ResolvedLists.diagnostics = some overlappingReports := by
    rw [resolve, withPlans, names_overlappingPlans]
    decide +kernel
  exact exists_eq_ok_of_toOption hrun

/-- The plan `smoke` is the only one under an explicit profile, two plans need the sources, and
their reports are there once: two declarations are lost in them. -/
theorem resolve_diagnostics_overlappingDefinition :
    ∃ lists declarations, overlappingResolver.resolve overlappingDefinition = .ok lists ∧
      lists.diagnostics = overlappingReports ∧
      Source.Declared overlappingResolver.plans.disk ["go"] ["src"] declarations ∧
      Inventory.lostCount declarations = 2 := by
  obtain ⟨lists, hresolve, hreports⟩ := resolve_overlappingDefinition
  obtain ⟨_, scraped, _, _, _, hscraped, _⟩ :=
    resolve_diagnostics wellFormed_overlappingResolver hresolve
  have hdaily : overlappingResolver.IsOpenPlan "daily" :=
    ⟨_, names_overlappingPlans, by decide, by decide⟩
  generalize hcount : Diagnostic.warningCount lists.diagnostics = count at hscraped
  cases hscraped with
  | @scraped _ declarations _ _ hdeclared =>
    refine ⟨lists, declarations, hresolve, hreports, hdeclared, ?_⟩
    rw [← hcount, hreports]
    decide
  | unread hexplicit => exact absurd (hexplicit "daily" hdaily) (by decide)

end Roster.Resolver
