import Mathlib.Data.Set.Subsingleton
import Roster.Proofs.Plan.IncludeGraph
import Roster.Upgrade

/-!
# The release that a plan and its includes agree on

`PlanDirectory.versions` is the set of the releases that a plan names, itself or in a plan that it
reaches through includes. Loading lists the same releases in the order of a visit, once for each
branch on which a plan is met (`PlanDirectory.exists_visits_upgradeVersions`), and the search for
the one release goes through this list.

`PlanDirectory.versionOf_iff` says that the outcome is decided by the set alone: a release is found
when it is the only one, it is missing when there is none, and two of them are a conflict. Branches
that meet in one plan therefore never make a conflict. Only which two releases a conflict names
depends on the order of the visit (`FirstDisagreement`).
-/

set_option autoImplicit false
set_option relaxedAutoImplicit false

namespace Roster

/-! ### One release in a list -/

/-- No release is found where none is listed. -/
theorem oneVersion_eq_missing_iff {plan : String} {versions : List String} :
    oneVersion plan versions = .error (.missing plan) ↔ versions = [] := by
  induction versions with
  | nil => simp [oneVersion]
  | cons first rest ih =>
    cases rest with
    | nil => simp [oneVersion]
    | cons second later =>
      rw [oneVersion]
      split
      · rw [ih]
        simp
      · simp

/-- A release is found where it is listed and no other one is. -/
theorem oneVersion_eq_ok_iff {plan : String} {versions : List String} {version : String} :
    oneVersion plan versions = .ok version ↔
      versions ≠ [] ∧ ∀ other ∈ versions, other = version := by
  induction versions with
  | nil => simp [oneVersion]
  | cons first rest ih =>
    cases rest with
    | nil => simp [oneVersion]
    | cons second later =>
      rw [oneVersion]
      split
      · next hsame =>
        subst hsame
        rw [ih]
        simp
      · next hdiffer =>
        suffices hnone : ¬ (first = version ∧ second = version ∧
            ∀ other ∈ later, other = version) by
          simpa using hnone
        rintro ⟨rfl, rfl, _⟩
        exact hdiffer rfl

/-- A conflict names the first release of a list and the first one behind it that is another one. -/
theorem oneVersion_eq_conflict_iff {plan : String} {versions : List String}
    {first second : String} :
    oneVersion plan versions = .error (.conflict plan first second) ↔
      second ≠ first ∧ ∃ between later, versions = first :: (between ++ second :: later) ∧
        ∀ other ∈ between, other = first := by
  induction versions with
  | nil => simp [oneVersion]
  | cons head rest ih =>
    cases rest with
    | nil => simp [oneVersion]
    | cons next later =>
      rw [oneVersion]
      split
      · next hsame =>
        subst hsame
        rw [ih]
        refine and_congr_right fun hother ↦ ⟨?_, ?_⟩
        · rintro ⟨between, behind, hsplit, hbetween⟩
          obtain ⟨rfl, rfl⟩ := List.cons.inj hsplit
          exact ⟨head :: between, behind, rfl, List.forall_mem_cons.mpr ⟨rfl, hbetween⟩⟩
        · rintro ⟨between, behind, hsplit, hbetween⟩
          obtain ⟨rfl, hrest⟩ := List.cons.inj hsplit
          cases between with
          | nil =>
            obtain ⟨hsecond, _⟩ := List.cons.inj hrest
            exact absurd hsecond.symm hother
          | cons other between =>
            obtain ⟨rfl, rfl⟩ := List.cons.inj hrest
            exact ⟨between, behind, rfl, (List.forall_mem_cons.mp hbetween).2⟩
      · next hdiffer =>
        constructor
        · intro hconflict
          cases hconflict
          exact ⟨Ne.symm hdiffer, [], later, rfl, List.forall_mem_nil _⟩
        · rintro ⟨hother, between, behind, hsplit, hbetween⟩
          obtain ⟨rfl, hrest⟩ := List.cons.inj hsplit
          cases between with
          | nil =>
            obtain ⟨rfl, _⟩ := List.cons.inj hrest
            rfl
          | cons other between =>
            obtain ⟨rfl, _⟩ := List.cons.inj hrest
            exact absurd (hbetween _ List.mem_cons_self).symm hdiffer

/-- A search that fails has met no release, or two. -/
theorem missing_or_conflict_of_oneVersion {plan : String} {versions : List String}
    {fault : UpgradeError} (hfault : oneVersion plan versions = .error fault) :
    fault = .missing plan ∨ ∃ first second, fault = .conflict plan first second := by
  induction versions with
  | nil =>
    cases hfault
    exact .inl rfl
  | cons first rest ih =>
    cases rest with
    | nil => cases hfault
    | cons second later =>
      rw [oneVersion] at hfault
      split at hfault
      · exact ih hfault
      · cases hfault
        exact .inr ⟨first, second, rfl⟩

/-! ### Releases of documents in a row -/

/-- The first document of a row that names a release names the first one, and of the documents
behind it the first one that names another release names the second one. -/
def FirstDisagreement (documents : List PlanDocument) (first second : String) : Prop :=
  second ≠ first ∧ ∃ before opening between other behind,
    documents = before ++ opening :: (between ++ other :: behind) ∧
    (∀ document ∈ before, document.planMeta.upgradeFrom = none) ∧
    opening.planMeta.upgradeFrom = some first ∧
    (∀ document ∈ between, ∀ version, document.planMeta.upgradeFrom = some version →
      version = first) ∧
    other.planMeta.upgradeFrom = some second

/-- The releases that documents in a row name. -/
def versionsOfDocuments (documents : List PlanDocument) : List String :=
  documents.filterMap fun document ↦ document.planMeta.upgradeFrom

/-- The search ends in a conflict where the documents disagree. -/
theorem oneVersion_versionsOfDocuments_eq_conflict_iff {plan first second : String}
    {documents : List PlanDocument} :
    oneVersion plan (versionsOfDocuments documents) = .error (.conflict plan first second) ↔
      FirstDisagreement documents first second := by
  rw [oneVersion_eq_conflict_iff, FirstDisagreement]
  refine and_congr_right fun _ ↦ ⟨?_, ?_⟩
  · rintro ⟨same, later, hversions, hsame⟩
    obtain ⟨before, opening, rest, rfl, hbefore, hopening, hrest⟩ :=
      List.filterMap_eq_cons_iff.mp hversions
    obtain ⟨early, late, rfl, rfl, hlate⟩ := List.filterMap_eq_append_iff.mp hrest
    obtain ⟨silent, other, behind, rfl, hsilent, hother, _⟩ := List.filterMap_eq_cons_iff.mp hlate
    refine ⟨before, opening, early ++ silent, other, behind, by simp, hbefore, hopening, ?_, hother⟩
    intro document hdocument version hversion
    rcases List.mem_append.mp hdocument with hearly | hlater
    · exact hsame version (List.mem_filterMap.mpr ⟨document, hearly, hversion⟩)
    · rw [hsilent document hlater] at hversion
      cases hversion
  · rintro ⟨before, opening, between, other, behind, rfl, hbefore, hopening, hbetween, hother⟩
    refine ⟨versionsOfDocuments between, versionsOfDocuments behind, ?_, ?_⟩
    · have hnone : versionsOfDocuments before = [] :=
        List.filterMap_eq_nil_iff.mpr hbefore
      simp only [versionsOfDocuments] at hnone ⊢
      simp only [List.filterMap_append, hnone, List.filterMap_cons, hopening, hother,
        List.nil_append]
    · intro version hversion
      obtain ⟨document, hdocument, hnamed⟩ := List.mem_filterMap.mp hversion
      exact hbetween document hdocument version hnamed

namespace PlanDirectory

open Relation

variable {plans : PlanDirectory} {name : String}

/-! ### Releases of the plans that are reached -/

/-- The releases that a plan names, itself or in a plan that it reaches through includes. -/
def versions (plans : PlanDirectory) (name : String) : Set String :=
  { version | ∃ reached document, ReflTransGen plans.Includes name reached ∧
    plans.read reached = .ok document ∧ document.planMeta.upgradeFrom = some version }

/-- A visit of some plans meets the documents of the plans that they reach, and no others. -/
theorem Visits.mem_iff {names : List String} {documents : List PlanDocument}
    (hvisits : plans.Visits names documents) {document : PlanDocument} :
    document ∈ documents ↔ ∃ name ∈ names, ∃ reached,
      ReflTransGen plans.Includes name reached ∧ plans.read reached = .ok document := by
  induction hvisits with
  | none => simp
  | @plan name rest first included others hread _ _ ihincluded ihothers =>
    -- A plan reaches itself, and otherwise what one of its includes reaches.
    have hreached (reached : String) : ReflTransGen plans.Includes name reached ↔
        reached = name ∨
          ∃ below ∈ first.planMeta.includes, ReflTransGen plans.Includes below reached := by
      rw [ReflTransGen.cases_head_iff, eq_comm]
      refine or_congr_right (exists_congr fun below ↦ and_congr_left fun _ ↦ ⟨?_, ?_⟩)
      · rintro ⟨other, hother, hmem⟩
        rw [hread] at hother
        cases hother
        exact hmem
      · exact fun hmem ↦ ⟨first, hread, hmem⟩
    rw [List.cons_append, List.mem_cons, List.mem_append, ihincluded, ihothers]
    simp only [List.exists_mem_cons_iff, hreached]
    constructor
    · rintro (rfl | ⟨below, hbelow, reached, hreach, hfound⟩ | hrest)
      · exact .inl ⟨name, .inl rfl, hread⟩
      · exact .inl ⟨reached, .inr ⟨below, hbelow, hreach⟩, hfound⟩
      · exact .inr hrest
    · rintro (⟨reached, hsame | ⟨below, hbelow, hreach⟩, hfound⟩ | hrest)
      · rw [hsame, hread] at hfound
        exact .inl (Except.ok.inj hfound).symm
      · exact .inr (.inl ⟨below, hbelow, reached, hreach, hfound⟩)
      · exact .inr (.inr hrest)

/-- A plan that loads lists the releases of the documents of a visit, in their order. -/
theorem exists_visits_upgradeVersions {plan : LoadedPlan} (hload : plans.load name = .ok plan) :
    ∃ documents, plans.Visits [name] documents ∧
      plan.upgradeVersions = versionsOfDocuments documents := by
  obtain ⟨documents, hfound, rfl⟩ := load_eq_ok_iff.mp hload
  refine ⟨documents, visits_of_findings hfound, ?_⟩
  rw [LoadedPlan.upgradeVersions, LoadedPlan.metas_ofDocuments, List.filterMap_map]
  rfl

/-- The releases that a visit lists are those of the plans that are reached. -/
theorem mem_versions_iff {documents : List PlanDocument} (hvisits : plans.Visits [name] documents)
    {version : String} :
    version ∈ plans.versions name ↔ version ∈ versionsOfDocuments documents := by
  simp only [versions, Set.mem_ofPred_eq, versionsOfDocuments, List.mem_filterMap, hvisits.mem_iff,
    List.mem_singleton, exists_eq_left]
  constructor
  · rintro ⟨reached, document, hreach, hread, hversion⟩
    exact ⟨document, ⟨reached, hreach, hread⟩, hversion⟩
  · rintro ⟨document, ⟨reached, hreach, hread⟩, hversion⟩
    exact ⟨reached, document, hreach, hread, hversion⟩

/-- The release of a plan that loads is found exactly when it is the only one among the plans that
are reached, and it is missing exactly when there is none. Two of them are a conflict, which names
the first release on a visit and the first one behind it that is another one. The test cases of the
plan have no part in it. -/
theorem versionOf_iff {named : NamedPlan} (hload : plans.load name = .ok named.plan) :
    (∀ version, named.versionOf = .ok version ↔ plans.versions name = {version}) ∧
    (named.versionOf = .error (.missing named.name) ↔ plans.versions name = ∅) ∧
    ((∃ first second, named.versionOf = .error (.conflict named.name first second)) ↔
      (plans.versions name).Nontrivial) ∧
    (∃ documents, plans.Visits [name] documents ∧ ∀ first second,
      named.versionOf = .error (.conflict named.name first second) ↔
        FirstDisagreement documents first second) ∧
    ∀ testcases, NamedPlan.versionOf ⟨named.name, testcases, named.plan.metas⟩ =
      named.versionOf := by
  obtain ⟨documents, hvisits, hversions⟩ := exists_visits_upgradeVersions hload
  have hmem (version : String) : version ∈ plans.versions name ↔
      version ∈ versionsOfDocuments documents := mem_versions_iff hvisits
  have hsearch : named.versionOf = oneVersion named.name (versionsOfDocuments documents) := by
    rw [NamedPlan.versionOf, hversions]
  have hok (version : String) :
      named.versionOf = .ok version ↔ plans.versions name = {version} := by
    have hsome : versionsOfDocuments documents ≠ [] ↔ (plans.versions name).Nonempty := by
      refine ⟨fun hlisted ↦ ?_, ?_⟩
      · obtain ⟨other, hother⟩ := List.exists_mem_of_ne_nil _ hlisted
        exact ⟨other, (hmem other).mpr hother⟩
      · rintro ⟨other, hother⟩
        exact List.ne_nil_of_mem ((hmem other).mp hother)
    rw [hsearch, oneVersion_eq_ok_iff, Set.eq_singleton_iff_nonempty_unique_mem, hsome]
    simp only [hmem]
  have hmissing : named.versionOf = .error (.missing named.name) ↔ plans.versions name = ∅ := by
    rw [hsearch, oneVersion_eq_missing_iff, Set.eq_empty_iff_forall_notMem,
      List.eq_nil_iff_forall_not_mem]
    simp only [hmem]
  have hconflict (first second : String) :
      named.versionOf = .error (.conflict named.name first second) ↔
        FirstDisagreement documents first second := by
    rw [hsearch, oneVersion_versionsOfDocuments_eq_conflict_iff]
  refine ⟨hok, hmissing, ⟨?_, fun hseveral ↦ ?_⟩, ⟨documents, hvisits, hconflict⟩, fun _ ↦ rfl⟩
  · rintro ⟨first, second, hfault⟩
    rw [hsearch, oneVersion_eq_conflict_iff] at hfault
    obtain ⟨hother, between, later, hlisted, _⟩ := hfault
    refine ⟨first, ?_, second, ?_, hother.symm⟩ <;> rw [hmem, hlisted] <;> simp
  · -- The search ends in one of three ways, and two of them leave no room for two releases.
    cases hfound : named.versionOf with
    | ok version =>
      rw [(hok version).mp hfound] at hseveral
      exact absurd hseveral Set.not_nontrivial_singleton
    | error fault =>
      rcases missing_or_conflict_of_oneVersion (hsearch.symm.trans hfound) with rfl | hconflicting
      · rw [hmissing.mp hfound] at hseveral
        exact absurd hseveral Set.not_nontrivial_empty
      · obtain ⟨first, second, rfl⟩ := hconflicting
        exact ⟨first, second, rfl⟩

/-! ### Branches that meet -/

/-- A plan document with some includes and a release. -/
def releaseDocument (includes release : String) : FileTree :=
  .file (Text.Utf8.encode
    ("meta:\n  include: [" ++ includes ++ "]\n  upgrade-from-version: " ++ release ++ "\n"))

/-- A plan `meet` without a release of its own whose two branches meet in `base`, and a plan `split`
that has a branch with another release between them. -/
def branchingPlans : PlanDirectory where
  disk := ⟨.directory [("base.yaml", releaseDocument "" "'1'"),
    ("left.yaml", releaseDocument "base" "'1'"), ("meet.yaml", releaseDocument "left, base" "~"),
    ("other.yaml", releaseDocument "base" "'2'"),
    ("split.yaml", releaseDocument "left, other, left" "~")], []⟩
  path := ⟨""⟩

/-- The outcomes for the two plans. -/
theorem versionOf_branchingPlans :
    (∃ meeting, branchingPlans.load "meet" = .ok meeting ∧
      NamedPlan.versionOf ⟨"meet", meeting⟩ = .ok "1") ∧
    ∃ splitting, branchingPlans.load "split" = .ok splitting ∧
      NamedPlan.versionOf ⟨"split", splitting⟩ = .error (.conflict "split" "1" "2") := by
  have hruns : (branchingPlans.load "meet").toOption.map
        (fun plan ↦ NamedPlan.versionOf ⟨"meet", plan⟩) = some (.ok "1") ∧
      (branchingPlans.load "split").toOption.map
        (fun plan ↦ NamedPlan.versionOf ⟨"split", plan⟩) =
          some (.error (.conflict "split" "1" "2")) := by
    decide +kernel
  exact ⟨exists_eq_ok_of_toOption hruns.1, exists_eq_ok_of_toOption hruns.2⟩

/-- The plan whose branches meet has the release of `base` on both of them and names it. The other
one reaches two releases, and the conflict names that of its first branch before that of its second
one, although the first branch comes again behind it. -/
theorem versionOf_iff_branchingPlans :
    branchingPlans.versions "meet" = {"1"} ∧ (branchingPlans.versions "split").Nontrivial ∧
      ∃ documents, branchingPlans.Visits ["split"] documents ∧
        FirstDisagreement documents "1" "2" := by
  obtain ⟨⟨meeting, hmeeting, hfound⟩, splitting, hsplitting, hconflict⟩ := versionOf_branchingPlans
  have hmeet : branchingPlans.load "meet" = .ok (NamedPlan.mk "meet" meeting).plan := hmeeting
  have hsplit : branchingPlans.load "split" = .ok (NamedPlan.mk "split" splitting).plan :=
    hsplitting
  obtain ⟨hfinds, _⟩ := versionOf_iff hmeet
  obtain ⟨_, _, hseveral, ⟨documents, hvisits, hnames⟩, _⟩ := versionOf_iff hsplit
  exact ⟨(hfinds "1").mp hfound, hseveral.mp ⟨"1", "2", hconflict⟩, documents, hvisits,
    (hnames "1" "2").mp hconflict⟩

end PlanDirectory

end Roster
