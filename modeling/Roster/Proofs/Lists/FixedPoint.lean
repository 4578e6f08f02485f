import Roster.Proofs.Lists.Repetition
import Roster.Proofs.Lists.UpgradeLookup

/-!
# Resolved profiles resolve to themselves

The profiles of a resolution may be written down as explicit ones, without unions and with the same
metadata (`ListDefinition.ofResolved`). A resolution of that definition finds nothing to do and
gives the same profiles, if primary tests have no commas and groupings have dependents.

The reason is that groupings leave no primary test behind
(`Grouping.primary_not_mem_collapseAll`): a grouping takes its primary test out of the list, and all
that groupings put in are composites, which have commas. Where no primary test is in a list,
groupings do nothing (`Grouping.collapseAll_of_absent`). Beside this, no plan needs a profile any
more, since all have one, and the profile of all tests is made of the same lists as before
(`Resolver.withAll_profiles`). `Resolver.resolve_ofResolved` is the outcome.
-/

set_option autoImplicit false
set_option relaxedAutoImplicit false

namespace Roster

/-! ### Lists without primary tests -/

namespace Grouping

variable {grouping : Grouping} {groupings : List Grouping} {list : List String}

/-- Groupings leave no primary test behind that has no comma and belongs to a grouping with
dependents. It would have been in the list when the turn of its grouping came, since the groupings
behind that one add composites only, and that one takes it up. -/
theorem primary_not_mem_collapseAll (hgrouping : grouping ∈ groupings)
    (hprimary : CommaFree grouping.primary) (hdependents : grouping.dependents ≠ []) :
    grouping.primary ∉ collapseAll groupings list := by
  intro hmem
  obtain ⟨earlier, later, rfl⟩ := List.append_of_mem hgrouping
  rw [collapseAll_append, collapseAll_cons] at hmem
  have hturn : grouping.primary ∈ grouping.collapse (collapseAll earlier list) :=
    ((mem_collapseAll_iff_of_commaFree hprimary).mp hmem).1
  obtain ⟨hbefore, hkept⟩ := (mem_collapse_iff_of_commaFree hprimary).mp hturn
  have htaken : grouping.TakesUp (collapseAll earlier list) grouping.primary :=
    ⟨hbefore, hdependents, List.mem_cons_self⟩
  exact hkept htaken

/-- A list without primary tests does not change. -/
theorem collapseAll_of_absent (habsent : ∀ grouping ∈ groupings, grouping.primary ∉ list) :
    collapseAll groupings list = list := by
  induction groupings with
  | nil => rfl
  | cons grouping rest ih =>
    obtain ⟨hfirst, hrest⟩ := List.forall_mem_cons.mp habsent
    rw [collapseAll_cons, collapse_of_not_mem hfirst, ih hrest]

end Grouping

/-! ### Profiles written down again -/

/-- The definition that lists the profiles of a resolution explicitly and has no unions. -/
def ListDefinition.ofResolved (lists : ResolvedLists) (metadata : ListMetadata) :
    ListDefinition where
  explicitProfiles := lists.profiles.map some
  unions := ∅
  metadata := metadata

/-- Without unions the profiles stay as they are. -/
theorem Profiles.withUnions_empty (profiles : Profiles) : profiles.withUnions ∅ = profiles :=
  rfl

namespace Resolver

variable {resolver : Resolver} {definition : ListDefinition} {lists : ResolvedLists}

/-- Every entry of a resolution, in `ALL` too, is one that the groupings left in some list. -/
theorem exists_mem_collapseAll (hresolve : resolver.resolve definition = .ok lists)
    {name : String} {tests : List String} (htests : lists.members name = some tests)
    {test : String} (htest : test ∈ tests) :
    ∃ base, test ∈ Grouping.collapseAll definition.metadata.groupings base := by
  by_cases hall : name = Profiles.allName
  · rw [hall] at htests
    obtain ⟨_, _, base, _, hmem⟩ := (mem_members_allName_iff hresolve htests).mp htest
    exact ⟨base, hmem⟩
  · obtain ⟨base, _, rfl⟩ := (members_eq_some_iff hresolve hall).mp htests
    exact ⟨base, htest⟩

/-- Groupings that apply to the profiles of a resolution once more do nothing. -/
theorem collapse_profiles (hresolve : resolver.resolve definition = .ok lists)
    (hprimaries : ∀ grouping ∈ definition.metadata.groupings, CommaFree grouping.primary)
    (hdependents : ∀ grouping ∈ definition.metadata.groupings, grouping.dependents ≠ []) :
    lists.profiles.collapse definition.metadata.groupings = lists.profiles := by
  apply Table.ext_get?
  intro name
  rw [Profiles.get?_collapse]
  cases htests : lists.profiles.get? name with
  | none => rfl
  | some tests =>
    have habsent : ∀ grouping ∈ definition.metadata.groupings, grouping.primary ∉ tests := by
      intro grouping hgrouping hmem
      obtain ⟨base, hleft⟩ := exists_mem_collapseAll hresolve htests hmem
      exact Grouping.primary_not_mem_collapseAll hgrouping (hprimaries grouping hgrouping)
        (hdependents grouping hgrouping) hleft
    rw [Option.map_some, Grouping.collapseAll_of_absent habsent]

/-- The profile of all tests, made once more of the profiles of a resolution, is the one that they
have. -/
theorem withAll_profiles (hresolve : resolver.resolve definition = .ok lists) :
    lists.profiles.withAll = lists.profiles := by
  apply Table.ext_get?
  intro name
  rw [Profiles.get?_withAll]
  by_cases hname : name = Profiles.allName
  · obtain ⟨all, hall, hascending, hmem⟩ := exists_members_allName hresolve
    have hsame : lists.profiles.union lists.profiles.namesBelowAll = all := by
      apply (Profiles.union_ascending _ _).eq_of_mem_iff hascending
      intro test
      rw [Profiles.mem_union_namesBelowAll, hmem]
      rfl
    rw [if_pos hname, hsame, hname]
    exact hall.symm
  · rw [if_neg hname]

/-- Read as explicit profiles, the profiles of a resolution stay as they are, since they repeat
nothing. -/
theorem explicitProfiles_profiles (hresolve : resolver.resolve definition = .ok lists) :
    explicitProfiles (lists.profiles.map some) = lists.profiles := by
  apply Table.ext_get?
  intro name
  rw [get?_explicitProfiles, Table.get?_map, Option.map_map]
  cases htests : lists.profiles.get? name with
  | none => rfl
  | some tests =>
    have hdistinct : tests.Nodup := members_nodup hresolve htests
    exact congrArg some (eraseDups_of_nodup hdistinct)

/-- All plans have a profile in a resolution, so that none needs one any more. -/
theorem pendingPlans_profiles (hresolve : resolver.resolve definition = .ok lists)
    {names : List String} (hnames : resolver.plans.names = .ok names) :
    resolver.pendingPlans lists.profiles names = [] := by
  rw [List.eq_nil_iff_forall_not_mem]
  intro name hpending
  obtain ⟨hopen, habsent⟩ := mem_pendingPlans.mp hpending
  have hplan : resolver.IsOpenPlan name := (mem_openPlans_iff hnames).mp hopen
  exact habsent ((mem_names_of_resolve hresolve).mpr (.inr (.inl hplan)))

/-- Let primary tests have no commas and groupings have dependents. The profiles of a resolution,
written down explicitly, without unions and with the same metadata, can be resolved in the same
place, and what comes out are the same profiles. -/
theorem resolve_ofResolved (hresolve : resolver.resolve definition = .ok lists)
    (hprimaries : ∀ grouping ∈ definition.metadata.groupings, CommaFree grouping.primary)
    (hdependents : ∀ grouping ∈ definition.metadata.groupings, grouping.dependents ≠ []) :
    ∃ again, resolver.resolve (.ofResolved lists definition.metadata) = .ok again ∧
      again.profiles = lists.profiles := by
  obtain ⟨based, reports, hplans, _⟩ := resolve_eq_ok_iff.mp hresolve
  obtain ⟨names, hnames, _⟩ := withPlans_eq_ok hplans
  have hagain : resolver.withPlans (explicitProfiles (lists.profiles.map some)) =
      .ok (lists.profiles,
        (resolver.shadowedPlans lists.profiles names).map Diagnostic.explicitOverPlan) := by
    rw [explicitProfiles_profiles hresolve]
    exact withPlans_of_pendingPlans_eq_nil hnames (pendingPlans_profiles hresolve hnames)
  refine ⟨_, resolve_eq_ok_iff.mpr ⟨_, _, hagain, rfl⟩, ?_⟩
  calc ((lists.profiles.withUnions ∅).collapse definition.metadata.groupings).withAll
      = (lists.profiles.collapse definition.metadata.groupings).withAll := by
        rw [Profiles.withUnions_empty]
    _ = lists.profiles.withAll := by rw [collapse_profiles hresolve hprimaries hdependents]
    _ = lists.profiles := withAll_profiles hresolve

/-! ### A definition with plans, unions and two groupings -/

/-- The sample with groupings whose primary tests have no commas. The second one takes up a
dependent of the first one. -/
def settledDefinition : ListDefinition :=
  { sampleDefinition with metadata := ⟨[⟨"a", ["b"]⟩, ⟨"io", ["stale", "b"]⟩], ["ALL"], ∅, []⟩ }

/-- The outcome. -/
theorem resolve_settled :
    ∃ lists, sampleResolver.resolve settledDefinition = .ok lists ∧
      lists.profiles.entries =
        [("ALL", ["a,b", "install", "io,stale,b"]), ("idle", []),
          ("m", ["install", "a,b", "io,stale,b"]), ("nightly", ["io,stale,b"]), ("p", ["a,b"]),
          ("smoke", ["a,b"])] := by
  have hrun : (sampleResolver.resolve settledDefinition).toOption.map
      (fun lists ↦ lists.profiles.entries) =
        some [("ALL", ["a,b", "install", "io,stale,b"]), ("idle", []),
          ("m", ["install", "a,b", "io,stale,b"]), ("nightly", ["io,stale,b"]), ("p", ["a,b"]),
          ("smoke", ["a,b"])] := by
    rw [resolve, withPlans, names_samplePlans]
    decide +kernel
  exact exists_eq_ok_of_toOption hrun

/-- The six profiles of the sample, one of which is a plan and three of which are unions, come out
of their own resolution as they went in. -/
theorem resolve_ofResolved_settled :
    ∃ lists again, sampleResolver.resolve settledDefinition = .ok lists ∧
      sampleResolver.resolve (.ofResolved lists settledDefinition.metadata) = .ok again ∧
      again.profiles.entries =
        [("ALL", ["a,b", "install", "io,stale,b"]), ("idle", []),
          ("m", ["install", "a,b", "io,stale,b"]), ("nightly", ["io,stale,b"]), ("p", ["a,b"]),
          ("smoke", ["a,b"])] := by
  obtain ⟨lists, hresolve, hentries⟩ := resolve_settled
  obtain ⟨again, hagain, hsame⟩ := resolve_ofResolved hresolve (by decide) (by decide)
  exact ⟨lists, again, hresolve, hagain, by rw [hsame, hentries]⟩

end Resolver

end Roster
