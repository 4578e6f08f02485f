import Mathlib.Data.List.Chain
import Mathlib.Data.List.Nodup
import Mathlib.Data.List.Perm.Subperm
import Mathlib.Logic.Relation
import Roster.Proofs.Plan.IncludeOrder

/-!
# Which plans can be loaded

The plans of a directory and what they include form a graph (`PlanDirectory.Includes`), told apart
by the spelling of their names. Loading a plan always ends: each call that loading makes is smaller
than the one that makes it (`PlanDirectory.wellFounded_calls`), since a name of the chain does not
enter it again and the names that files include are finitely many. The same two facts bound the
chain (`PlanDirectory.length_chain_le`).

A plan can be loaded exactly when every plan that it reaches can be read and none of them reaches
itself. In one direction a visit has finitely many documents, and a plan below another one has fewer
of them, so that it cannot be that plan again (`PlanDirectory.Visits.not_transGen_includes`). In the
other direction the chain holds plans that reach the one being loaded, so that the check of the
chain passes where nothing reaches itself (`PlanDirectory.exists_loadBelow_eq_ok`).

A cycle that is reported is one: a walk along the includes that starts with the plan asked for, and
that comes back to one of its plans with its last step and not before
(`PlanDirectory.loadBelow_eq_includeCycle`). `PlanDirectory.load_reports_cycles` puts this together.
-/

set_option autoImplicit false
set_option relaxedAutoImplicit false

namespace Roster.PlanDirectory

open Relation

/-! ### The graph of plans -/

/-- The document of a plan can be read. -/
def Readable (plans : PlanDirectory) (name : String) : Prop :=
  ∃ document, plans.read name = .ok document

/-- The document of the first plan lists the second one among its includes. -/
def Includes (plans : PlanDirectory) (name included : String) : Prop :=
  ∃ document, plans.read name = .ok document ∧ included ∈ document.planMeta.includes

/-- Loading the second plan below its chain loads the first one below the chain before it. -/
inductive Calls (plans : PlanDirectory) : List String × String → List String × String → Prop
  /-- The plan is not in the chain and can be read, so that each plan that it includes is loaded. -/
  | included {chain : List String} {name included : String} (hfresh : name ∉ chain)
      (hincludes : plans.Includes name included) :
      Calls plans (chain ++ [name], included) (chain, name)

variable {plans : PlanDirectory} {chain : List String} {name : String}

theorem nodup_concat_of_not_mem (hdistinct : chain.Nodup) (hfresh : name ∉ chain) :
    (chain ++ [name]).Nodup := by
  rw [← List.concat_eq_append, List.nodup_concat]
  exact ⟨hfresh, hdistinct⟩

/-- Loading a plan ends: the calls that it makes, those that they make, and so on come to an end. -/
theorem wellFounded_calls (plans : PlanDirectory) : WellFounded plans.Calls := by
  have hsmaller : Subrelation plans.Calls
      (measure fun call : List String × String ↦ plans.remaining call.1 call.2).rel := by
    rintro _ _ ⟨hfresh, document, hread, hmem⟩
    exact remaining_lt hfresh (includes_includable hread _ hmem)
  exact hsmaller.wf (measure _).wf

/-- What is known of a call that loading a plan makes, directly or through others: the names of its
chain are distinct, and apart from the plan asked for all names stand in include lists. -/
theorem known_of_calls {requested : String} {call : List String × String}
    (hcalls : ReflTransGen (fun outer inner ↦ plans.Calls inner outer) ([], requested) call) :
    call.1.Nodup ∧ (∀ earlier ∈ call.1, earlier ∈ requested :: plans.includable) ∧
      call.2 ∈ requested :: plans.includable := by
  induction hcalls with
  | refl => exact ⟨List.nodup_nil, by simp, List.mem_cons_self⟩
  | tail _ hcall ih =>
    obtain @⟨chain, name, included, hfresh, document, hread, hmem⟩ := hcall
    obtain ⟨hdistinct, hchain, hname⟩ := ih
    refine ⟨?_, ?_, List.mem_cons_of_mem _ (includes_includable hread included hmem)⟩
    · exact nodup_concat_of_not_mem hdistinct hfresh
    · intro earlier hearlier
      rcases List.mem_append.mp hearlier with hbefore | hlast
      · exact hchain earlier hbefore
      · rwa [List.mem_singleton.mp hlast]

/-- The chain gets no longer than the include lists of all files together, and the plan asked for.
-/
theorem length_chain_le {requested : String} {call : List String × String}
    (hcalls : ReflTransGen (fun outer inner ↦ plans.Calls inner outer) ([], requested) call) :
    call.1.length ≤ plans.includable.length + 1 := by
  obtain ⟨hdistinct, hchain, _⟩ := known_of_calls hcalls
  exact (List.subperm_of_subset hdistinct hchain).length_le

/-! ### Plans that load -/

/-- There is one list of documents that a visit meets. -/
theorem Visits.unique {names : List String} {first second : List PlanDocument}
    (hfirst : plans.Visits names first) (hsecond : plans.Visits names second) : first = second := by
  induction hfirst generalizing second with
  | none =>
    cases hsecond
    rfl
  | plan hread _ _ ihincluded ihothers =>
    cases hsecond with
    | plan hother hincluded hothers =>
      rw [hread] at hother
      cases hother
      rw [ihincluded hincluded, ihothers hothers]

/-- Each plan that is visited meets some of the documents. -/
theorem Visits.exists_of_mem {names : List String} {documents : List PlanDocument}
    (hvisits : plans.Visits names documents) (hmem : name ∈ names) :
    ∃ found, plans.Visits [name] found ∧ found.length ≤ documents.length := by
  induction hvisits with
  | none => cases hmem
  | @plan first rest document included others hread hincluded _ _ ih =>
    rcases List.mem_cons.mp hmem with rfl | hrest
    · refine ⟨document :: included ++ [], .plan hread hincluded .none, ?_⟩
      simp
    · obtain ⟨found, hfound, hlength⟩ := ih hrest
      refine ⟨found, hfound, ?_⟩
      simp only [List.length_append, List.length_cons]
      omega

/-- A plan that is visited can be read. -/
theorem Visits.readable {documents : List PlanDocument}
    (hvisits : plans.Visits [name] documents) : plans.Readable name := by
  cases hvisits with
  | plan hread => exact ⟨_, hread⟩

/-- A plan below a visited one is visited with fewer documents. -/
theorem Visits.exists_of_includes {included : String} {documents : List PlanDocument}
    (hvisits : plans.Visits [name] documents) (hincludes : plans.Includes name included) :
    ∃ found, plans.Visits [included] found ∧ found.length < documents.length := by
  obtain ⟨document, hread, hmem⟩ := hincludes
  cases hvisits with
  | plan hother hincluded hothers =>
    rw [hread] at hother
    cases hother
    obtain ⟨found, hfound, hlength⟩ := hincluded.exists_of_mem hmem
    refine ⟨found, hfound, ?_⟩
    simp only [List.length_append, List.length_cons]
    omega

/-- A plan further below is visited with fewer documents as well. -/
theorem Visits.exists_of_transGen {reached : String} {documents : List PlanDocument}
    (hvisits : plans.Visits [name] documents) (hreach : TransGen plans.Includes name reached) :
    ∃ found, plans.Visits [reached] found ∧ found.length < documents.length := by
  induction hreach with
  | single hincludes => exact hvisits.exists_of_includes hincludes
  | tail _ hincludes ih =>
    obtain ⟨between, hbetween, hlength⟩ := ih
    obtain ⟨found, hfound, hless⟩ := hbetween.exists_of_includes hincludes
    exact ⟨found, hfound, Nat.lt_trans hless hlength⟩

/-- A plan that is visited does not reach itself. -/
theorem Visits.not_transGen_includes {documents : List PlanDocument}
    (hvisits : plans.Visits [name] documents) : ¬ TransGen plans.Includes name name := by
  intro hreach
  obtain ⟨found, hfound, hless⟩ := hvisits.exists_of_transGen hreach
  rw [hfound.unique hvisits] at hless
  exact absurd hless (Nat.lt_irrefl _)

/-- All that a visited plan reaches is visited. -/
theorem Visits.exists_of_reflTransGen {reached : String} {documents : List PlanDocument}
    (hvisits : plans.Visits [name] documents) (hreach : ReflTransGen plans.Includes name reached) :
    ∃ found, plans.Visits [reached] found := by
  rcases reflTransGen_iff_eq_or_transGen.mp hreach with rfl | hbelow
  · exact ⟨documents, hvisits⟩
  · obtain ⟨found, hfound, _⟩ := hvisits.exists_of_transGen hbelow
    exact ⟨found, hfound⟩

/-- Below a chain of plans that reach it, a plan loads if all that it reaches can be read and does
not reach itself. -/
theorem exists_loadBelow_eq_ok (hchain : ∀ earlier ∈ chain, TransGen plans.Includes earlier name)
    (hreached : ∀ reached, ReflTransGen plans.Includes name reached →
      plans.Readable reached ∧ ¬ TransGen plans.Includes reached reached) :
    ∃ plan, plans.loadBelow chain name = .ok plan := by
  induction chain, name using loadBelow.induct plans with
  | case1 chain name hmem => exact absurd (hchain name hmem) (hreached name .refl).2
  | case2 chain name _ fault hread =>
    obtain ⟨document, hdocument⟩ := (hreached name .refl).1
    rw [hread] at hdocument
    cases hdocument
  | case3 chain name hfresh document hread ih =>
    have hincluded : ∀ included ∈ document.planMeta.includes,
        ∃ plan, plans.loadBelow (chain ++ [name]) included = .ok plan := by
      intro included hmem
      have hincludes : plans.Includes name included := ⟨document, hread, hmem⟩
      refine ih ⟨included, hmem⟩ (fun earlier hearlier ↦ ?_) fun reached hreach ↦ ?_
      · rcases List.mem_append.mp hearlier with hbefore | hlast
        · exact (hchain earlier hbefore).tail hincludes
        · rw [List.mem_singleton.mp hlast]
          exact .single hincludes
      · exact hreached reached (hreach.head hincludes)
    obtain ⟨included, hloaded⟩ := exists_mapM_eq_ok hincluded
    rw [loadBelow_of_ok hfresh hread, hloaded]
    exact ⟨_, rfl⟩

/-! ### Cycles that are reported -/

/-- Reading one document reports no cycle. -/
theorem read_ne_includeCycle (plans : PlanDirectory) (name : String) (cycle : List String) :
    plans.read name ≠ .error (.includeCycle cycle) := by
  simp only [read]
  split
  · split
    · simp
    · split <;> simp
  · simp

/-- Below a chain without repetitions in which each plan includes the next one, the cycle that is
reported goes on from this chain. Its last plan is the first one that it has twice. -/
theorem loadBelow_eq_includeCycle {cycle : List String} (hdistinct : chain.Nodup)
    (hlinked : (chain ++ [name]).IsChain plans.Includes)
    (hfault : plans.loadBelow chain name = .error (.includeCycle cycle)) :
    (chain ++ [name]) <+: cycle ∧ cycle.IsChain plans.Includes ∧
      ∃ front last, cycle = front ++ [last] ∧ front.Nodup ∧ last ∈ front := by
  induction chain, name using loadBelow.induct plans with
  | case1 chain name hmem =>
    rw [loadBelow_of_mem hmem] at hfault
    cases hfault
    exact ⟨List.prefix_rfl, hlinked, chain, name, rfl, hdistinct, hmem⟩
  | case2 chain name hfresh fault hread =>
    rw [loadBelow_of_error hfresh hread] at hfault
    cases hfault
    exact absurd hread (read_ne_includeCycle plans name cycle)
  | case3 chain name hfresh document hread ih =>
    rw [loadBelow_of_ok hfresh hread, map_eq_error_iff] at hfault
    obtain ⟨included, hmem, hincluded⟩ := exists_of_mapM_eq_error hfault
    have hlonger : (chain ++ [name]).Nodup := nodup_concat_of_not_mem hdistinct hfresh
    have hnext : (chain ++ [name] ++ [included]).IsChain plans.Includes := by
      rw [List.append_assoc]
      exact List.isChain_append_cons_cons.mpr
        ⟨hlinked, ⟨document, hread, hmem⟩, List.isChain_singleton _⟩
    obtain ⟨hbegins, hcycle⟩ := ih ⟨included, hmem⟩ hlonger hnext hincluded
    exact ⟨(List.prefix_append _ _).trans hbegins, hcycle⟩

/-- Loading a plan ends, with a chain that is bounded by the include lists of the files. It succeeds
exactly when every plan that is reached can be read and does not reach itself. A cycle that it
reports starts with the plan and follows the includes, and its last plan is in it before while the
others are distinct. -/
theorem load_reports_cycles (plans : PlanDirectory) (name : String) :
    (WellFounded plans.Calls ∧
      ∀ call, ReflTransGen (fun outer inner ↦ plans.Calls inner outer) ([], name) call →
        call.1.length ≤ plans.includable.length + 1) ∧
    ((∃ plan, plans.load name = .ok plan) ↔
      ∀ reached, ReflTransGen plans.Includes name reached →
        plans.Readable reached ∧ ¬ TransGen plans.Includes reached reached) ∧
    ∀ cycle, plans.load name = .error (.includeCycle cycle) →
      cycle.head? = some name ∧ cycle.IsChain plans.Includes ∧
        ∃ front last, cycle = front ++ [last] ∧ front.Nodup ∧ last ∈ front := by
  refine ⟨⟨wellFounded_calls plans, fun call ↦ length_chain_le⟩, ⟨?_, fun hreached ↦ ?_⟩,
    fun cycle hfault ↦ ?_⟩
  · rintro ⟨plan, hplan⟩ reached hreach
    obtain ⟨documents, hvisits⟩ := exists_visits_of_load hplan
    obtain ⟨found, hfound⟩ := hvisits.exists_of_reflTransGen hreach
    exact ⟨hfound.readable, hfound.not_transGen_includes⟩
  · exact exists_loadBelow_eq_ok (fun _ hearlier ↦ absurd hearlier List.not_mem_nil) hreached
  · obtain ⟨⟨rest, rfl⟩, hcycle⟩ :=
      loadBelow_eq_includeCycle List.nodup_nil (List.isChain_singleton name) hfault
    exact ⟨rfl, hcycle⟩

/-! ### A plan that includes itself under another spelling -/

/-- One plan, which includes its own file as `./loop`. -/
def spelledLoop : PlanDirectory where
  disk := ⟨.directory
    [("loop.yaml", .file (Text.Utf8.encode "meta: \x7binclude: [./loop]\x7d"))], []⟩
  path := ⟨""⟩

/-- The other spelling is loaded once before it is met again. -/
theorem load_spelledLoop :
    spelledLoop.load "loop" = .error (.includeCycle ["loop", "./loop", "./loop"]) := by
  have hcycle : (match spelledLoop.load "loop" with
      | .error (.includeCycle cycle) => some cycle
      | _ => none) = some ["loop", "./loop", "./loop"] := by
    decide +kernel
  split at hcycle
  · next cycle hload => rw [hload, Option.some.inj hcycle]
  · cases hcycle

/-- The cycle of the plan starts with the name asked for and comes back to the other spelling, and
some plan that it reaches cannot be read or reaches itself. -/
theorem load_reports_cycles_spelledLoop :
    ["loop", "./loop", "./loop"].IsChain spelledLoop.Includes ∧
      (∃ front last, ["loop", "./loop", "./loop"] = front ++ [last] ∧ front.Nodup ∧ last ∈ front) ∧
      ¬ ∀ reached, ReflTransGen spelledLoop.Includes "loop" reached →
        spelledLoop.Readable reached ∧ ¬ TransGen spelledLoop.Includes reached reached := by
  obtain ⟨_, hsuccess, hcycles⟩ := load_reports_cycles spelledLoop "loop"
  obtain ⟨_, hlinked, hrepeated⟩ := hcycles _ load_spelledLoop
  refine ⟨hlinked, hrepeated, fun hreached ↦ ?_⟩
  obtain ⟨plan, hplan⟩ := hsuccess.mpr hreached
  rw [load_spelledLoop] at hplan
  cases hplan

end Roster.PlanDirectory
