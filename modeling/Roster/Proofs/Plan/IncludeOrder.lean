import Mathlib.Data.List.Induction
import Roster.Plan.Load
import Roster.Proofs.FallibleRuns
import Roster.Proofs.TableLookup

/-!
# The order in which included plans count

To visit a plan is to meet its own document, and then to visit the plans that it includes, one after
the other (`PlanDirectory.Visits`). A plan that is included on several branches is met on each of
them. The documents of a plan are merged in this order, so that the last one with an entry of a name
counts: an included plan before the one that includes it, and a later include with all that it
includes before an earlier one.

Loading stops at a plan that cannot be read or that is being loaded already.
`PlanDirectory.findings` lists all that is met on the way, such faults in their places among the
documents, and goes on behind them. Loading is then one equation: it merges the findings if they all
are documents, and otherwise fails with the first fault (`PlanDirectory.loadBelow_eq_ofDocuments`).
The induction is on the plans below a chain, and what makes it go through is that a merge of merges
is the merge of all documents in a row (`LoadedPlan.ofDocuments_append`).

`PlanDirectory.load_eq_visits` is the outcome: what a loaded plan holds, and which fault is
reported.
-/

set_option autoImplicit false
set_option relaxedAutoImplicit false

namespace Roster

/-! ### Merging documents in a row -/

namespace LoadedPlan

/-- The plan that documents make when the entries of each replace those of the ones before it. -/
def ofDocuments (documents : List PlanDocument) : LoadedPlan :=
  documents.foldl (fun plan document ↦ plan.merge (ofDocument document)) ⟨∅, []⟩

/-- An included plan has its entries in the merged plan, and leaves the others alone. -/
theorem get?_merge (plan included : LoadedPlan) (key : String) :
    (plan.merge included).testcases.get? key =
      (included.testcases.get? key).or (plan.testcases.get? key) :=
  Table.get?_insertAll_entries plan.testcases included.testcases key

/-- Plans are the same if they have the same entries and say the same of themselves. -/
theorem ext_get? {first second : LoadedPlan} (hmetas : first.metas = second.metas)
    (hentries : ∀ key, first.testcases.get? key = second.testcases.get? key) :
    first = second := by
  have htestcases := Table.ext_get? hentries
  cases first
  cases second
  simp_all

/-- One more document behind the others is merged into their plan. -/
theorem ofDocuments_concat (documents : List PlanDocument) (document : PlanDocument) :
    ofDocuments (documents ++ [document]) = (ofDocuments documents).merge (ofDocument document) :=
  List.foldl_append

/-- The plan of some documents lists what each says of itself, in their order. -/
theorem metas_ofDocuments (documents : List PlanDocument) :
    (ofDocuments documents).metas = documents.map PlanDocument.planMeta := by
  induction documents using List.reverseRecOn with
  | nil => rfl
  | append_singleton documents document ih =>
    rw [ofDocuments_concat, merge, ih, List.map_append]
    rfl

/-- The plan of some documents has the entry of the last one that has any. -/
theorem get?_ofDocuments (documents : List PlanDocument) (key : String) :
    (ofDocuments documents).testcases.get? key =
      documents.reverse.findSome? fun document ↦ document.testcases.get? key := by
  induction documents using List.reverseRecOn with
  | nil => rfl
  | append_singleton documents document ih =>
    rw [ofDocuments_concat, get?_merge, ih, List.reverse_concat, List.findSome?_cons, ofDocument]
    cases document.testcases.get? key <;> rfl

/-- Two rows of documents make the plan of the first one with that of the second one included. -/
theorem ofDocuments_append (first second : List PlanDocument) :
    ofDocuments (first ++ second) = (ofDocuments first).merge (ofDocuments second) := by
  refine ext_get? ?_ fun key ↦ ?_
  · rw [merge, metas_ofDocuments, metas_ofDocuments, metas_ofDocuments, List.map_append]
  · rw [get?_merge, get?_ofDocuments, get?_ofDocuments, get?_ofDocuments, List.reverse_append,
      List.findSome?_append]

/-- One document makes the plan that includes nothing. -/
theorem ofDocuments_singleton (document : PlanDocument) :
    ofDocuments [document] = ofDocument document := by
  refine ext_get? (metas_ofDocuments _) fun key ↦ ?_
  rw [get?_ofDocuments, List.reverse_singleton, List.findSome?_singleton]
  rfl

end LoadedPlan

namespace PlanDirectory

/-! ### Visits -/

/-- The documents met when some plans are visited one after the other: the document of the first
one, those met in all that it includes, and behind them those of the other plans. -/
inductive Visits (plans : PlanDirectory) : List String → List PlanDocument → Prop
  /-- No plan is left. -/
  | none : Visits plans [] []
  /-- The first plan can be read. -/
  | plan {name : String} {rest : List String} {document : PlanDocument}
      {included others : List PlanDocument} (hread : plans.read name = .ok document)
      (hincluded : Visits plans document.planMeta.includes included)
      (hothers : Visits plans rest others) :
      Visits plans (name :: rest) (document :: included ++ others)

/-- All that is met when a plan is visited below a chain of plans that include each other. A plan
that is in the chain already is met as a fault, and so is one that cannot be read. Nothing is met
below a fault, and the visit goes on behind it. -/
def findings (plans : PlanDirectory) (chain : List String) (name : String) :
    List (Except PlanError PlanDocument) :=
  if _ : name ∈ chain then [.error (.includeCycle (chain ++ [name]))]
  else
    match _ : plans.read name with
    | .error fault => [.error fault]
    | .ok document =>
      .ok document :: document.planMeta.includes.attach.flatMap fun included ↦
        plans.findings (chain ++ [name]) included.1
termination_by plans.remaining chain name
decreasing_by exact remaining_lt ‹_› (includes_includable ‹_› included.1 included.2)

variable {plans : PlanDirectory} {chain : List String} {name : String}

theorem findings_of_mem (hmem : name ∈ chain) :
    plans.findings chain name = [.error (.includeCycle (chain ++ [name]))] := by
  rw [findings, dif_pos hmem]

theorem findings_of_error (hfresh : name ∉ chain) {fault : PlanError}
    (hread : plans.read name = .error fault) : plans.findings chain name = [.error fault] := by
  rw [findings, dif_neg hfresh]
  split <;> simp_all

theorem findings_of_ok (hfresh : name ∉ chain) {document : PlanDocument}
    (hread : plans.read name = .ok document) :
    plans.findings chain name =
      .ok document :: document.planMeta.includes.flatMap (plans.findings (chain ++ [name])) := by
  rw [findings, dif_neg hfresh]
  split
  · simp_all
  · next found hfound =>
    rw [hread] at hfound
    cases hfound
    simp [List.flatMap]

theorem loadBelow_of_mem (hmem : name ∈ chain) :
    plans.loadBelow chain name = .error (.includeCycle (chain ++ [name])) := by
  rw [loadBelow, dif_pos hmem]

theorem loadBelow_of_error (hfresh : name ∉ chain) {fault : PlanError}
    (hread : plans.read name = .error fault) : plans.loadBelow chain name = .error fault := by
  rw [loadBelow, dif_neg hfresh]
  split <;> simp_all

/-- Merging plans as they are loaded is loading all of them and merging them then. -/
theorem foldlM_merge_eq_mapM (load : String → Except PlanError LoadedPlan) (names : List String)
    (plan : LoadedPlan) :
    (names.foldlM (fun plan name ↦ do return plan.merge (← load name)) plan) =
      (names.mapM load).map (List.foldl LoadedPlan.merge plan) := by
  induction names generalizing plan with
  | nil => rfl
  | cons name rest ih =>
    rw [List.foldlM_cons, List.mapM_cons]
    cases load name with
    | error fault => rfl
    | ok included =>
      change rest.foldlM _ (plan.merge included) = _
      rw [ih]
      cases rest.mapM load <;> rfl

theorem loadBelow_of_ok (hfresh : name ∉ chain) {document : PlanDocument}
    (hread : plans.read name = .ok document) :
    plans.loadBelow chain name =
      (document.planMeta.includes.mapM (plans.loadBelow (chain ++ [name]))).map
        (List.foldl LoadedPlan.merge (.ofDocument document)) := by
  rw [loadBelow, dif_neg hfresh]
  split
  · simp_all
  · next found hfound =>
    rw [hread] at hfound
    cases hfound
    rw [← foldlM_merge_eq_mapM]
    simp

/-! ### Loading merges the findings -/

/-- Where each of some plans loads as the merge of its findings, all of them merged into the plan of
some documents are the merge of these documents with all their findings. -/
theorem mapM_loadBelow_eq_ofDocuments {names : List String}
    (hloads : ∀ included ∈ names, plans.loadBelow chain included =
      ((plans.findings chain included).mapM id).map LoadedPlan.ofDocuments)
    (documents : List PlanDocument) :
    (names.mapM (plans.loadBelow chain)).map
        (List.foldl LoadedPlan.merge (.ofDocuments documents)) =
      ((names.flatMap (plans.findings chain)).mapM id).map fun found ↦
        .ofDocuments (documents ++ found) := by
  induction names generalizing documents with
  | nil => simp [pure, Except.pure, Except.map]
  | cons included rest ih =>
    obtain ⟨hincluded, hrest⟩ := List.forall_mem_cons.mp hloads
    rw [List.mapM_cons, hincluded, List.flatMap_cons, List.mapM_append]
    cases (plans.findings chain included).mapM id with
    | error fault => rfl
    | ok found =>
      calc
        _ = (rest.mapM (plans.loadBelow chain)).map
              (List.foldl LoadedPlan.merge
                ((LoadedPlan.ofDocuments documents).merge (.ofDocuments found))) := by
          cases rest.mapM (plans.loadBelow chain) <;> rfl
        _ = ((rest.flatMap (plans.findings chain)).mapM id).map fun others ↦
              .ofDocuments (documents ++ found ++ others) := by
          rw [← LoadedPlan.ofDocuments_append]
          exact ih hrest (documents ++ found)
        _ = _ := by
          cases (rest.flatMap (plans.findings chain)).mapM id with
          | error fault => rfl
          | ok others =>
            exact congrArg (fun all ↦ Except.ok (LoadedPlan.ofDocuments all)) (List.append_assoc ..)

/-- Loading a plan below a chain merges what is found there, or fails with the first fault found. -/
theorem loadBelow_eq_ofDocuments (plans : PlanDirectory) (chain : List String) (name : String) :
    plans.loadBelow chain name =
      ((plans.findings chain name).mapM id).map LoadedPlan.ofDocuments := by
  induction chain, name using loadBelow.induct plans with
  | case1 chain name hmem =>
    rw [loadBelow_of_mem hmem, findings_of_mem hmem]
    rfl
  | case2 chain name hfresh fault hread =>
    rw [loadBelow_of_error hfresh hread, findings_of_error hfresh hread]
    rfl
  | case3 chain name hfresh document hread ih =>
    rw [loadBelow_of_ok hfresh hread, findings_of_ok hfresh hread,
      ← LoadedPlan.ofDocuments_singleton,
      mapM_loadBelow_eq_ofDocuments fun included hincluded ↦ ih ⟨included, hincluded⟩,
      mapM_id_ok_cons]
    cases (document.planMeta.includes.flatMap (plans.findings (chain ++ [name]))).mapM id <;> rfl

/-! ### Findings without a fault -/

theorem Visits.append {first second : List String} {found others : List PlanDocument}
    (hfirst : plans.Visits first found) (hsecond : plans.Visits second others) :
    plans.Visits (first ++ second) (found ++ others) := by
  induction hfirst with
  | none => exact hsecond
  | plan hread hincluded _ _ ih =>
    rw [List.cons_append, List.append_assoc]
    exact .plan hread hincluded ih

theorem visits_of_flatMap_findings {names : List String}
    (hvisits : ∀ included ∈ names, ∀ found,
      plans.findings chain included = found.map .ok → plans.Visits [included] found)
    {found : List PlanDocument} (hfound : names.flatMap (plans.findings chain) = found.map .ok) :
    plans.Visits names found := by
  induction names generalizing found with
  | nil =>
    rw [List.flatMap_nil, eq_comm, List.map_eq_nil_iff] at hfound
    rw [hfound]
    exact .none
  | cons included rest ih =>
    obtain ⟨hincluded, hrest⟩ := List.forall_mem_cons.mp hvisits
    rw [List.flatMap_cons, List.append_eq_map_iff] at hfound
    obtain ⟨first, others, rfl, hfirst, hothers⟩ := hfound
    exact (hincluded first hfirst.symm).append (ih hrest hothers.symm)

/-- If all that is found is documents, they are those that a visit meets. -/
theorem visits_of_findings {found : List PlanDocument}
    (hfound : plans.findings chain name = found.map .ok) : plans.Visits [name] found := by
  induction chain, name using loadBelow.induct plans generalizing found with
  | case1 chain name hmem =>
    rw [findings_of_mem hmem] at hfound
    cases found <;> cases hfound
  | case2 chain name hfresh fault hread =>
    rw [findings_of_error hfresh hread] at hfound
    cases found <;> cases hfound
  | case3 chain name hfresh document hread ih =>
    rw [findings_of_ok hfresh hread] at hfound
    cases found with
    | nil => cases hfound
    | cons first included =>
      obtain ⟨hfirst, hincluded⟩ := List.cons.inj hfound
      cases hfirst
      have hbelow : plans.Visits document.planMeta.includes included :=
        visits_of_flatMap_findings (fun name hname _ ↦ ih ⟨name, hname⟩) hincluded
      have hvisit := Visits.plan hread hbelow .none
      rwa [List.append_nil] at hvisit

/-! ### What a plan loads as -/

/-- A plan loads when all that is found is documents, and it is their merge. -/
theorem load_eq_ok_iff {plan : LoadedPlan} :
    plans.load name = .ok plan ↔
      ∃ documents, plans.findings [] name = documents.map .ok ∧
        LoadedPlan.ofDocuments documents = plan := by
  simp only [← mapM_id_eq_ok_iff]
  rw [load, loadBelow_eq_ofDocuments, map_eq_ok_iff]

/-- A plan that loads can be visited. -/
theorem exists_visits_of_load {plan : LoadedPlan} (hload : plans.load name = .ok plan) :
    ∃ documents, plans.Visits [name] documents := by
  obtain ⟨documents, hfound, _⟩ := load_eq_ok_iff.mp hload
  exact ⟨documents, visits_of_findings hfound⟩

/-- A plan loads when all that is found on a visit is documents. It then says what these documents
say of themselves, in their order, and under each name it has the entry of the last of them that has
one. Otherwise the fault is the first one found, with nothing but documents before it. -/
theorem load_eq_visits (plans : PlanDirectory) (name : String) :
    (∀ plan, plans.load name = .ok plan ↔
      ∃ documents, plans.Visits [name] documents ∧
        plans.findings [] name = documents.map .ok ∧
        plan.metas = documents.map PlanDocument.planMeta ∧
        ∀ key, plan.testcases.get? key =
          documents.reverse.findSome? fun document ↦ document.testcases.get? key) ∧
    ∀ fault, plans.load name = .error fault ↔
      ∃ (documents : List PlanDocument) (later : List (Except PlanError PlanDocument)),
        plans.findings [] name = documents.map .ok ++ .error fault :: later := by
  constructor
  · intro plan
    rw [load_eq_ok_iff]
    refine exists_congr fun documents ↦ ⟨?_, ?_⟩
    · rintro ⟨hfound, rfl⟩
      exact ⟨visits_of_findings hfound, hfound, LoadedPlan.metas_ofDocuments documents,
        LoadedPlan.get?_ofDocuments documents⟩
    · rintro ⟨_, hfound, hmetas, hentries⟩
      refine ⟨hfound, LoadedPlan.ext_get? ?_ fun key ↦ ?_⟩
      · rw [hmetas, LoadedPlan.metas_ofDocuments]
      · rw [hentries, LoadedPlan.get?_ofDocuments]
  · intro fault
    rw [load, loadBelow_eq_ofDocuments, map_eq_error_iff, mapM_id_eq_error_iff]

end PlanDirectory

end Roster
