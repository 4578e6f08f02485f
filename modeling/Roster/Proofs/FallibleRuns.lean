import Mathlib.Data.List.Forall2
import Mathlib.Data.List.Perm.Basic

/-!
# Runs that may fail

A run that is followed by another one succeeds exactly when both do (`bind_eq_ok_iff`). What is made
of its result changes neither its success nor its fault (`map_eq_ok_iff`, `map_eq_error_iff`). A
pass over a list stops at the first failure: it succeeds exactly when the run of each item does, and
the results stand in the order of the items (`mapM_eq_ok_iff`), and it fails with the fault of the
first item whose run fails (`mapM_eq_error_iff`), which is the least one of them if the items are in
order (`mapM_eq_error_iff_of_pairwise`). Of outcomes in a row, either all are results
(`mapM_id_eq_ok_iff`) or the first fault counts (`mapM_id_eq_error_iff`). In another order of the
items a pass succeeds as well, and its results change their order only (`exists_mapM_of_perm`).

Two laws join passes: a pass whose runs begin with a pass that succeeds (`mapM_bind_of_forall₂`), and
passes over the members of groups (`map_flatten_mapM_of_forall₂`).
-/

set_option autoImplicit false
set_option relaxedAutoImplicit false

namespace Roster

variable {Item Middle Group Result Fault : Type}

/-- A run with another one behind it succeeds when it has a result from which the other one does. -/
theorem bind_eq_ok_iff {run : Except Fault Item} {next : Item → Except Fault Result}
    {result : Result} :
    (run >>= next) = .ok result ↔ ∃ item, run = .ok item ∧ next item = .ok result := by
  cases run <;> simp [bind, Except.bind]

/-- What is made of the result of a run is a result when the run has one. -/
theorem map_eq_ok_iff {run : Except Fault Item} {view : Item → Result} {result : Result} :
    run.map view = .ok result ↔ ∃ item, run = .ok item ∧ view item = result := by
  cases run <;> simp [Except.map]

/-- The fault of a run stays when something is made of its result. -/
theorem map_eq_error_iff {run : Except Fault Item} {view : Item → Result} {fault : Fault} :
    run.map view = .error fault ↔ run = .error fault := by
  cases run <;> simp [Except.map]

/-- A run that shows a value has a result with this value. -/
theorem exists_eq_ok_of_toOption {run : Except Fault Item} {view : Item → Result} {value : Result}
    (hshown : run.toOption.map view = some value) : ∃ item, run = .ok item ∧ view item = value := by
  cases run with
  | error fault => cases hshown
  | ok item => exact ⟨item, rfl, Option.some.inj hshown⟩

/-- A pass goes on behind an item whose run succeeds. -/
theorem mapM_cons_of_eq_ok {act : Item → Except Fault Result} {item : Item} {result : Result}
    (hitem : act item = .ok result) (rest : List Item) :
    (item :: rest).mapM act = (rest.mapM act).map (result :: ·) := by
  rw [List.mapM_cons, hitem]
  cases rest.mapM act <;> rfl

/-- A pass stops at an item whose run fails. -/
theorem mapM_cons_of_eq_error {act : Item → Except Fault Result} {item : Item} {fault : Fault}
    (hitem : act item = .error fault) (rest : List Item) :
    (item :: rest).mapM act = .error fault := by
  rw [List.mapM_cons, hitem]
  rfl

/-- The results of a pass are those of the items, one by one. -/
theorem mapM_eq_ok_iff {act : Item → Except Fault Result} {items : List Item}
    {results : List Result} :
    items.mapM act = .ok results ↔
      List.Forall₂ (fun item result ↦ act item = .ok result) items results := by
  induction items generalizing results with
  | nil => cases results <;> simp [pure, Except.pure]
  | cons item rest ih =>
    rw [List.mapM_cons, bind_eq_ok_iff]
    simp only [bind_eq_ok_iff, ih]
    constructor
    · rintro ⟨first, hfirst, others, hothers, hresults⟩
      cases hresults
      exact .cons hfirst hothers
    · rintro (_ | ⟨hfirst, hothers⟩)
      exact ⟨_, hfirst, _, hothers, rfl⟩

/-- What is true of all that can be found is true of what is found for items in a row. -/
theorem forall_mem_of_forall₂ {Finds : Item → Result → Prop} {Holds : Result → Prop}
    {items : List Item} {results : List Result}
    (hholds : ∀ item result, Finds item result → Holds result)
    (hresults : List.Forall₂ Finds items results) : ∀ result ∈ results, Holds result := by
  have hflip : List.Forall₂ (fun result item ↦ Holds result ∧ Finds item result) results items :=
    List.Forall₂.flip (hresults.imp fun item result hfinds ↦ ⟨hholds item result hfinds, hfinds⟩)
  exact ((List.forall₂_and_left results items).mp hflip).1

/-- What is found for items in a row is found for one of them. -/
theorem exists_mem_of_forall₂ {Finds : Item → Result → Prop} {items : List Item}
    {results : List Result} (hresults : List.Forall₂ Finds items results) :
    ∀ result ∈ results, ∃ item ∈ items, Finds item result := by
  have hboth : List.Forall₂ (fun item result ↦ item ∈ items ∧ Finds item result) items results :=
    (List.forall₂_and_left items results).mpr ⟨fun _ hitem ↦ hitem, hresults⟩
  exact forall_mem_of_forall₂ (fun item _ hfinds ↦ ⟨item, hfinds⟩) hboth

/-- A pass that succeeds has a result for each item. -/
theorem exists_mem_of_mapM_eq_ok {act : Item → Except Fault Result} {items : List Item}
    {results : List Result} (hpass : items.mapM act = .ok results) {item : Item}
    (hitem : item ∈ items) : ∃ result ∈ results, act item = .ok result := by
  have hflip : List.Forall₂ (fun result item ↦ act item = .ok result) results items :=
    List.Forall₂.flip (mapM_eq_ok_iff.mp hpass)
  exact exists_mem_of_forall₂ hflip item hitem

/-- A result of a pass is that of some item. -/
theorem mem_of_mapM_eq_ok {act : Item → Except Fault Result} {items : List Item}
    {results : List Result} (hpass : items.mapM act = .ok results) (result : Result) :
    result ∈ results ↔ ∃ item ∈ items, act item = .ok result := by
  constructor
  · exact exists_mem_of_forall₂ (mapM_eq_ok_iff.mp hpass) result
  · rintro ⟨item, hitem, hresult⟩
    obtain ⟨other, hother, hsame⟩ := exists_mem_of_mapM_eq_ok hpass hitem
    cases hresult.symm.trans hsame
    exact hother

/-- Where something is found for each item, something is found for all of them in a row. -/
theorem exists_forall₂ {Finds : Item → Result → Prop} {items : List Item}
    (hitems : ∀ item ∈ items, ∃ result, Finds item result) :
    ∃ results, List.Forall₂ Finds items results := by
  induction items with
  | nil => exact ⟨[], .nil⟩
  | cons item rest ih =>
    obtain ⟨⟨result, hresult⟩, hrest⟩ := List.forall_mem_cons.mp hitems
    obtain ⟨results, hresults⟩ := ih hrest
    exact ⟨result :: results, .cons hresult hresults⟩

/-- What is found for items that differ from each other differs, if it does so for each two of them.
-/
theorem pairwise_of_forall₂ {Finds : Item → Result → Prop} {Differ : Item → Item → Prop}
    {Apart : Result → Result → Prop} {items : List Item} {results : List Result}
    (hapart : ∀ item result other second, Finds item result → Finds other second →
      Differ item other → Apart result second)
    (hresults : List.Forall₂ Finds items results) (hitems : items.Pairwise Differ) :
    results.Pairwise Apart := by
  induction hresults with
  | nil => exact .nil
  | @cons item result rest others hresult hothers ih =>
    obtain ⟨hfirst, hrest⟩ := List.pairwise_cons.mp hitems
    have hboth : List.Forall₂ (fun other second ↦ Differ item other ∧ Finds other second)
        rest others := (List.forall₂_and_left rest others).mpr ⟨hfirst, hothers⟩
    refine List.pairwise_cons.mpr ⟨?_, ih hrest⟩
    exact forall_mem_of_forall₂ (fun other second hother ↦
      hapart item result other second hresult hother.2 hother.1) hboth

/-- A pass in which the run of each item succeeds has results. -/
theorem exists_mapM_eq_ok {act : Item → Except Fault Result} {items : List Item}
    (hitems : ∀ item ∈ items, ∃ result, act item = .ok result) :
    ∃ results, items.mapM act = .ok results :=
  (exists_forall₂ hitems).imp fun _ ↦ mapM_eq_ok_iff.mpr

/-- A pass over the same items in another order has the same results in another order. -/
theorem exists_mapM_of_perm {act : Item → Except Fault Result} {items others : List Item}
    {results : List Result} (hperm : others.Perm items) (hpass : items.mapM act = .ok results) :
    ∃ found, others.mapM act = .ok found ∧ found.Perm results := by
  obtain ⟨found, hfound, hsame⟩ := List.perm_comp_forall₂ hperm (mapM_eq_ok_iff.mp hpass)
  exact ⟨found, mapM_eq_ok_iff.mpr hfound, hsame⟩

/-- A pass that joins the lists found for the items finds the same for another order of the items,
in another order. -/
theorem exists_map_flatten_mapM_of_perm {act : Item → Except Fault (List Result)}
    {items others : List Item} {results : List Result} (hperm : others.Perm items)
    (hpass : (items.mapM act).map List.flatten = .ok results) :
    ∃ found, (others.mapM act).map List.flatten = .ok found ∧ found.Perm results := by
  obtain ⟨groups, hgroups, rfl⟩ := map_eq_ok_iff.mp hpass
  obtain ⟨found, hfound, hsame⟩ := exists_mapM_of_perm hperm hgroups
  exact ⟨found.flatten, map_eq_ok_iff.mpr ⟨found, hfound, rfl⟩, hsame.flatten⟩

/-- A pass fails with the fault of the first item whose run fails. -/
theorem mapM_eq_error_iff {act : Item → Except Fault Result} {items : List Item} {fault : Fault} :
    items.mapM act = .error fault ↔
      ∃ earlier item later, items = earlier ++ item :: later ∧
        (∀ other ∈ earlier, ∃ result, act other = .ok result) ∧ act item = .error fault := by
  induction items with
  | nil => simp [pure, Except.pure]
  | cons head rest ih =>
    cases hhead : act head with
    | error other =>
      rw [mapM_cons_of_eq_error hhead]
      constructor
      · intro hfault
        cases hfault
        exact ⟨[], head, rest, rfl, List.forall_mem_nil _, hhead⟩
      · rintro ⟨earlier, item, later, hsplit, hearlier, hitem⟩
        cases earlier with
        | nil =>
          cases hsplit
          rw [hhead] at hitem
          cases hitem
          rfl
        | cons first earlier =>
          cases hsplit
          obtain ⟨result, hresult⟩ := hearlier head List.mem_cons_self
          rw [hhead] at hresult
          cases hresult
    | ok result =>
      rw [mapM_cons_of_eq_ok hhead, map_eq_error_iff, ih]
      constructor
      · rintro ⟨earlier, item, later, rfl, hearlier, hitem⟩
        exact ⟨head :: earlier, item, later, rfl,
          List.forall_mem_cons.mpr ⟨⟨result, hhead⟩, hearlier⟩, hitem⟩
      · rintro ⟨earlier, item, later, hsplit, hearlier, hitem⟩
        cases earlier with
        | nil =>
          cases hsplit
          rw [hhead] at hitem
          cases hitem
        | cons first earlier =>
          cases hsplit
          exact ⟨earlier, item, later, rfl, (List.forall_mem_cons.mp hearlier).2, hitem⟩

/-- A pass fails with the fault of some item. -/
theorem exists_of_mapM_eq_error {act : Item → Except Fault Result} {items : List Item}
    {fault : Fault} (hpass : items.mapM act = .error fault) :
    ∃ item ∈ items, act item = .error fault := by
  obtain ⟨earlier, item, later, rfl, _, hitem⟩ := mapM_eq_error_iff.mp hpass
  exact ⟨item, List.mem_append_right _ List.mem_cons_self, hitem⟩

/-- A pass over items in a strict order fails with the fault of the item that is the least one among
those whose runs fail. -/
theorem mapM_eq_error_iff_of_pairwise {Before : Item → Item → Prop}
    (hasymm : ∀ first second, Before first second → ¬ Before second first)
    {act : Item → Except Fault Result} {items : List Item} {fault : Fault}
    (hordered : items.Pairwise Before) :
    items.mapM act = .error fault ↔
      ∃ item ∈ items, act item = .error fault ∧
        ∀ other ∈ items, Before other item → ∃ result, act other = .ok result := by
  rw [mapM_eq_error_iff]
  constructor
  · rintro ⟨earlier, item, later, rfl, hearlier, hitem⟩
    refine ⟨item, List.mem_append_right _ List.mem_cons_self, hitem, fun other hother hbefore ↦ ?_⟩
    obtain ⟨_, hbehind, _⟩ := List.pairwise_append.mp hordered
    rcases List.mem_append.mp hother with hmem | hmem
    · exact hearlier other hmem
    · rcases List.mem_cons.mp hmem with rfl | hlater
      · exact absurd hbefore (hasymm _ _ hbefore)
      · exact absurd hbefore (hasymm _ _ ((List.pairwise_cons.mp hbehind).1 other hlater))
  · rintro ⟨item, hitem, hfault, hleast⟩
    obtain ⟨earlier, later, rfl⟩ := List.append_of_mem hitem
    refine ⟨earlier, item, later, rfl, fun other hother ↦ ?_, hfault⟩
    obtain ⟨_, _, hacross⟩ := List.pairwise_append.mp hordered
    exact hleast other (List.mem_append_left _ hother) (hacross other hother item List.mem_cons_self)

/-- A pass whose runs begin with something that succeeds is a pass over the results of that. -/
theorem mapM_bind_of_forall₂ {first : Item → Except Fault Middle}
    {next : Middle → Except Fault Result} {items : List Item} {middles : List Middle}
    (hfirst : List.Forall₂ (fun item middle ↦ first item = .ok middle) items middles) :
    items.mapM (fun item ↦ first item >>= next) = middles.mapM next := by
  induction hfirst with
  | nil => rfl
  | cons hitem _ ih =>
    rw [List.mapM_cons, List.mapM_cons, hitem, ih]
    rfl

/-- A pass over groups, in each of which there is a pass over its members, is a pass over all
members. -/
theorem map_flatten_mapM_of_forall₂ {act : Item → Except Fault (List Result)}
    {within : Group → Except Fault (List Result)} {groups : List Group} {members : List (List Item)}
    (hwithin : List.Forall₂
      (fun group items ↦ within group = (items.mapM act).map List.flatten) groups members) :
    (groups.mapM within).map List.flatten = (members.flatten.mapM act).map List.flatten := by
  induction hwithin with
  | nil => rfl
  | @cons group items others rest hgroup _ ih =>
    rw [List.flatten_cons, List.mapM_append]
    cases hitems : items.mapM act with
    | error fault =>
      rw [hitems] at hgroup
      rw [mapM_cons_of_eq_error hgroup]
      rfl
    | ok results =>
      rw [hitems] at hgroup
      rw [mapM_cons_of_eq_ok hgroup]
      cases hothers : others.mapM within with
      | error fault =>
        rw [hothers] at ih
        rw [map_eq_error_iff.mp ih.symm]
        rfl
      | ok found =>
        rw [hothers] at ih
        obtain ⟨below, hbelow, hsame⟩ := map_eq_ok_iff.mp ih.symm
        rw [hbelow]
        show Except.ok (results.flatten ++ found.flatten) = Except.ok (results ++ below).flatten
        rw [List.flatten_append, hsame]

/-! ### Outcomes in a row -/

/-- A result in front of other outcomes stands in front of their results. -/
theorem mapM_id_ok_cons (item : Item) (rest : List (Except Fault Item)) :
    (.ok item :: rest).mapM id = (rest.mapM id).map (item :: ·) := by
  have hitem : id (.ok item : Except Fault Item) = .ok item := rfl
  exact mapM_cons_of_eq_ok hitem rest

/-- Outcomes in a row have results when each of them is one. -/
theorem mapM_id_eq_ok_iff {outcomes : List (Except Fault Item)} {items : List Item} :
    outcomes.mapM id = .ok items ↔ outcomes = items.map .ok := by
  rw [mapM_eq_ok_iff]
  simp only [id]
  constructor
  · intro hpairs
    induction hpairs with
    | nil => rfl
    | cons hitem _ ih => rw [hitem, ih, List.map_cons]
  · rintro rfl
    induction items with
    | nil => exact .nil
    | cons item rest ih => exact .cons rfl ih

/-- Outcomes in a row fail with the first fault among them. -/
theorem mapM_id_eq_error_iff {outcomes : List (Except Fault Item)} {fault : Fault} :
    outcomes.mapM id = .error fault ↔
      ∃ (items : List Item) (later : List (Except Fault Item)),
        outcomes = items.map .ok ++ .error fault :: later := by
  rw [mapM_eq_error_iff]
  constructor
  · rintro ⟨earlier, outcome, later, rfl, hearlier, hfault⟩
    obtain ⟨items, hitems⟩ := exists_mapM_eq_ok hearlier
    refine ⟨items, later, ?_⟩
    rw [← mapM_id_eq_ok_iff.mp hitems, ← hfault, id]
  · rintro ⟨items, later, rfl⟩
    refine ⟨items.map .ok, .error fault, later, rfl, ?_, rfl⟩
    rw [List.forall_mem_map]
    exact fun item _ ↦ ⟨item, rfl⟩

end Roster
