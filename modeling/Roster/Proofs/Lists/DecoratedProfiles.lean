import Roster.Proofs.Lists.UpgradeLookup

/-!
# Installs and uninstalls around a profile

A profile may come with installs and uninstalls of its own, as it was written, through unions or by
repetition. They are left out when the profile is given out, if they are among the entries that open
and close a run (`ResolvedLists.not_mem_of_get`), and the decoration puts in those that were asked
for.

The decoration adds to a list without installs and uninstalls nothing but these
(`ListOptions.Decorates.filter_eq`), and where they stand is said for its two forms: around the
whole list (`ListOptions.Decorates.install`, `ListOptions.Decorates.uninstall`) and around each test
(`ListOptions.Decorates.wrapped`). `Resolver.decorate_get` says it of every profile of a resolution.
-/

set_option autoImplicit false
set_option relaxedAutoImplicit false

namespace Roster

/-! ### Decorated lists -/

/-- An entry that neither installs nor uninstalls. -/
def IsInnerTest (entry : String) : Prop :=
  entry ≠ installTest ∧ entry ≠ uninstallTest

instance (entry : String) : Decidable (IsInnerTest entry) :=
  inferInstanceAs (Decidable (_ ∧ _))

/-- An entry is the first one of a list, and no other one is the same. -/
structure OnlyFirst (entry : String) (list : List String) : Prop where
  head : list.head? = some entry
  once : list.count entry = 1

/-- An entry is the last one of a list, and no other one is the same. -/
structure OnlyLast (entry : String) (list : List String) : Prop where
  last : list.getLast? = some entry
  once : list.count entry = 1

namespace ListOptions

/-- What a list with installs and uninstalls looks like, given the tests between them. -/
structure Decorates (options : ListOptions) (tests decorated : List String) : Prop where
  /-- Without the installs and uninstalls the tests are left, in their order. -/
  filter_eq : decorated.filter (fun entry ↦ IsInnerTest entry) = tests
  /-- An install is first and nowhere else if one is asked for, and nowhere if not. -/
  install : options.wrap = false →
    if options.install then OnlyFirst installTest decorated else installTest ∉ decorated
  /-- An uninstall is last and nowhere else if one is asked for, and nowhere if not. -/
  uninstall : options.wrap = false →
    if options.uninstall then OnlyLast uninstallTest decorated else uninstallTest ∉ decorated
  /-- Each test stands between an install and an uninstall of its own if that is asked for. -/
  wrapped : options.wrap = true → decorated.length = 3 * tests.length ∧
    ∀ index test, tests[index]? = some test →
      decorated[3 * index]? = some installTest ∧ decorated[3 * index + 1]? = some test ∧
        decorated[3 * index + 2]? = some uninstallTest

variable {options : ListOptions} {tests decorated : List String}

/-- A list cannot be decorated exactly where installs around each test are asked for together with
one of the whole list. -/
theorem decorate_eq_error_iff {fault : OutputError} :
    options.decorate tests = .error fault ↔
      (options.wrap = true ∧ (options.install = true ∨ options.uninstall = true)) ∧
        fault = .incompatibleOptions := by
  rw [decorate, validate]
  obtain ⟨install, uninstall, wrap, separator, format⟩ := options
  cases install <;> cases uninstall <;> cases wrap <;> simp [eq_comm]

/-- Without wrapping, an install goes before the list and an uninstall behind it. -/
theorem decorate_of_not_wrap (hwrap : options.wrap = false) :
    options.decorate tests = .ok ((if options.install then [installTest] else []) ++ tests ++
      (if options.uninstall then [uninstallTest] else [])) := by
  simp [decorate, validate, hwrap]

/-- With wrapping, each test takes three entries. -/
theorem eq_flatMap_of_decorate (hwrap : options.wrap = true)
    (hdecorate : options.decorate tests = .ok decorated) :
    decorated = tests.flatMap fun test ↦ [installTest, test, uninstallTest] := by
  rw [decorate] at hdecorate
  cases hvalid : options.validate with
  | error fault =>
    rw [hvalid] at hdecorate
    cases hdecorate
  | ok =>
    simp only [hvalid, hwrap, if_true] at hdecorate
    exact (Except.ok.inj hdecorate).symm

/-- Of entries around each test, those of a test at an index stand at three times the index. -/
theorem getElem?_flatMap_around (opening closing : String) {index : ℕ} {test : String}
    (htest : tests[index]? = some test) :
    let around := tests.flatMap fun test ↦ [opening, test, closing]
    around[3 * index]? = some opening ∧ around[3 * index + 1]? = some test ∧
      around[3 * index + 2]? = some closing := by
  induction tests generalizing index with
  | nil => cases htest
  | cons first rest ih =>
    cases index with
    | zero =>
      cases htest
      exact ⟨rfl, rfl, rfl⟩
    | succ index =>
      rw [List.getElem?_cons_succ] at htest
      exact ih htest

/-- A list without installs and uninstalls that get an install and an uninstall around them as a
whole, or one of these, or none. -/
theorem decorates_of_not_wrap (htests : ∀ test ∈ tests, IsInnerTest test)
    (hwrap : options.wrap = false) (hdecorate : options.decorate tests = .ok decorated) :
    options.Decorates tests decorated := by
  have hinstall : installTest ∉ tests := fun hmem ↦ (htests _ hmem).1 rfl
  have huninstall : uninstallTest ∉ tests := fun hmem ↦ (htests _ hmem).2 rfl
  have hinner : tests.filter (fun entry ↦ IsInnerTest entry) = tests :=
    List.filter_eq_self.mpr fun test htest ↦ decide_eq_true (htests test htest)
  have hdropped : ¬ IsInnerTest installTest ∧ ¬ IsInnerTest uninstallTest := by decide
  have hother : installTest ≠ uninstallTest := by decide
  have hcounts : tests.count installTest = 0 ∧ tests.count uninstallTest = 0 :=
    ⟨List.count_eq_zero.mpr hinstall, List.count_eq_zero.mpr huninstall⟩
  obtain rfl := Except.ok.inj ((decorate_of_not_wrap hwrap).symm.trans hdecorate)
  refine ⟨?_, fun _ ↦ ?_, fun _ ↦ ?_, fun htrue ↦ ?_⟩
  · rw [List.filter_append, List.filter_append, hinner]
    cases options.install <;> cases options.uninstall <;> simp [hdropped]
  · cases options.install with
    | true =>
      refine ⟨rfl, ?_⟩
      cases options.uninstall <;> simp [List.count_append, hcounts, hother.symm]
    | false => cases options.uninstall <;> simp [hinstall, hother]
  · cases options.uninstall with
    | true =>
      refine ⟨List.getLast?_concat, ?_⟩
      cases options.install <;> simp [List.count_append, hcounts, hother]
    | false => cases options.install <;> simp [huninstall, hother.symm]
  · rw [hwrap] at htrue
    cases htrue

/-- A list without installs and uninstalls whose tests each get an install and an uninstall around
them. -/
theorem decorates_of_wrap (htests : ∀ test ∈ tests, IsInnerTest test) (hwrap : options.wrap = true)
    (hdecorate : options.decorate tests = .ok decorated) : options.Decorates tests decorated := by
  have hdropped : ¬ IsInnerTest installTest ∧ ¬ IsInnerTest uninstallTest := by decide
  obtain rfl := eq_flatMap_of_decorate hwrap hdecorate
  refine ⟨?_, fun hnot ↦ ?_, fun hnot ↦ ?_, fun _ ↦ ⟨?_, fun index test htest ↦ ?_⟩⟩
  · have hkept : ∀ test ∈ tests, ([installTest, test, uninstallTest].filter fun entry ↦
        IsInnerTest entry) = [test] := fun test htest ↦ by
      simp [hdropped, htests test htest]
    rw [List.filter_flatMap, List.flatMap_congr hkept, List.flatMap_singleton']
  · rw [hwrap] at hnot
    cases hnot
  · rw [hwrap] at hnot
    cases hnot
  · simp [List.length_flatMap, Nat.mul_comm]
  · exact getElem?_flatMap_around installTest uninstallTest htest

end ListOptions

/-! ### Decorated profiles -/

/-- What is given out for a profile has no entries that open or close a run. -/
theorem ResolvedLists.not_mem_of_get {lists : ResolvedLists} {profile entry : String}
    {byDuration : Bool} {tests : List String} (hget : lists.get profile byDuration = .ok tests)
    (hentry : entry ∈ lists.bookends) : entry ∉ tests := by
  cases hentries : lists.members profile with
  | none =>
    rw [get, hentries] at hget
    cases hget
  | some entries =>
    obtain ⟨others, hothers, hmem⟩ := exists_get_eq_ok hentries byDuration
    obtain rfl := Except.ok.inj (hget.symm.trans hothers)
    exact fun hlisted ↦ ((hmem entry).mp hlisted).2 hentry

namespace Resolver

variable {resolver : Resolver} {definition : ListDefinition} {lists : ResolvedLists}

/-- If installs and uninstalls are among the entries that open and close a run, every profile of a
resolution can be given out, in either order, and then decorated, except with installs around each
test and of the whole list together. The outcome has the tests that were given out, in their order,
and installs and uninstalls just where they were asked for, whatever the profile had of them. -/
theorem decorate_get (hresolve : resolver.resolve definition = .ok lists)
    (hinstall : installTest ∈ resolver.bookends) (huninstall : uninstallTest ∈ resolver.bookends)
    {profile : String} (hprofile : profile ∈ lists.names) (byDuration : Bool)
    (options : ListOptions) :
    ∃ tests, lists.get profile byDuration = .ok tests ∧
      (∀ fault, options.decorate tests = .error fault ↔
        (options.wrap = true ∧ (options.install = true ∨ options.uninstall = true)) ∧
          fault = .incompatibleOptions) ∧
      ∀ decorated, options.decorate tests = .ok decorated → options.Decorates tests decorated := by
  obtain ⟨entries, hentries⟩ := Table.mem_names_iff.mp hprofile
  obtain ⟨tests, hget, -⟩ := ResolvedLists.exists_get_eq_ok hentries byDuration
  obtain ⟨based, reports, -, rfl⟩ := resolve_eq_ok_iff.mp hresolve
  have htests : ∀ test ∈ tests, IsInnerTest test := by
    intro test htest
    constructor
    · rintro rfl
      exact ResolvedLists.not_mem_of_get hget hinstall htest
    · rintro rfl
      exact ResolvedLists.not_mem_of_get hget huninstall htest
  refine ⟨tests, hget, fun fault ↦ ListOptions.decorate_eq_error_iff, fun decorated hdecorate ↦ ?_⟩
  cases hwrap : options.wrap with
  | true => exact ListOptions.decorates_of_wrap htests hwrap hdecorate
  | false => exact ListOptions.decorates_of_not_wrap htests hwrap hdecorate

/-! ### A profile with installs of its own -/

/-- Two profiles that were written with installs and uninstalls in their midst, and a union of them
that has one of them twice. -/
def bookendedDefinition : ListDefinition where
  explicitProfiles := Table.ofList
    [("p", some ["install", "b", "uninstall", "install", "a"]),
      ("q", some ["uninstall", "c", "install"])]
  unions := Table.ofList [("m", ["p", "q", "p"])]
  metadata := ⟨[], [], ∅, []⟩

/-- A place without plans, where installs and uninstalls open and close a run. -/
def bookendResolver : Resolver :=
  { planlessResolver with bookends := ["install", "uninstall"] }

/-- A run with an install and an uninstall around each test. -/
def wrappedRun : ListOptions := ⟨false, false, true, " ", .plain⟩

/-- The outcome for the union. -/
theorem resolve_bookended :
    ∃ lists, bookendResolver.resolve bookendedDefinition = .ok lists ∧
      lists.members "m" = some ["a", "b", "c", "install", "uninstall"] := by
  have hrun : (bookendResolver.resolve bookendedDefinition).toOption.map
      (fun lists ↦ lists.members "m") = some (some ["a", "b", "c", "install", "uninstall"]) := by
    decide +kernel
  exact exists_eq_ok_of_toOption hrun

/-- The union is given out with an install and an uninstall around it, with three entries for each
of its tests, and not in both ways at once. -/
theorem decorate_get_bookended :
    ∃ lists, bookendResolver.resolve bookendedDefinition = .ok lists ∧
      lists.members "m" = some ["a", "b", "c", "install", "uninstall"] ∧
      (∃ tests decorated, lists.get "m" true = .ok tests ∧
        installedRun.decorate tests = .ok decorated ∧ OnlyFirst installTest decorated ∧
        OnlyLast uninstallTest decorated) ∧
      (∃ tests decorated, lists.get "m" false = .ok tests ∧
        wrappedRun.decorate tests = .ok decorated ∧ decorated.length = 3 * tests.length) ∧
      ∃ tests, lists.get "m" false = .ok tests ∧
        ListOptions.decorate { wrappedRun with install := true } tests =
          .error .incompatibleOptions := by
  obtain ⟨lists, hresolve, hmembers⟩ := resolve_bookended
  have hprofile : "m" ∈ lists.names := Table.mem_names_iff.mpr ⟨_, hmembers⟩
  have hdecorate (byDuration : Bool) (options : ListOptions) :=
    decorate_get hresolve (by decide) (by decide) hprofile byDuration options
  refine ⟨lists, hresolve, hmembers, ?_, ?_, ?_⟩
  · obtain ⟨tests, hget, -, hlooks⟩ := hdecorate true installedRun
    have hdecorated := hlooks _ rfl
    exact ⟨tests, _, hget, rfl, hdecorated.install rfl, hdecorated.uninstall rfl⟩
  · obtain ⟨tests, hget, -, hlooks⟩ := hdecorate false wrappedRun
    exact ⟨tests, _, hget, rfl, ((hlooks _ rfl).wrapped rfl).1⟩
  · obtain ⟨tests, hget, hfails, -⟩ := hdecorate false { wrappedRun with install := true }
    exact ⟨tests, hget, (hfails _).mpr ⟨⟨rfl, .inl rfl⟩, rfl⟩⟩

end Resolver

end Roster
