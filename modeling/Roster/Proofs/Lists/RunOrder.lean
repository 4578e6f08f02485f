import Roster.Proofs.Binary64.TotalOrder
import Roster.Proofs.Lists.GroupingOrder

/-!
# The order of a list to run

A list is given out without the entries that open and close a run, and sorted: by name, or with the
longest test first. The second order is made in two steps, a sort by name and then one by duration.
It is the second sort that keeps tests of the same duration in the order of their names, because it
does not change the order of entries that it finds in order (`filter_mergeSort`).

`ResolvedLists.ComesBefore` is the order that the two sorts make together. Durations are compared in
the total order of their bits, so that what is not a number and the two zeros have their places too,
and a test without a recorded duration took the zero without a sign. Entries in this order are
arranged in one way only (`ResolvedLists.ComesBefore.antisymm`).

`ResolvedLists.get_sorted` says this of both lists that are given out for a profile.
-/

set_option autoImplicit false
set_option relaxedAutoImplicit false

namespace Roster

/-- Sorting leaves the items of some kind as they are, if they are in order among each other. -/
theorem filter_mergeSort {Item : Type} {notBehind : Item → Item → Bool}
    (htrans : ∀ first second third,
      notBehind first second = true → notBehind second third = true → notBehind first third = true)
    (htotal : ∀ first second, (notBehind first second || notBehind second first) = true)
    {kept : Item → Bool} {items : List Item}
    (hordered : (items.filter kept).Pairwise fun first second ↦ notBehind first second = true) :
    (items.mergeSort notBehind).filter kept = items.filter kept := by
  have hsorted : (items.filter kept).Sublist (items.mergeSort notBehind) :=
    List.sublist_mergeSort htrans htotal hordered List.filter_sublist
  have hkept : (items.filter kept).Sublist ((items.mergeSort notBehind).filter kept) := by
    have hagain := hsorted.filter kept
    simpa only [List.filter_filter, Bool.and_self] using hagain
  have hlength : ((items.mergeSort notBehind).filter kept).length = (items.filter kept).length :=
    ((List.mergeSort_perm items notBehind).filter kept).length_eq
  exact (hkept.eq_of_length hlength.symm).symm

namespace ResolvedLists

/-- A test is given out before another one where the longest come first: it took longer, or just as
long and its name comes first. -/
structure ComesBefore (lists : ResolvedLists) (first second : String) : Prop where
  longer : (lists.durationOf second).TotalLe (lists.durationOf first)
  named : lists.durationOf first = lists.durationOf second → first ≤ second

instance (lists : ResolvedLists) (first second : String) :
    Decidable (lists.ComesBefore first second) :=
  decidable_of_iff ((lists.durationOf second).TotalLe (lists.durationOf first) ∧
      (lists.durationOf first = lists.durationOf second → first ≤ second))
    ⟨fun ⟨hlonger, hnamed⟩ ↦ ⟨hlonger, hnamed⟩, fun ⟨hlonger, hnamed⟩ ↦ ⟨hlonger, hnamed⟩⟩

variable {lists : ResolvedLists} {first second third profile : String} {tests : List String}

/-- Two tests that each come before the other one are the same. -/
theorem ComesBefore.antisymm (hbefore : lists.ComesBefore first second)
    (hbehind : lists.ComesBefore second first) : first = second := by
  have hsame : lists.durationOf first = lists.durationOf second :=
    hbehind.longer.antisymm hbefore.longer
  exact String.le_antisymm (hbefore.named hsame) (hbehind.named hsame.symm)

theorem notShorter_iff :
    lists.notShorter first second = true ↔
      (lists.durationOf second).TotalLe (lists.durationOf first) := by
  rw [Binary64.totalLe_iff, notShorter, decide_eq_true_iff]

theorem notShorter_trans (hfirst : lists.notShorter first second = true)
    (hsecond : lists.notShorter second third = true) : lists.notShorter first third = true := by
  rw [notShorter_iff] at hfirst hsecond ⊢
  exact hsecond.trans hfirst

theorem notShorter_total (lists : ResolvedLists) (first second : String) :
    (lists.notShorter first second || lists.notShorter second first) = true := by
  rw [Bool.or_eq_true, notShorter_iff, notShorter_iff]
  exact Binary64.totalLe_total _ _

/-- Sorting by duration leaves the tests of each duration in their order. -/
theorem filter_sortByDuration (tests : List String) (duration : Binary64) :
    ((lists.sortByDuration tests).filter fun test ↦ lists.durationOf test = duration) =
      tests.filter fun test ↦ lists.durationOf test = duration := by
  apply filter_mergeSort
  · exact fun _ _ _ ↦ notShorter_trans
  · exact lists.notShorter_total
  · refine List.pairwise_of_forall_mem_list fun first hfirst second hsecond ↦ ?_
    rw [List.mem_filter, decide_eq_true_iff] at hfirst hsecond
    rw [notShorter_iff, hfirst.2, hsecond.2]
    exact duration.totalLe_self

/-- Tests that are sorted by name and then by duration are in order. -/
theorem pairwise_sortByDuration (hnamed : tests.Pairwise (· ≤ ·)) :
    (lists.sortByDuration tests).Pairwise lists.ComesBefore := by
  have hlonger : (lists.sortByDuration tests).Pairwise fun first second ↦
      lists.notShorter first second = true := by
    apply List.pairwise_mergeSort
    · exact fun _ _ _ ↦ notShorter_trans
    · exact lists.notShorter_total
  rw [List.pairwise_iff_forall_sublist] at hlonger ⊢
  intro first second hpair
  refine ⟨notShorter_iff.mp (hlonger hpair), fun hsame ↦ ?_⟩
  -- The pair stands among the tests of its duration, where sorting by duration changes nothing.
  have hkept : [first, second].Sublist
      (tests.filter fun test ↦ lists.durationOf test = lists.durationOf second) := by
    have hfilter := hpair.filter fun test ↦ lists.durationOf test = lists.durationOf second
    rw [filter_sortByDuration] at hfilter
    simpa [hsame] using hfilter
  exact List.pairwise_iff_forall_sublist.mp hnamed (hkept.trans List.filter_sublist)

theorem perm_withoutBookends (lists : ResolvedLists) (tests : List String) :
    (lists.withoutBookends tests).Perm (tests.filter fun test ↦ test ∉ lists.bookends) := by
  have hkept : (tests.filter fun test ↦ !lists.bookends.contains test) =
      tests.filter fun test ↦ test ∉ lists.bookends :=
    List.filter_congr fun test _ ↦ by simp
  rw [withoutBookends, hkept]
  exact List.mergeSort_perm _ _

/-- A profile is given out in two ways. The list by name holds the entries that do not open or close
a run, as often as the profile does, in order; without repetitions if the profile comes from a
resolution. The list by duration holds the same entries, and of any two of them the longer one comes
first, and of two that took equally long the one whose name comes first. Neither shows the order of
the profile. A name without a profile gives an error. -/
theorem get_sorted (lists : ResolvedLists) (profile : String) :
    (lists.members profile = none →
      ∀ byDuration, lists.get profile byDuration = .error (.profileNotFound profile)) ∧
    (∀ test, test ∉ lists.durations.names → lists.durationOf test = Binary64.zero) ∧
    ∀ tests, lists.members profile = some tests → ∃ named timed,
      lists.get profile false = .ok named ∧ lists.get profile true = .ok timed ∧
      named.Perm (tests.filter fun test ↦ test ∉ lists.bookends) ∧ named.Pairwise (· ≤ ·) ∧
      (∀ (resolver : Resolver) definition, resolver.resolve definition = .ok lists →
        named.Pairwise (· < ·)) ∧
      timed.Perm named ∧ timed.Pairwise lists.ComesBefore ∧
      ∀ (others : ResolvedLists) again, others.durations = lists.durations →
        others.bookends = lists.bookends → others.members profile = some again →
        again.Perm tests →
        ∀ byDuration, others.get profile byDuration = lists.get profile byDuration := by
  refine ⟨fun hnone byDuration ↦ ?_, fun test habsent ↦ ?_, fun tests htests ↦ ?_⟩
  · rw [get, hnone]
  · rw [durationOf, Table.get?_eq_none_iff.mpr habsent, Option.getD_none]
  · have hsorted : (lists.withoutBookends tests).Pairwise (· ≤ ·) := pairwise_sortNames _
    refine ⟨lists.withoutBookends tests, lists.sortByDuration (lists.withoutBookends tests),
      ?_, ?_, lists.perm_withoutBookends tests, hsorted, fun resolver definition hresolve ↦ ?_,
      List.mergeSort_perm _ _, pairwise_sortByDuration hsorted, ?_⟩
    · simp only [get, htests, Bool.false_eq_true, if_false]
    · simp only [get, htests, if_true]
    · have hdistinct : tests.Nodup := Resolver.members_nodup hresolve htests
      have hkept := hdistinct.filter fun test ↦ test ∉ lists.bookends
      exact ascending_of_nodup hsorted ((lists.perm_withoutBookends tests).nodup_iff.mpr hkept)
    · intro others again hdurations hbookends hagain hperm byDuration
      exact get_eq_of_perm hdurations hbookends hperm hagain htests byDuration

/-! ### Durations of all kinds -/

/-- A profile with repetitions and bookends. The durations of `nan` and `none` are no numbers,
without and with a sign, and `plus` and `minus` have the two zeros. The tests `a` and `b` have no
recorded duration. -/
def oddLists : ResolvedLists where
  profiles := Table.ofList [("p",
    ["b", "minus", "none", "a", "install", "sixty", "nan", "back", "a", "endless", "plus", "hour",
      "uninstall"])]
  excluded := []
  durations := Table.ofList
    [("back", ⟨0xbff0000000000000⟩), ("endless", ⟨0x7ff0000000000000⟩),
      ("hour", ⟨0x404e000000000000⟩), ("install", ⟨0x4000000000000000⟩),
      ("minus", ⟨0x8000000000000000⟩), ("nan", ⟨0x7ff8000000000000⟩),
      ("none", ⟨0xfff8000000000000⟩), ("plus", ⟨0⟩), ("sixty", ⟨0x404e000000000000⟩)]
  installOverrides := []
  bookends := ["install", "uninstall", "cleanup"]
  diagnostics := []

/-- By name, and with the longest first. Tests without a duration stand beside the zero without a
sign, and the names decide among them. -/
theorem get_sorted_oddLists :
    oddLists.get "p" false =
      .ok ["a", "a", "b", "back", "endless", "hour", "minus", "nan", "none", "plus", "sixty"] ∧
    oddLists.get "p" true =
      .ok ["nan", "endless", "hour", "sixty", "a", "a", "b", "plus", "minus", "back", "none"] ∧
    oddLists.get "q" true = .error (.profileNotFound "q") ∧
    ∃ lists named, Resolver.planlessResolver.resolve Resolver.orderedDefinition = .ok lists ∧
      lists.get "p" false = .ok named ∧ named.Pairwise (· < ·) := by
  obtain ⟨-, -, hfound⟩ := get_sorted oddLists "p"
  obtain ⟨habsent, -, -⟩ := get_sorted oddLists "q"
  obtain ⟨named, timed, hnamed, htimed, hmembers, hsorted, -, hperm, hordered, -⟩ :=
    hfound _ rfl
  have hbyName : named =
      ["a", "a", "b", "back", "endless", "hour", "minus", "nan", "none", "plus", "sixty"] := by
    refine (hmembers.trans ?_).eq_of_pairwise (fun _ _ _ _ ↦ String.le_antisymm) hsorted ?_ <;>
      decide
  have hbyDuration : timed =
      ["nan", "endless", "hour", "sixty", "a", "a", "b", "plus", "minus", "back", "none"] := by
    rw [hbyName] at hperm
    refine (hperm.trans ?_).eq_of_pairwise (fun _ _ _ _ ↦ ComesBefore.antisymm) hordered ?_ <;>
      decide
  rw [hbyName] at hnamed
  rw [hbyDuration] at htimed
  obtain ⟨lists, hresolve, hentries⟩ := Resolver.resolve_ordered
  have hlisted : lists.members "p" = some ["x", "a,b", "e"] := by
    rw [members, ← Table.mem_entries_iff, hentries]
    decide
  obtain ⟨-, -, hresolved⟩ := get_sorted lists "p"
  obtain ⟨names, _, hnames, -, -, -, hstrict, -⟩ := hresolved _ hlisted
  exact ⟨hnamed, htimed, habsent rfl true, lists, names, hresolve, hnames, hstrict _ _ hresolve⟩

end ResolvedLists

end Roster
