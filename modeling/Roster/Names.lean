/-!
# Sorted lists of names

Names are ordered by code point. A list of names is *ascending* when each name comes before all
later ones, so that no name is in it twice (`Ascending`). `insertName` puts a name where it belongs
and leaves the list alone when the name is there already; `ascending` sorts a list of names and
drops the repetitions.

Main statements: `mem_insertName` and `mem_ascending` say what the lists hold,
`insertName_ascending` and `ascending_ascending` that they are in order.

`sortNames` sorts and keeps repetitions, and `withoutRepeats` drops them without sorting.
-/

set_option autoImplicit false
set_option relaxedAutoImplicit false

namespace Roster

/-- Each name comes before all later ones. -/
def Ascending (names : List String) : Prop :=
  names.Pairwise (· < ·)

instance (names : List String) : Decidable (Ascending names) :=
  inferInstanceAs (Decidable (names.Pairwise (· < ·)))

/-- A name added to an ascending list at its place, once. -/
def insertName (name : String) : List String → List String
  | [] => [name]
  | first :: rest =>
    if name < first then name :: first :: rest
    else if name = first then first :: rest
    else first :: insertName name rest

/-- The names of a list in ascending order, each once. -/
def ascending (names : List String) : List String :=
  names.foldr insertName []

/-- The names of a list in order, as often as they occur in it. -/
def sortNames (names : List String) : List String :=
  names.mergeSort fun first second ↦ decide (first ≤ second)

/-- The names of a list in the order of their first occurrences, leaving out those in `seen`. -/
def withoutRepeatsFrom (seen : List String) : List String → List String
  | [] => []
  | name :: rest =>
    if name ∈ seen then withoutRepeatsFrom seen rest
    else name :: withoutRepeatsFrom (name :: seen) rest

/-- The names of a list, each at its first occurrence only. -/
def withoutRepeats (names : List String) : List String :=
  withoutRepeatsFrom [] names

/-- Of two different names that do not come in this order, the other comes first. -/
theorem lt_of_not_lt_of_ne {first second : String} (not_before : ¬ first < second)
    (different : first ≠ second) : second < first := by
  rcases String.le_total first second with le | le
  · exact absurd (String.le_antisymm le (String.not_lt.1 not_before)) different
  · exact String.not_le.1 fun ge ↦ different (String.le_antisymm ge le)

theorem mem_insertName {name other : String} {names : List String} :
    other ∈ insertName name names ↔ other = name ∨ other ∈ names := by
  induction names with
  | nil => simp [insertName]
  | cons first rest ih =>
    rw [insertName]
    split
    · simp
    · split
      · next same => subst same; simp
      · simp [ih, or_left_comm]

theorem insertName_ascending {name : String} {names : List String} (sorted : Ascending names) :
    Ascending (insertName name names) := by
  induction names with
  | nil => simp [insertName, Ascending]
  | cons first rest ih =>
    obtain ⟨before, sorted_rest⟩ := List.pairwise_cons.1 sorted
    rw [insertName]
    split
    · next less =>
      refine List.pairwise_cons.2 ⟨fun other mem ↦ ?_, sorted⟩
      rcases List.mem_cons.1 mem with rfl | mem
      · exact less
      · exact String.lt_trans less (before other mem)
    · split
      · exact sorted
      · next not_less different =>
        refine List.pairwise_cons.2 ⟨fun other mem ↦ ?_, ih sorted_rest⟩
        rcases mem_insertName.1 mem with rfl | mem
        · exact lt_of_not_lt_of_ne not_less different
        · exact before other mem

@[simp] theorem mem_ascending {name : String} {names : List String} :
    name ∈ ascending names ↔ name ∈ names := by
  induction names with
  | nil => simp [ascending]
  | cons first rest ih =>
    have step : ascending (first :: rest) = insertName first (ascending rest) := rfl
    rw [step, mem_insertName, ih, List.mem_cons]

theorem ascending_ascending (names : List String) : Ascending (ascending names) := by
  induction names with
  | nil => simp [ascending, Ascending]
  | cons first rest ih => exact insertName_ascending ih

end Roster
