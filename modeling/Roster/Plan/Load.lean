import Roster.File.Tree
import Roster.Plan.Document

/-!
# Loading plans

A `PlanDirectory` is a directory of a disk that holds one document for each plan. `read` reads the
document of a plan and `load` follows what it includes as well: the entries of an included plan
replace those of the plan that includes it, and a later one replaces an earlier one.

A plan must not include itself, directly or through others. `loadBelow` therefore keeps the chain of
plans that it is loading, and refuses a name that is in the chain already. This also bounds the
work: every name in the chain, except possibly the first, stands in an include list of some file of
the disk, and a disk has finitely many files. `outside_lt` and `includes_includable` say this.
-/

set_option autoImplicit false
set_option relaxedAutoImplicit false

namespace Roster

/-- Why a plan cannot be loaded. -/
inductive PlanError
  /-- The plan has no document. -/
  | notFound (name : String) (path : Path)
  /-- The file system refuses to read something. -/
  | file (path : Path) (fault : FileFault)
  /-- The document of a plan is not one. -/
  | malformed (path : Path) (fault : Yaml.ReadError)
  /-- Each plan of the chain includes the next one, and the last one is in it before. -/
  | includeCycle (chain : List String)

/-- The wording of an error. What is wrong inside a document is left to its reader. -/
def PlanError.message : PlanError → String
  | .notFound name path => "Plan " ++ name ++ " not found at " ++ path.text
  | .file path fault => "IO error at " ++ path.text ++ ": " ++ fault.message
  | .malformed path _ => "Invalid plan document " ++ path.text
  | .includeCycle chain => "Plan include cycle: " ++ String.intercalate " -> " chain

/-- What the reader of a document says about an error, if it has words of its own for it. -/
def PlanError.detail? : PlanError → Option String
  | .malformed _ fault => fault.detail?
  | _ => none

/-- A plan with all that it includes. -/
structure LoadedPlan where
  /-- The entries by name. -/
  testcases : Table Testcase
  /-- What concerns the plan as a whole, and after it the same of each plan that it includes, in
  order. -/
  metas : List PlanMeta
deriving Inhabited

namespace LoadedPlan

/-- A plan that includes nothing. -/
def ofDocument (document : PlanDocument) : LoadedPlan :=
  ⟨document.testcases, [document.planMeta]⟩

/-- A plan with one more plan included. -/
def merge (plan included : LoadedPlan) : LoadedPlan :=
  ⟨plan.testcases.insertAll included.testcases.entries, plan.metas ++ included.metas⟩

/-- The releases that upgrade tests start from, as far as the plan and those that it includes name
one. -/
def upgradeVersions (plan : LoadedPlan) : List String :=
  plan.metas.filterMap PlanMeta.upgradeFrom

end LoadedPlan

/-- A directory of a disk with the documents of plans. -/
structure PlanDirectory where
  /-- The disk. -/
  disk : Disk
  /-- The directory. -/
  path : Path

namespace PlanDirectory

/-- What the name of a plan's file ends with, behind its last dot. -/
def fileSuffix : String := "yaml"

/-- Entries whose names end in one of these prepare or clean up a suite. They are no tests. -/
def hookEndings : List String := ["BeforeSuite", "AfterSuite"]

/-- The path of the document of a plan. -/
def pathOf (plans : PlanDirectory) (name : String) : Path :=
  plans.path.join (name ++ "." ++ fileSuffix)

/-- The document of a plan. -/
def read (plans : PlanDirectory) (name : String) : Except PlanError PlanDocument :=
  let path := plans.pathOf name
  if plans.disk.isFile path then
    match plans.disk.readText path with
    | .error fault => .error (.file path fault)
    | .ok text =>
      match PlanDocument.ofYaml text with
      | .error fault => .error (.malformed path fault)
      | .ok document => .ok document
  else .error (.notFound name path)

/-- The names in the include list of the document that the bytes of a file may hold. -/
def includesOfBytes (bytes : List UInt8) : List String :=
  match Text.Utf8.decode bytes with
  | some text =>
    match PlanDocument.ofYaml text with
    | .ok document => document.planMeta.includes
    | .error _ => []
  | none => []

/-- The names that some file of the disk includes. -/
def includable (plans : PlanDirectory) : List String :=
  plans.disk.root.contents.flatMap includesOfBytes

/-- How many of some names are not among others. -/
def outside (names others : List String) : Nat :=
  (names.filter fun name ↦ name ∉ others).length

theorem outside_le (names others : List String) (name : String) :
    outside names (others ++ [name]) ≤ outside names others := by
  induction names with
  | nil => simp [outside]
  | cons first rest ih =>
    simp only [outside, List.filter_cons] at ih ⊢
    split <;> split <;> simp_all
    omega

/-- A name that is in no chain yet is one less to come when it enters the chain. -/
theorem outside_lt {names others : List String} {name : String} (known : name ∈ names)
    (fresh : name ∉ others) : outside names (others ++ [name]) < outside names others := by
  induction names with
  | nil => cases known
  | cons first rest ih =>
    have smaller := outside_le rest others name
    simp only [outside, List.filter_cons] at ih smaller ⊢
    rcases List.mem_cons.1 known with rfl | mem
    · simp [fresh]
      simp at smaller
      omega
    · have less := ih mem
      split <;> split <;> grind

/-- What a readable plan includes is includable. -/
theorem includes_includable {plans : PlanDirectory} {name : String} {document : PlanDocument}
    (found : plans.read name = .ok document) :
    ∀ included ∈ document.planMeta.includes, included ∈ plans.includable := by
  intro included mem
  simp only [read] at found
  split at found
  · split at found
    · cases found
    · next text read_text =>
      split at found
      · cases found
      · next same of_yaml =>
        cases found
        simp only [Disk.readText] at read_text
        split at read_text
        · next bytes read_bytes =>
          split at read_text
          · next decoded decode_bytes =>
            cases read_text
            refine List.mem_flatMap.2 ⟨bytes, Disk.bytes_mem_contents read_bytes, ?_⟩
            simpa [includesOfBytes, decode_bytes, of_yaml] using mem
          · cases read_text
        · cases read_text
  · cases found

/-- How much is left to do for a plan below a chain of others: twice the number of names that can
still enter the chain, and one more for a name that no file includes. -/
def remaining (plans : PlanDirectory) (chain : List String) (name : String) : Nat :=
  2 * outside plans.includable chain + if name ∈ plans.includable then 0 else 1

theorem remaining_lt {plans : PlanDirectory} {chain : List String} {name included : String}
    (fresh : name ∉ chain) (known : included ∈ plans.includable) :
    plans.remaining (chain ++ [name]) included < plans.remaining chain name := by
  have smaller := outside_le plans.includable chain name
  simp only [remaining, known, if_true]
  split
  · next mem =>
    have less := outside_lt mem fresh
    omega
  · omega

/-- Loads a plan below a chain of plans that include each other. -/
def loadBelow (plans : PlanDirectory) (chain : List String) (name : String) :
    Except PlanError LoadedPlan :=
  if _ : name ∈ chain then .error (.includeCycle (chain ++ [name]))
  else
    match _ : plans.read name with
    | .error fault => .error fault
    | .ok document =>
      document.planMeta.includes.attach.foldlM
        (fun plan included ↦ do
          return plan.merge (← plans.loadBelow (chain ++ [name]) included.1))
        (.ofDocument document)
termination_by plans.remaining chain name
decreasing_by exact remaining_lt ‹_› (includes_includable ‹_› included.1 included.2)

/-- A plan with all that it includes. -/
def load (plans : PlanDirectory) (name : String) : Except PlanError LoadedPlan :=
  plans.loadBelow [] name

/-- An entry that prepares or cleans up a suite. -/
def isHook (name : String) : Bool :=
  hookEndings.any fun ending ↦ ending.toList.isSuffixOf name.toList

/-- The entries of a plan that are tests, by name. -/
def testsOf (plans : PlanDirectory) (name : String) : Except PlanError (List (String × Testcase)) :=
  (plans.load name).map fun plan ↦ plan.testcases.entries.filter fun entry ↦ !isHook entry.1

/-- The plan that an entry of the directory holds. -/
def nameOfEntry : String × FileTree → Option String
  | (name, .file _) => if Path.suffix name = some fileSuffix then some (Path.stem name) else none
  | (_, .directory _) => none

/-- The names of all plans of the directory, in order. -/
def names (plans : PlanDirectory) : Except PlanError (List String) :=
  match plans.disk.listDirectory plans.path with
  | .error fault => .error (.file plans.path fault)
  | .ok entries => .ok (sortNames (entries.filterMap nameOfEntry))

end PlanDirectory

end Roster
