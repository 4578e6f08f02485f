import Roster.CommandLine.Run
import Roster.Proofs.Lists.UpgradeLookup

/-!
# Two ways to ask for install runs

The install runs of some tests are asked for by the name of their profile, or by the tests
themselves in one text. By the name, the profiles are resolved, and the list of the profile is
decorated; the text is cut at its white space, and nothing is read but the list definition.

The two agree where the text joins what the profile gives (`CommandLine.run_installTag_agree`).
Cutting undoes the joining as long as no test is empty or has white space
(`Text.words_intercalate`), and a resolution keeps the override tests of its definition
(`CommandLine.installOverrides_of_resolvedLists`).
-/

set_option autoImplicit false
set_option relaxedAutoImplicit false

namespace Roster

/-! ### Words with single blanks between them -/

/-- A text that is one word: there is something in it, and none of it is white space. -/
def IsWord (text : String) : Prop :=
  text ≠ "" ∧ ∀ character ∈ text.toList, Text.isBlank character = false

instance (text : String) : Decidable (IsWord text) :=
  decidable_of_iff (text ≠ "" ∧ text.toList.all (!Text.isBlank ·) = true) (by simp [IsWord])

namespace Text

/-- Characters other than white space belong to the word that is being read. -/
theorem wordsFrom_append {piece : List Char}
    (hvisible : ∀ character ∈ piece, isBlank character = false) (word rest : List Char) :
    wordsFrom word (piece ++ rest) = wordsFrom (word ++ piece) rest := by
  induction piece generalizing word with
  | nil => simp
  | cons first others ih =>
    obtain ⟨hfirst, hothers⟩ := List.forall_mem_cons.mp hvisible
    rw [List.cons_append, wordsFrom, hfirst, if_neg Bool.false_ne_true, ih hothers,
      List.append_assoc, List.singleton_append]

/-- The words of pieces with a blank between each two of them are the pieces. -/
theorem words_intercalate_blank {pieces : List (List Char)}
    (hpieces : ∀ piece ∈ pieces, piece ≠ [] ∧ ∀ character ∈ piece, isBlank character = false) :
    words ([' '].intercalate pieces) = pieces := by
  induction pieces with
  | nil => rfl
  | cons piece rest ih =>
    obtain ⟨⟨hsome, hvisible⟩, hrest⟩ := List.forall_mem_cons.mp hpieces
    have hword : piece.isEmpty = false := by simpa using hsome
    have hblank : isBlank ' ' = true := by decide
    cases rest with
    | nil =>
      rw [List.intercalate_singleton, words, ← List.append_nil piece, wordsFrom_append hvisible,
        List.nil_append, wordsFrom, hword]
      simp
    | cons second others =>
      rw [List.intercalate_cons_cons, List.append_assoc, words, wordsFrom_append hvisible,
        List.nil_append, List.singleton_append, wordsFrom, if_pos hblank, hword,
        if_neg Bool.false_ne_true]
      exact congrArg (piece :: ·) (ih hrest)

/-- Words that are joined with single blanks are read back. -/
theorem words_intercalate {texts : List String} (htexts : ∀ text ∈ texts, IsWord text) :
    (words (String.intercalate " " texts).toList).map String.ofList = texts := by
  have hblank : " ".toList = [' '] := rfl
  rw [String.toList_intercalate, hblank, words_intercalate_blank]
  · simp
  · rintro piece hpiece
    obtain ⟨text, htext, rfl⟩ := List.mem_map.mp hpiece
    obtain ⟨hsome, hvisible⟩ := htexts text htext
    exact ⟨by simpa using hsome, hvisible⟩

end Text

namespace CommandLine

variable {disk : Disk} {settings : Settings} {lists : ResolvedLists}

/-! ### What the two ways have in common -/

/-- Lists that could be resolved come from a definition that could be read, and have its override
tests. -/
theorem installOverrides_of_resolvedLists (hlists : settings.resolvedLists disk = .ok lists) :
    ∃ definition, settings.definition disk = .ok definition ∧
      lists.installOverrides = definition.metadata.installOverrides := by
  obtain ⟨definition, hdefinition, hresolve⟩ := bind_eq_ok_iff.mp hlists
  obtain ⟨based, reports, _, rfl⟩ := Resolver.resolve_eq_ok_iff.mp hresolve
  exact ⟨definition, hdefinition, rfl⟩

/-- What a request for install runs gives for tests that are known. -/
def installOutcome (disk : Disk) (settings : Settings) (warnings tests overrides : List String)
    (plan tag : Option String) : Outcome :=
  .ofResult disk warnings ((runsOf disk settings tests overrides plan tag).map runsText)

/-- Asked for by the name of a profile, the runs are those of its list between an install and an
uninstall. -/
theorem runInstallTag_profile (hlists : settings.resolvedLists disk = .ok lists) {profile : String}
    {tests : List String} (hget : lists.get profile false = .ok tests) (plan tag : Option String) :
    runInstallTag disk settings (some (.profile profile)) plan tag =
      installOutcome disk settings (warningLines lists.diagnostics)
        (installTest :: (tests ++ [uninstallTest])) lists.installOverrides plan tag := by
  have hwhole : wholeRun lists profile = .ok (installTest :: (tests ++ [uninstallTest])) := by
    rw [wholeRun, hget]
    rfl
  delta runInstallTag
  simp only [hlists, hwhole]
  rfl

/-- Asked for by a text, the runs are those of its words. -/
theorem runInstallTag_listed {definition : ListDefinition}
    (hdefinition : settings.definition disk = .ok definition) (text : String)
    (plan tag : Option String) :
    runInstallTag disk settings (some (.listed text)) plan tag =
      installOutcome disk settings [] ((Text.words text.toList).map String.ofList)
        definition.metadata.installOverrides plan tag := by
  delta runInstallTag
  simp only [hdefinition]
  rfl

/-! ### Agreement -/

/-- A request for the install runs of some tests, with the files and directories of another request.
-/
def Request.forInstallRuns (shared : Request) (source : TestSource) (plan tag : Option String) :
    Request :=
  { shared with command := .installTag (some source) plan tag }

/-- A request for install runs is carried out under the settings of the request that it shares its
files and directories with. -/
theorem run_forInstallRuns {shared : Request} {environment : Environment}
    (hsettings : shared.settings disk environment = .ok settings) (source : TestSource)
    (plan tag : Option String) :
    (shared.forInstallRuns source plan tag).run disk environment =
      runInstallTag disk settings (some source) plan tag := by
  have hsame : (shared.forInstallRuns source plan tag).settings disk environment = .ok settings :=
    hsettings
  rw [Request.run, if_neg (by simp [Request.forInstallRuns]), hsame]
  rfl

/-- Let lists be resolved, and let no entry that one of their profiles gives be empty or have white
space. Then the request for the install runs of the profile, and the request for those of a text
that joins an install, the entries and an uninstall with single blanks, print the same runs or fail
in the same way, whatever the plan and the tag are. -/
theorem run_installTag_agree {shared : Request} {environment : Environment}
    (hsettings : shared.settings disk environment = .ok settings)
    (hlists : settings.resolvedLists disk = .ok lists) {profile : String}
    (hprofile : profile ∈ lists.names) :
    ∃ tests, lists.get profile false = .ok tests ∧
      ((∀ test ∈ tests, IsWord test) → ∀ plan tag : Option String,
        let byName := (shared.forInstallRuns (.profile profile) plan tag).run disk environment
        let byText := (shared.forInstallRuns
          (.listed (String.intercalate " " (installTest :: (tests ++ [uninstallTest])))) plan
          tag).run disk environment
        (∃ runs : Runs, byName.ending = .done ∧ byText.ending = .done ∧
          byName.output = runsText runs ∧ byText.output = runsText runs) ∨
        ∃ failure : Failure, byName.ending = .failed failure ∧ byText.ending = .failed failure ∧
          byName.output = "" ∧ byText.output = "") := by
  obtain ⟨entries, hentries⟩ := Table.mem_names_iff.mp hprofile
  obtain ⟨tests, hget, _⟩ := ResolvedLists.exists_get_eq_ok hentries false
  refine ⟨tests, hget, fun hwords plan tag ↦ ?_⟩
  obtain ⟨definition, hdefinition, hoverrides⟩ := installOverrides_of_resolvedLists hlists
  have hall : ∀ test ∈ installTest :: (tests ++ [uninstallTest]), IsWord test := by
    intro test htest
    simp only [List.mem_cons, List.mem_append, List.not_mem_nil, or_false] at htest
    rcases htest with rfl | htest | rfl
    · decide +kernel
    · exact hwords test htest
    · decide +kernel
  have htext := Text.words_intercalate hall
  simp only [run_forInstallRuns hsettings, runInstallTag_profile hlists hget,
    runInstallTag_listed hdefinition, htext, ← hoverrides, installOutcome]
  cases runsOf disk settings (installTest :: (tests ++ [uninstallTest])) lists.installOverrides plan
    tag with
  | ok runs => exact .inl ⟨runs, rfl, rfl, rfl, rfl⟩
  | error failure => exact .inr ⟨failure, rfl, rfl, rfl, rfl⟩

/-! ### A profile with an override test -/

/-- A list definition with an override test in a profile, and a plan that names a release. -/
def overrideDisk : Disk where
  root := .directory
    [("configurations", .directory [("testlists.yaml", .file (Text.Utf8.encode
        ("testprofiles:\n  p: [upgrade]\n" ++
          "metadata:\n  install_tag_override: \x7btests: [upgrade]\x7d\n")))]),
      ("testplans", .directory [("common.yaml", .file (Text.Utf8.encode
        "meta: \x7bupgrade-from-version: '2.5'\x7d\n"))])]
  workingDirectory := []

/-- A request that names no files and directories. -/
def bareRequest : Request := ⟨none, none, none, .profiles⟩

/-- No environment variable is set, and the user has no home. -/
def bareEnvironment : Environment := .ofList []

/-- What is printed for the profile: an install of the release that the plan names, and all other
tests. -/
def overrideText : String :=
  "\x7b\n  \"install\": \x7b\n    \"tag\": \"2.5\",\n" ++
  "    \"tests\": [\n      \"install\"\n    ]\n  \x7d,\n" ++
  "  \"main\": \x7b\n    \"tests\": [\n      \"upgrade\",\n      \"uninstall\"\n    ]\n  \x7d\n\x7d\n"

/-- The profile is resolved under the standard settings. -/
theorem resolvedLists_overrideDisk :
    bareRequest.settings overrideDisk bareEnvironment = .ok Settings.standard ∧
      ∃ lists, Settings.standard.resolvedLists overrideDisk = .ok lists ∧
        lists.profiles.entries = [("ALL", ["upgrade"]), ("p", ["upgrade"])] ∧
        lists.bookends = ["install", "uninstall"] := by
  have hsettings : (bareRequest.settings overrideDisk bareEnvironment).toOption.map id =
      some Settings.standard := by
    decide +kernel
  have hlists : (Settings.standard.resolvedLists overrideDisk).toOption.map
      (fun lists ↦ (lists.profiles.entries, lists.bookends)) =
        some ([("ALL", ["upgrade"]), ("p", ["upgrade"])], ["install", "uninstall"]) := by
    decide +kernel
  obtain ⟨settings, hloaded, hsame⟩ := exists_eq_ok_of_toOption hsettings
  obtain ⟨lists, hresolved, hshown⟩ := exists_eq_ok_of_toOption hlists
  exact ⟨by rw [hloaded, ← hsame, id], lists, hresolved, (Prod.mk.inj hshown).1,
    (Prod.mk.inj hshown).2⟩

/-- Without a plan there is no release for the install. -/
theorem ending_listed_overrideDisk :
    ((bareRequest.forInstallRuns (.listed "install upgrade uninstall") none none).run overrideDisk
      bareEnvironment).ending = .failed (.upgrade .noSource) := by
  have hshown : (Settings.standard.definition overrideDisk).toOption.map
      (fun definition ↦ definition.metadata.installOverrides) = some ["upgrade"] := by
    decide +kernel
  obtain ⟨definition, hdefinition, hoverrides⟩ := exists_eq_ok_of_toOption hshown
  have hwords : (Text.words "install upgrade uninstall".toList).map String.ofList =
      ["install", "upgrade", "uninstall"] := by
    decide
  rw [run_forInstallRuns resolvedLists_overrideDisk.1, runInstallTag_listed hdefinition, hoverrides,
    hwords]
  rfl

/-- There the two ways print the same runs under the release of the plan, and without the plan both
fail for want of a release. -/
theorem run_installTag_agree_override :
    let byName := (bareRequest.forInstallRuns (.profile "p") (some "common") none).run
      overrideDisk bareEnvironment
    let byText := (bareRequest.forInstallRuns (.listed "install upgrade uninstall") (some "common")
      none).run overrideDisk bareEnvironment
    let byNameAlone := (bareRequest.forInstallRuns (.profile "p") none none).run overrideDisk
      bareEnvironment
    let byTextAlone := (bareRequest.forInstallRuns (.listed "install upgrade uninstall") none
      none).run overrideDisk bareEnvironment
    (byName.ending = .done ∧ byText.ending = .done ∧ byName.output = overrideText ∧
        byText.output = overrideText) ∧
      byNameAlone.ending = .failed (.upgrade .noSource) ∧
        byTextAlone.ending = .failed (.upgrade .noSource) := by
  obtain ⟨hsettings, lists, hlists, hentries, hbookends⟩ := resolvedLists_overrideDisk
  have hmembers : lists.members "p" = some ["upgrade"] := by
    rw [ResolvedLists.members, ← Table.mem_entries_iff, hentries]
    decide
  have hsingle : lists.get "p" false = .ok ["upgrade"] := by
    simp [ResolvedLists.get, hmembers, ResolvedLists.withoutBookends, hbookends, sortNames]
  obtain ⟨tests, hget, hagree⟩ :=
    run_installTag_agree hsettings hlists (Table.mem_names_iff.mpr ⟨_, hmembers⟩)
  obtain rfl : ["upgrade"] = tests := Except.ok.inj (hsingle.symm.trans hget)
  have hjoined : String.intercalate " " (installTest :: (["upgrade"] ++ [uninstallTest])) =
      "install upgrade uninstall" := by
    decide
  have hprinted : ((bareRequest.forInstallRuns (.listed "install upgrade uninstall") (some "common")
      none).run overrideDisk bareEnvironment).output = overrideText := by
    decide +kernel
  have hsome : overrideText ≠ "" := by decide +kernel
  have hfailed := ending_listed_overrideDisk
  rw [hjoined] at hagree
  refine ⟨?_, ?_⟩
  · obtain ⟨runs, hname, htext, hsame, hshown⟩ | ⟨_, _, _, _, hnothing⟩ :=
      hagree (by decide) (some "common") none
    · exact ⟨hname, htext, hsame.trans (hshown.symm.trans hprinted), hprinted⟩
    · exact absurd (hprinted.symm.trans hnothing) hsome
  · obtain ⟨_, _, hdone, _⟩ | ⟨failure, hname, htext, _⟩ := hagree (by decide) none none
    · cases hdone.symm.trans hfailed
    · cases htext.symm.trans hfailed
      exact ⟨hname, hfailed⟩

end CommandLine

end Roster
