import Roster.CommandLine.Run
import Roster.Proofs.FallibleRuns
import Roster.Proofs.Settings.WrittenSettings

/-!
# The settings of a run

The settings of a run come from four sources, each under the one before it: the options of the
request, the environment, one settings file, and the standard settings (`Request.settings_eq`). The
file is the one that is asked for, or else the one in the working directory, or else the one of the
user (`FileLayer`).

All paths are taken from the root of the source tree that results from this, whatever source they
come from, except for a list definition among the options, which is taken from the working directory
(`Request.settings_precedence`).
-/

set_option autoImplicit false
set_option relaxedAutoImplicit false

namespace Roster

/-! ### Paths taken from a directory -/

namespace Path

/-- A path taken from a directory. One that starts at the root is kept. -/
def takenFrom (directory path : Path) : Path :=
  if path.isAbsolute then path else directory.join path

theorem takenFrom_eq_join (directory path : Path) :
    directory.takenFrom path = directory.join path := by
  rw [takenFrom]
  split
  · next habsolute => rw [join, if_pos habsolute]
  · rfl

/-- Behind a path from the root stands a path from the root. -/
theorem isAbsolute_join_of_isAbsolute {base : Path} (hbase : base.isAbsolute = true) (path : Path) :
    (base.join path).isAbsolute = true := by
  obtain ⟨rest, htext⟩ : ∃ rest, base.text.toList = '/' :: rest := by
    simpa [isAbsolute, List.head?_eq_some_iff] using hbase
  rw [join]
  split
  · next habsolute => exact habsolute
  · split <;> simp [isAbsolute, htext]

end Path

theorem Disk.isAbsolute_pathOfPlace (place : List String) :
    (pathOfPlace place).isAbsolute = true := by
  simp [Path.isAbsolute, pathOfPlace]

/-! ### The file -/

namespace Settings

variable {disk : Disk} {environment : Environment} {settings : Settings}

/-- The file of a path says what a layer has. -/
def Holds (disk : Disk) (path : Path) (layer : Layer) : Prop :=
  ∃ text tables, disk.readText path = .ok text ∧ Toml.Value.ofToml? text = some (.table tables) ∧
    Says tables layer

/-- The layer of the settings file, which is asked for or not. -/
inductive FileLayer (disk : Disk) (environment : Environment) : Option Path → Layer → Prop
  /-- The file that is asked for counts. -/
  | asked {path : Path} {layer : Layer} (hholds : Holds disk path layer) :
      FileLayer disk environment (some path) layer
  /-- Otherwise the one in the working directory counts if it is there. -/
  | nearby {layer : Layer} (hexists : disk.exists? "testlists.toml" = true)
      (hholds : Holds disk "testlists.toml" layer) : FileLayer disk environment none layer
  /-- Otherwise the one of the user counts if it is there. -/
  | user {path : Path} {layer : Layer} (hnearby : disk.exists? "testlists.toml" = false)
      (huser : userFile environment = some path) (hexists : disk.exists? path = true)
      (hholds : Holds disk path layer) : FileLayer disk environment none layer
  /-- Otherwise there is no file. -/
  | missing (hnearby : disk.exists? "testlists.toml" = false)
      (huser : ∀ path, userFile environment = some path → disk.exists? path = false) :
      FileLayer disk environment none .silent

/-- The layer of the environment. -/
def Layer.ofEnvironment (environment : Environment) : Layer :=
  { Layer.silent with
    sourceTree := (environment.get? "TESTLISTS_SOURCE_TREE").map Path.mk
    lists := (environment.get? "TESTLISTS_LISTS").map Path.mk
    plansDirectory := (environment.get? "TESTLISTS_PLANS_DIR").map Path.mk
    separator := environment.get? "TESTLISTS_SEPARATOR" }

/-- The environment lies over the settings. -/
theorem withEnvironment_eq_settle (settings : Settings) (environment : Environment) :
    settings.withEnvironment environment = (Layer.ofEnvironment environment).settle settings :=
  rfl

/-- Settings that can be worked with are what was to be checked. -/
theorem eq_of_finish {checked : Settings} (hfinish : settings.finish environment = .ok checked) :
    checked = (Layer.ofEnvironment environment).settle settings := by
  obtain ⟨_, _, rfl⟩ := map_eq_ok_iff.mp hfinish
  exact withEnvironment_eq_settle settings environment

/-- The settings of a file are the standard ones under the environment and the file. -/
theorem exists_layer_of_ofFile {path : Path} (hread : ofFile disk environment path = .ok settings) :
    ∃ layer, Holds disk path layer ∧
      settings = ((Layer.ofEnvironment environment).orElse layer).settle standard := by
  rw [ofFile] at hread
  split at hread
  · cases hread
  · next text htext =>
    split at hread
    · cases hread
    · next written hwritten =>
      obtain ⟨tables, layer, htables, hsays, rfl⟩ := exists_layer_of_ofToml? hwritten
      refine ⟨layer, ⟨text, tables, htext, htables, hsays⟩, ?_⟩
      rw [eq_of_finish hread, Layer.settle_orElse]

/-- The settings that are loaded are the standard ones under the environment and one file. -/
theorem exists_layer_of_load {file : Option Path}
    (hload : load disk environment file = .ok settings) :
    ∃ layer, FileLayer disk environment file layer ∧
      settings = ((Layer.ofEnvironment environment).orElse layer).settle standard := by
  rw [load] at hload
  cases file with
  | some path =>
    obtain ⟨layer, hholds, hsettings⟩ := exists_layer_of_ofFile hload
    exact ⟨layer, .asked hholds, hsettings⟩
  | none =>
    rw [Option.none_or, defaultFile] at hload
    cases hnearby : disk.exists? localFile with
    | true =>
      rw [hnearby] at hload
      obtain ⟨layer, hholds, hsettings⟩ := exists_layer_of_ofFile hload
      exact ⟨layer, .nearby hnearby hholds, hsettings⟩
    | false =>
      rw [hnearby, if_neg Bool.false_ne_true] at hload
      cases hfile : (userFile environment).filter disk.exists? with
      | some path =>
        rw [hfile] at hload
        obtain ⟨huser, hexists⟩ := Option.filter_eq_some_iff.mp hfile
        obtain ⟨layer, hholds, hsettings⟩ := exists_layer_of_ofFile hload
        exact ⟨layer, .user hnearby huser hexists hholds, hsettings⟩
      | none =>
        rw [hfile] at hload
        refine ⟨.silent, .missing hnearby fun path hpath ↦ ?_, ?_⟩
        · simpa [hpath] using hfile
        · rw [eq_of_finish hload, Layer.settle_orElse, Layer.settle_silent]

end Settings

/-! ### The request -/

namespace CommandLine

open Settings

variable {request : Request} {disk : Disk} {environment : Environment} {settings : Settings}

/-- The layer of a request: its options about files and directories. A list definition among them is
taken from the working directory. -/
def Request.layer (request : Request) (disk : Disk) : Layer :=
  { Layer.silent with
    sourceTree := request.sourceTree
    lists := request.lists.map (Disk.pathOfPlace disk.workingDirectory).join }

/-- The settings of a request are the standard ones under the request, the environment and one file.
-/
theorem Request.settings_eq (hsettings : request.settings disk environment = .ok settings) :
    ∃ layer, FileLayer disk environment request.config layer ∧
      settings = ((request.layer disk).orElse
        ((Layer.ofEnvironment environment).orElse layer)).settle standard := by
  obtain ⟨loaded, hload, rfl⟩ := map_eq_ok_iff.mp hsettings
  obtain ⟨layer, hfile, rfl⟩ := exists_layer_of_load hload
  refine ⟨layer, hfile, ?_⟩
  rw [Layer.settle_orElse (request.layer disk)]
  rfl

/-- Under settings that could be loaded, the source tree is the one of the request, of the
environment, of the settings file or the standard one, in this order. The list definition is that of
the request, from the working directory, or else that of the environment, of the file or the
standard one, from the source tree. The plans are those of the environment, of the file or the
standard ones, and the roots of the sources those of the file or the standard ones, all from the
source tree. What stands between two tests is said by the request for a profile, the environment,
the file or the standard settings, and the rest by the file or the standard settings. A command
other than the one that shows the standard settings is carried out under these settings. -/
theorem Request.settings_precedence
    (hsettings : request.settings disk environment = .ok settings) :
    ∃ file : Layer, FileLayer disk environment request.config file ∧
      settings.sourceTree = (request.sourceTree.or
        (((environment.get? "TESTLISTS_SOURCE_TREE").map Path.mk).or file.sourceTree)).getD "." ∧
      settings.listsPath = (match request.lists with
        | some lists => (Disk.pathOfPlace disk.workingDirectory).join lists
        | none => settings.sourceTree.takenFrom
          ((((environment.get? "TESTLISTS_LISTS").map Path.mk).or file.lists).getD
            "configurations/testlists.yaml")) ∧
      settings.plansPath = settings.sourceTree.takenFrom
        ((((environment.get? "TESTLISTS_PLANS_DIR").map Path.mk).or file.plansDirectory).getD
          "testplans") ∧
      settings.scrapeRootPaths =
        (file.scrapeRoots.getD ["src/tests/*"]).map settings.sourceTree.takenFrom ∧
      (∀ get : GetRequest, (get.options settings).separator =
        (get.separator.or ((environment.get? "TESTLISTS_SEPARATOR").or file.separator)).getD " ") ∧
      (∀ get : GetRequest, (get.options settings).format =
        (get.format.or file.format).getD .plain) ∧
      settings.suffixes = file.suffixes.getD ["go"] ∧
      settings.reservedPlans =
        file.reservedPlans.getD ["deprecated", "common", "unscheduled", "upgrade"] ∧
      settings.bookends = file.bookends.getD ["install", "uninstall"] ∧
      (request.command ≠ .defaultConfig →
        request.run disk environment = runCommand disk settings request.command) := by
  obtain ⟨file, hfile, hlayers⟩ := settings_eq hsettings
  have htree : settings.underTree = settings.sourceTree.takenFrom :=
    funext fun path ↦ (Path.takenFrom_eq_join settings.sourceTree path).symm
  have hlists : settings.lists =
      ((request.lists.map (Disk.pathOfPlace disk.workingDirectory).join).or
        (((environment.get? "TESTLISTS_LISTS").map Path.mk).or file.lists)).getD
          "configurations/testlists.yaml" := by
    rw [hlayers]
    rfl
  refine ⟨file, hfile, ?_, ?_, ?_, ?_, fun get ↦ ?_, fun get ↦ ?_, ?_, ?_, ?_, fun hcommand ↦ ?_⟩
  · rw [hlayers]
    rfl
  · rw [listsPath, htree, hlists]
    cases request.lists with
    | some lists =>
      have habsolute := Path.isAbsolute_join_of_isAbsolute
        (Disk.isAbsolute_pathOfPlace disk.workingDirectory) lists
      exact if_pos habsolute
    | none => rfl
  · rw [plansPath, htree, hlayers]
    rfl
  · rw [scrapeRootPaths, htree, hlayers]
    rfl
  · rw [Option.getD_or, hlayers]
    rfl
  · rw [Option.getD_or, hlayers]
    rfl
  · rw [hlayers]
    rfl
  · rw [hlayers]
    rfl
  · rw [hlayers]
    rfl
  · rw [Request.run, if_neg hcommand, hsettings]

/-! ### Settings from several sources -/

/-- A settings file in the working directory, and one of the user that names a plan directory. -/
def twoFilesDisk : Disk where
  root := .directory
    [("work", .directory [("testlists.toml", .file (Text.Utf8.encode
        "[paths]\nlists = \"l\"\nscrape_roots = [\"lib\", \"/opt\"]\n"))]),
      ("home", .directory [(".config", .directory [("testlists", .directory [("config.toml",
        .file (Text.Utf8.encode "[paths]\nplans_dir = \"elsewhere\"\n"))])])])]
  workingDirectory := ["work"]

/-- An environment that says where the source tree is and what stands between two tests. -/
def treeEnvironment : Environment :=
  .ofList [("HOME", "/home"), ("TESTLISTS_SOURCE_TREE", "/env"), ("TESTLISTS_SEPARATOR", ";")]

/-- A request for another source tree. -/
def treeRequest : Request := ⟨none, none, some "tree", .profiles⟩

/-- The request lies over the environment, and the environment over the file in the working
directory. The paths of the file are taken from the source tree of the request, and the file of the
user counts for nothing. -/
theorem Request.settings_precedence_twoFiles :
    ∃ settings file, treeRequest.settings twoFilesDisk treeEnvironment = .ok settings ∧
      FileLayer twoFilesDisk treeEnvironment none file ∧
      settings.sourceTree = "tree" ∧
      settings.listsPath = "tree/l" ∧
      settings.plansPath = "tree/testplans" ∧
      settings.plansPath = Path.takenFrom "tree" (file.plansDirectory.getD "testplans") ∧
      settings.scrapeRootPaths = ["tree/lib", "/opt"] ∧
      settings.separator = ";" := by
  have hrun : (treeRequest.settings twoFilesDisk treeEnvironment).toOption.map
      (fun settings ↦ (settings.sourceTree, settings.listsPath, settings.plansPath,
        settings.scrapeRootPaths)) =
          some (⟨"tree"⟩, ⟨"tree/l"⟩, ⟨"tree/testplans"⟩, [⟨"tree/lib"⟩, ⟨"/opt"⟩]) := by
    decide +kernel
  obtain ⟨settings, hsettings, hshown⟩ := exists_eq_ok_of_toOption hrun
  simp only [Prod.mk.injEq] at hshown
  obtain ⟨htree, hlists, hplans, hroots⟩ := hshown
  obtain ⟨file, hfile, _, _, hplansFrom, _, hseparator, _⟩ := settings_precedence hsettings
  rw [htree] at hplansFrom
  refine ⟨settings, file, hsettings, hfile, htree, hlists, hplans, hplansFrom, hroots, ?_⟩
  exact hseparator ⟨"p", false, false, false, none, false, none, none⟩

end CommandLine

end Roster
