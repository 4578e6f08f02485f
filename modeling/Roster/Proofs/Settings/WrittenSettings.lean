import Roster.Settings.Load

/-!
# What a settings document says

A source of settings says something about some of them and leaves the others to other sources. A
`Layer` holds what one source says. Under it may lie another source, which counts where the first
one is silent (`Layer.orElse`), and at the bottom lie settings that say everything (`Layer.settle`).

A document has its settings in four tables. `writtenField` is the value of a field of a table, and
`Says` relates a document to its layer: a field that is missing says nothing, and a field that is
there reads as what the layer has. The settings of a document are the standard ones under this layer
(`exists_layer_of_ofToml?`).
-/

set_option autoImplicit false
set_option relaxedAutoImplicit false

namespace Roster.Settings

open Toml

/-! ### Layers -/

/-- What one source says about settings. -/
structure Layer where
  /-- The root of the source tree. -/
  sourceTree : Option Path
  /-- The list definition. -/
  lists : Option Path
  /-- The directory of the plans. -/
  plansDirectory : Option Path
  /-- The roots of the sources. -/
  scrapeRoots : Option (List Path)
  /-- The suffixes of source files. -/
  suffixes : Option (List String)
  /-- The plans that give no profile. -/
  reservedPlans : Option (List String)
  /-- The entries that open and close a run. -/
  bookends : Option (List String)
  /-- What stands between two tests in plain text. -/
  separator : Option String
  /-- The format of lists. -/
  format : Option OutputFormat
deriving DecidableEq

namespace Layer

/-- The layer of a source that says nothing. -/
def silent : Layer := ⟨none, none, none, none, none, none, none, none, none⟩

/-- A layer on top of another one. -/
def orElse (upper lower : Layer) : Layer where
  sourceTree := upper.sourceTree.or lower.sourceTree
  lists := upper.lists.or lower.lists
  plansDirectory := upper.plansDirectory.or lower.plansDirectory
  scrapeRoots := upper.scrapeRoots.or lower.scrapeRoots
  suffixes := upper.suffixes.or lower.suffixes
  reservedPlans := upper.reservedPlans.or lower.reservedPlans
  bookends := upper.bookends.or lower.bookends
  separator := upper.separator.or lower.separator
  format := upper.format.or lower.format

/-- A layer on top of settings. -/
def settle (layer : Layer) (settings : Settings) : Settings where
  sourceTree := layer.sourceTree.getD settings.sourceTree
  lists := layer.lists.getD settings.lists
  plansDirectory := layer.plansDirectory.getD settings.plansDirectory
  scrapeRoots := layer.scrapeRoots.getD settings.scrapeRoots
  suffixes := layer.suffixes.getD settings.suffixes
  reservedPlans := layer.reservedPlans.getD settings.reservedPlans
  bookends := layer.bookends.getD settings.bookends
  separator := layer.separator.getD settings.separator
  format := layer.format.getD settings.format

theorem settle_silent (settings : Settings) : silent.settle settings = settings := rfl

/-- Two layers settle one after the other, the lower one first. -/
theorem settle_orElse (upper lower : Layer) (settings : Settings) :
    (upper.orElse lower).settle settings = upper.settle (lower.settle settings) := by
  simp [orElse, settle, Option.getD_or]

end Layer

/-! ### Fields of a document -/

/-- The value of a field in one of the tables of a document, where the fields of the table have
these names in this order. -/
def writtenField (tables : List (String × Value)) (table : String) (names : List String)
    (name : String) : Option Value :=
  ((find? table tables).bind (fields? names)).bind (find? name)

/-- A field is missing, or it is there and reads as a value. -/
def Reads {Result : Type} (reader : Value → Option Result) (field : Option Value)
    (written : Option Result) : Prop :=
  Option.Rel (fun value result ↦ reader value = some result) field written

section Fields

variable {Result : Type} {reader : Value → Option Result} {fields tables : List (String × Value)}
  {name : String} {missing result : Result}

/-- A field that could be read is what is written there, or else what counts without it. -/
theorem exists_reads (hread : readField fields name reader missing = some result) :
    ∃ written, Reads reader (find? name fields) written ∧ result = written.getD missing := by
  rw [readField] at hread
  cases hfield : find? name fields with
  | none =>
    rw [hfield] at hread
    cases hread
    exact ⟨none, .none, rfl⟩
  | some value =>
    rw [hfield] at hread
    exact ⟨some result, .some hread, rfl⟩

/-- A table that could be read has fields, none if it is missing, and the settings were read from
these. -/
theorem exists_fields {table : String} (names : List String) {settings changed : Settings}
    {step : Settings → Value → Option Settings}
    {readFields : List (String × Value) → Option Settings}
    (hstep : ∀ value, step settings value = (fields? names value).bind readFields)
    (hempty : readFields [] = some settings)
    (hread : readTable tables table step settings = some changed) :
    ∃ fields, (∀ name, writtenField tables table names name = find? name fields) ∧
      readFields fields = some changed := by
  rw [readTable, readField] at hread
  cases htable : find? table tables with
  | none =>
    rw [htable] at hread
    cases hread
    refine ⟨[], fun name ↦ ?_, hempty⟩
    rw [writtenField, htable]
    rfl
  | some value =>
    rw [htable] at hread
    have hvalue : (fields? names value).bind readFields = some changed := hstep value ▸ hread
    obtain ⟨fields, hfields, hchanged⟩ := Option.bind_eq_some_iff.mp hvalue
    refine ⟨fields, fun name ↦ ?_, hchanged⟩
    rw [writtenField, htable, Option.bind_some, hfields, Option.bind_some]

end Fields

/-! ### The four tables -/

/-- The names of the fields that say where things are. -/
def pathNames : List String := ["source_tree", "lists", "plans_dir", "scrape_roots"]

/-- The name of the field that concerns the sources. -/
def scraperNames : List String := ["extensions"]

/-- The names of the fields that concern the resolution. -/
def resolutionNames : List String := ["reserved_plans", "bookends"]

/-- The names of the fields that concern the output. -/
def outputNames : List String := ["separator", "format"]

/-- A document with these tables says what a layer has. -/
structure Says (tables : List (String × Value)) (layer : Layer) : Prop where
  /-- The root of the source tree. -/
  sourceTree : Reads readPath (writtenField tables "paths" pathNames "source_tree") layer.sourceTree
  /-- The list definition. -/
  lists : Reads readPath (writtenField tables "paths" pathNames "lists") layer.lists
  /-- The directory of the plans. -/
  plansDirectory :
    Reads readPath (writtenField tables "paths" pathNames "plans_dir") layer.plansDirectory
  /-- The roots of the sources. -/
  scrapeRoots : Reads (readList readPath) (writtenField tables "paths" pathNames "scrape_roots")
    layer.scrapeRoots
  /-- The suffixes of source files. -/
  suffixes : Reads (readList readText) (writtenField tables "scraper" scraperNames "extensions")
    layer.suffixes
  /-- The plans that give no profile. -/
  reservedPlans : Reads (readList readText)
    (writtenField tables "resolution" resolutionNames "reserved_plans") layer.reservedPlans
  /-- The entries that open and close a run. -/
  bookends : Reads (readList readText) (writtenField tables "resolution" resolutionNames "bookends")
    layer.bookends
  /-- What stands between two tests. -/
  separator : Reads readText (writtenField tables "output" outputNames "separator") layer.separator
  /-- The format of lists. -/
  format : Reads readFormat (writtenField tables "output" outputNames "format") layer.format

variable {tables : List (String × Value)} {settings changed : Settings}

theorem readPaths_says (hread : readTable tables "paths" readPaths settings = some changed) :
    ∃ sourceTree lists plansDirectory scrapeRoots,
      Reads readPath (writtenField tables "paths" pathNames "source_tree") sourceTree ∧
      Reads readPath (writtenField tables "paths" pathNames "lists") lists ∧
      Reads readPath (writtenField tables "paths" pathNames "plans_dir") plansDirectory ∧
      Reads (readList readPath) (writtenField tables "paths" pathNames "scrape_roots")
        scrapeRoots ∧
      changed = { settings with
        sourceTree := sourceTree.getD settings.sourceTree
        lists := lists.getD settings.lists
        plansDirectory := plansDirectory.getD settings.plansDirectory
        scrapeRoots := scrapeRoots.getD settings.scrapeRoots } := by
  obtain ⟨fields, hfields, hchanged⟩ := exists_fields pathNames (fun _ ↦ rfl) rfl hread
  simp only [bind, Option.bind_eq_some_iff] at hchanged
  obtain ⟨tree, htree, lists, hlists, plans, hplans, roots, hroots, hsame⟩ := hchanged
  simp only [hfields]
  obtain ⟨writtenTree, hreadTree, rfl⟩ := exists_reads htree
  obtain ⟨writtenLists, hreadLists, rfl⟩ := exists_reads hlists
  obtain ⟨writtenPlans, hreadPlans, rfl⟩ := exists_reads hplans
  obtain ⟨writtenRoots, hreadRoots, rfl⟩ := exists_reads hroots
  exact ⟨_, _, _, _, hreadTree, hreadLists, hreadPlans, hreadRoots, (Option.some.inj hsame).symm⟩

theorem readScraper_says (hread : readTable tables "scraper" readScraper settings = some changed) :
    ∃ suffixes,
      Reads (readList readText) (writtenField tables "scraper" scraperNames "extensions")
        suffixes ∧
      changed = { settings with suffixes := suffixes.getD settings.suffixes } := by
  obtain ⟨fields, hfields, hchanged⟩ := exists_fields scraperNames (fun _ ↦ rfl) rfl hread
  simp only [bind, Option.bind_eq_some_iff] at hchanged
  obtain ⟨suffixes, hsuffixes, hsame⟩ := hchanged
  simp only [hfields]
  obtain ⟨written, hwritten, rfl⟩ := exists_reads hsuffixes
  exact ⟨_, hwritten, (Option.some.inj hsame).symm⟩

theorem readResolution_says
    (hread : readTable tables "resolution" readResolution settings = some changed) :
    ∃ reservedPlans bookends,
      Reads (readList readText) (writtenField tables "resolution" resolutionNames "reserved_plans")
        reservedPlans ∧
      Reads (readList readText) (writtenField tables "resolution" resolutionNames "bookends")
        bookends ∧
      changed = { settings with
        reservedPlans := reservedPlans.getD settings.reservedPlans
        bookends := bookends.getD settings.bookends } := by
  obtain ⟨fields, hfields, hchanged⟩ := exists_fields resolutionNames (fun _ ↦ rfl) rfl hread
  simp only [bind, Option.bind_eq_some_iff] at hchanged
  obtain ⟨plans, hplans, bookends, hbookends, hsame⟩ := hchanged
  simp only [hfields]
  obtain ⟨writtenPlans, hreadPlans, rfl⟩ := exists_reads hplans
  obtain ⟨writtenBookends, hreadBookends, rfl⟩ := exists_reads hbookends
  exact ⟨_, _, hreadPlans, hreadBookends, (Option.some.inj hsame).symm⟩

theorem readOutput_says (hread : readTable tables "output" readOutput settings = some changed) :
    ∃ separator format,
      Reads readText (writtenField tables "output" outputNames "separator") separator ∧
      Reads readFormat (writtenField tables "output" outputNames "format") format ∧
      changed = { settings with
        separator := separator.getD settings.separator
        format := format.getD settings.format } := by
  obtain ⟨fields, hfields, hchanged⟩ := exists_fields outputNames (fun _ ↦ rfl) rfl hread
  simp only [bind, Option.bind_eq_some_iff] at hchanged
  obtain ⟨separator, hseparator, format, hformat, hsame⟩ := hchanged
  simp only [hfields]
  obtain ⟨writtenSeparator, hreadSeparator, rfl⟩ := exists_reads hseparator
  obtain ⟨writtenFormat, hreadFormat, rfl⟩ := exists_reads hformat
  exact ⟨_, _, hreadSeparator, hreadFormat, (Option.some.inj hsame).symm⟩

/-! ### The whole document -/

/-- A text with settings is a table of tables. -/
theorem exists_tables {text : String} {document : Value}
    (hread : Value.ofToml? text = some document) : ∃ tables, document = .table tables := by
  simp only [Value.ofToml?, bind, Option.bind_eq_some_iff] at hread
  obtain ⟨tokens, _, lines, _, filling, _, hdocument⟩ := hread
  exact ⟨_, (Option.some.inj hdocument).symm⟩

/-- The tables of a text with settings say what some layer has, and the settings are the standard
ones under this layer. -/
theorem exists_layer_of_ofToml? {text : String} (hread : ofToml? text = some settings) :
    ∃ tables layer, Value.ofToml? text = some (.table tables) ∧ Says tables layer ∧
      settings = layer.settle standard := by
  simp only [ofToml?, bind, Option.bind_eq_some_iff] at hread
  obtain ⟨document, hdocument, fields, hfields, withPaths, hpaths, withScraper, hscraper,
    withResolution, hresolution, houtput⟩ := hread
  obtain ⟨tables, rfl⟩ := exists_tables hdocument
  obtain rfl : tables = fields := Option.some.inj hfields
  obtain ⟨sourceTree, lists, plansDirectory, scrapeRoots, htree, hlists, hplans, hroots, rfl⟩ :=
    readPaths_says hpaths
  obtain ⟨suffixes, hsuffixes, rfl⟩ := readScraper_says hscraper
  obtain ⟨reservedPlans, bookends, hreserved, hbookends, rfl⟩ := readResolution_says hresolution
  obtain ⟨separator, format, hseparator, hformat, rfl⟩ := readOutput_says houtput
  exact ⟨tables, ⟨sourceTree, lists, plansDirectory, scrapeRoots, suffixes, reservedPlans, bookends,
    separator, format⟩, hdocument,
    ⟨htree, hlists, hplans, hroots, hsuffixes, hreserved, hbookends, hseparator, hformat⟩, rfl⟩

end Roster.Settings
