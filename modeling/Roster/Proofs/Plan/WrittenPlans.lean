import Roster.Plan.Document
import Roster.Proofs.Yaml.WrittenRecords
import Roster.Proofs.Yaml.WrittenValues

/-!
# Plans survive being written

A plan that was read (`PlanDocument.IsReadable`) has no other field under the name of a known one, and
its other fields hold values without tags and without repeated keys. Written as a tree and read
again, it is the same plan (`PlanDocument.IsReadable.decode_written`).
-/

set_option autoImplicit false
set_option relaxedAutoImplicit false

namespace Roster

open Yaml

namespace PlanDocument

variable {Known : Type} {depth : ℕ} {node : Node}

/-! ### The other fields -/

/-- Other fields that can be read so many levels deep beside the known ones. -/
def AreOthers (known : List String) (depth : ℕ) (others : List (String × Value)) : Prop :=
  ∀ entry ∈ others, entry.1 ∉ known ∧ entry.2.Fits depth

/-- Other fields that were read as a table, in which no mapping has a key twice. -/
def IsExtra (known : List String) (depth : ℕ) (extra : Table Value) : Prop :=
  AreOthers known depth extra.entries ∧ ∀ entry ∈ extra.entries, entry.2.repeatsKey = false

/-- A field that is not known adds to the other fields. -/
theorem others_of_otherField {known : List String} {name : String} (hname : name ∉ known)
    {change : Fields Known → Fields Known} (hreturns : Returns (otherField name depth node) change)
    {fields : Fields Known} (hothers : AreOthers known depth fields.others) :
    AreOthers known depth (change fields).others := by
  obtain ⟨value, hvalue, rfl⟩ := hreturns.of_map
  obtain ⟨found, hfound, hrest⟩ := hvalue.of_bind
  cases htag : found.hasTag with
  | true =>
    rw [htag] at hrest
    obtain ⟨_, hfault, _⟩ := hrest.of_bind
    exact absurd hfault not_returns_throw
  | false =>
    rw [htag] at hrest
    obtain rfl := returns_pure_iff.mp hrest
    exact List.forall_mem_cons.mpr ⟨⟨hname, Value.fits_of_returns hfound htag⟩, hothers⟩

/-- The other fields make a table if none of them repeats a key. -/
theorem isExtra_of_otherFields {known : List String} {fields : Fields Known} {extra : Table Value}
    (hothers : AreOthers known depth fields.others)
    (hreturns : Returns (otherFields fields) extra) : IsExtra known depth extra := by
  obtain ⟨entries, hentries, rfl⟩ := hreturns.of_map
  have hall : ∀ entry ∈ entries, (entry.1 ∉ known ∧ entry.2.Fits depth) ∧
      entry.2.repeatsKey = false := by
    intro entry hmem
    obtain ⟨source, hsource, hread⟩ := exists_mem_of_forall₂ (Returns.of_mapM hentries) entry hmem
    obtain ⟨value, hvalue, rfl⟩ := hread.of_map
    rw [Decoder.distinct] at hvalue
    split at hvalue
    · exact absurd hvalue not_returns_throw
    · next hdistinct =>
      obtain rfl := returns_pure_iff.mp hvalue
      exact ⟨hothers source (List.mem_reverse.mp hsource), by simpa using hdistinct⟩
  exact ⟨fun entry hmem ↦ (hall entry (Table.mem_of_mem_ofList hmem)).1,
    fun entry hmem ↦ (hall entry (Table.mem_of_mem_ofList hmem)).2⟩

/-- What one more other field does to the fields. -/
def addOther (entry : String × Value) (fields : Fields Known) : Fields Known :=
  { fields with others := entry :: fields.others }

/-- Another field is read from what it is written as. -/
theorem otherField_written (name : String) {value : Value} (hfits : value.Fits depth) :
    (otherField name : Decoder (Fields Known → Fields Known)) depth (value.toNode.written false) =
      pure (addOther (name, value)) := by
  simp only [otherField, Decoder.field, Decoder.untaggedValue, hfits.value_written, pure_bind,
    hfits.hasTag, Bool.false_eq_true, if_false]
  rfl

/-- Other fields are added in their order. -/
theorem foldl_addOther (entries : List (String × Value)) (fields : Fields Known) :
    (entries.map addOther).foldl (fun state change ↦ change state) fields =
      ⟨fields.known, entries.reverse ++ fields.others⟩ := by
  induction entries generalizing fields with
  | nil => rfl
  | cons entry rest ih =>
    rw [List.map_cons, List.foldl_cons, ih]
    simp [addOther]

/-- The other fields of a table make the table again. -/
theorem otherFields_reverse {known : List String} (fields : Known) {extra : Table Value}
    (hextra : IsExtra known depth extra) :
    otherFields ⟨fields, extra.entries.reverse⟩ = pure extra := by
  have hentries : extra.entries.mapM (fun entry ↦ do
      return (entry.1, ← Decoder.distinct entry.2)) = (pure extra.entries :
        Reading (List (String × Value))) := by
    refine Decoder.mapM_eq_pure (List.forall₂_same.mpr fun entry hmem ↦ ?_)
    rw [Decoder.distinct, hextra.2 entry hmem]
    rfl
  rw [otherFields, List.reverse_reverse, hentries, pure_bind, Table.ofList_entries]

/-- Known fields that are written only if there is something in them, and all others behind them,
are read: `changes` are what the known ones do. -/
theorem record_written_withExtra {fields : List (String × Decoder (Fields Known → Fields Known))}
    {start : Fields Known} {known : List (String × Node)}
    {changes : List (Fields Known → Fields Known)} {extra : Table Value} (inKey : Bool)
    (hknown : List.Forall₂ (fun entry change ↦
      ((fields.lookup entry.1).getD (otherField entry.1)) depth (entry.2.written false) =
        pure change) known changes)
    (hdistinct : (known.map Prod.fst).Nodup) {names : List String}
    (hnames : fields.map Prod.fst = names) (hextra : IsExtra names depth extra) :
    Decoder.record start fields otherField (depth + 1)
      ((Node.ofEntries (known ++ extraEntries extra)).written inKey) =
        pure ⟨(changes.foldl (fun state change ↦ change state) start).known,
          extra.entries.reverse ++
            (changes.foldl (fun state change ↦ change state) start).others⟩ := by
  subst hnames
  have hunknown : ∀ entry ∈ extra.entries, fields.lookup entry.1 = none := by
    intro entry hmem
    refine List.lookup_eq_none_iff.mpr fun field hfield ↦ bne_iff_ne.mpr fun hsame ↦ ?_
    exact (hextra.1 entry hmem).1 (hsame ▸ List.mem_map_of_mem hfield)
  have hothers : List.Forall₂ (fun entry change ↦
      ((fields.lookup entry.1).getD (otherField entry.1)) depth (entry.2.written false) =
        pure change) (extraEntries extra) (extra.entries.map addOther) := by
    refine List.forall₂_map_left_iff.mpr (List.forall₂_map_right_iff.mpr
      (List.forall₂_same.mpr fun entry hmem ↦ ?_))
    rw [hunknown entry hmem, Option.getD_none]
    exact otherField_written entry.1 (hextra.1 entry hmem).2
  have hnames : (((known ++ extraEntries extra).map Prod.fst).filter fun name ↦
      (fields.lookup name).isSome).Nodup := by
    have hnone : ((extraEntries extra).map Prod.fst).filter (fun name ↦
        (fields.lookup name).isSome) = [] := by
      refine List.filter_eq_nil_iff.mpr fun name hname ↦ ?_
      obtain ⟨named, hnamed, rfl⟩ := List.mem_map.mp hname
      obtain ⟨entry, hentry, rfl⟩ := List.mem_map.mp hnamed
      simp [hunknown entry hentry]
    rw [List.map_append, List.filter_append, hnone, List.append_nil]
    exact hdistinct.filter _
  rw [Decoder.record_written inKey (List.rel_append hknown hothers) hnames, List.foldl_append,
    foldl_addOther]

/-- The other fields of a record that was read. -/
theorem isExtra_of_record {fields : List (String × Decoder (Fields Known → Fields Known))}
    {start found : Fields Known} {extra : Table Value} (hstart : start.others = [])
    (hfields : ∀ field ∈ fields, ∀ source change, Returns (field.2 depth source) change →
      ∀ state, (change state).others = state.others)
    (hreturns : Returns (Decoder.record start fields otherField (depth + 1) node) found)
    (hextra : Returns (otherFields found) extra) : IsExtra (fields.map Prod.fst) depth extra := by
  refine isExtra_of_otherFields (Decoder.of_returns_record
    (fun state ↦ AreOthers (fields.map Prod.fst) depth state.others) hreturns ?_ ?_ ?_) hextra
  · simp [AreOthers, hstart]
  · intro field hmem source change hchange state hothers
    rwa [AreOthers, hfields field hmem source change hchange state]
  · intro name hname source change hchange state hothers
    exact others_of_otherField hname hchange hothers

/-! ### Plans that were read -/

/-- A plan as it may be read: its other fields are extra ones, so many levels deep below a test
case. -/
structure IsReadable (depth : ℕ) (document : PlanDocument) : Prop where
  /-- The other fields of the test cases. -/
  testcases : ∀ entry ∈ document.testcases.entries, IsExtra ["testcase"] depth entry.2.extra
  /-- The other fields of what concerns the plan as a whole. -/
  planMeta : IsExtra ["include", "upgrade-from-version"] (depth + 1) document.planMeta.extra

theorem isExtra_empty (known : List String) (depth : ℕ) : IsExtra known depth ∅ :=
  ⟨fun _ hmem ↦ absurd hmem List.not_mem_nil, fun _ hmem ↦ absurd hmem List.not_mem_nil⟩

theorem isExtra_of_decodeTestcase {testcase : Testcase}
    (hreturns : Returns (decodeTestcase (depth + 1) node) testcase) :
    IsExtra ["testcase"] depth testcase.extra := by
  rcases Decoder.of_returns_orDefault hreturns with rfl | ⟨source, hsource⟩
  · exact isExtra_empty _ _
  · obtain ⟨found, hfound, hrest⟩ := hsource.of_bind
    obtain ⟨extra, hextra, rfl⟩ := hrest.of_map
    refine isExtra_of_record rfl ?_ hfound hextra
    simp only [List.forall_mem_singleton]
    intro source change hchange state
    obtain ⟨reference, -, rfl⟩ := hchange.of_map
    rfl

theorem isExtra_of_decodeMeta {planMeta : PlanMeta}
    (hreturns : Returns (decodeMeta (depth + 1) node) planMeta) :
    IsExtra ["include", "upgrade-from-version"] depth planMeta.extra := by
  obtain ⟨found, hfound, hrest⟩ := hreturns.of_bind
  obtain ⟨extra, hextra, rfl⟩ := hrest.of_map
  refine isExtra_of_record rfl ?_ hfound hextra
  simp only [List.forall_mem_cons, List.not_mem_nil, false_implies, implies_true, and_true]
  constructor <;> intro source change hchange state <;> obtain ⟨found, -, rfl⟩ := hchange.of_map <;>
    rfl

/-- A plan that was read may be read. -/
theorem isReadable_of_decode {document : PlanDocument}
    (hreturns : Returns (decode (depth + 3) node) document) : IsReadable depth document := by
  refine Decoder.of_returns_record (IsReadable depth) hreturns
    ⟨fun _ hmem ↦ absurd hmem List.not_mem_nil, isExtra_empty _ _⟩ ?_ ?_
  · simp only [List.forall_mem_cons, List.not_mem_nil, false_implies, implies_true, and_true]
    constructor <;> intro source change hchange state hstate <;>
      obtain ⟨found, hfound, rfl⟩ := hchange.of_map
    · refine ⟨fun entry hmem ↦ ?_, hstate.planMeta⟩
      rcases Decoder.of_returns_orDefault hfound with rfl | ⟨source, hsource⟩
      · cases hmem
      · obtain ⟨items, rfl, hitems⟩ := Decoder.of_returns_table hsource
        obtain ⟨source, hsource⟩ := hitems entry (Table.mem_of_mem_ofList hmem)
        exact isExtra_of_decodeTestcase hsource
    · refine ⟨hstate.testcases, ?_⟩
      rcases Decoder.of_returns_orDefault hfound with rfl | ⟨source, hsource⟩
      · exact isExtra_empty _ _
      · exact isExtra_of_decodeMeta hsource
  · intro name _ source change hchange state hstate
    rwa [Decoder.of_returns_ignored hchange]

/-! ### Plans that are written -/

/-- A version that is written is read. -/
theorem scalarText_written_ofText (inKey : Bool) (text : String) :
    Decoder.scalarText depth ((Node.ofText text).written inKey) = pure (some text) :=
  Decoder.scalarText_of_text (Decoder.present_written_ofText inKey text)
    ((Value.Fits.text text).value_written inKey)

/-- A test case that is written is read. -/
theorem decodeTestcase_written {testcase : Testcase} (inKey : Bool)
    (hextra : IsExtra ["testcase"] depth testcase.extra) :
    decodeTestcase (depth + 1) ((testcaseNode testcase).written inKey) = pure testcase := by
  refine Decoder.orDefault_of_present .mapping ?_
  obtain ⟨reference, extra⟩ := testcase
  have hothers (known : Option String) := otherFields_reverse known hextra
  rw [decodeTestcaseFields]
  cases reference with
  | none =>
    refine Eq.trans (Decoder.bind_of_eq_pure
      (record_written_withExtra inKey .nil .nil ?_ hextra) _) ?_
    · rfl
    · simp [hothers]
  | some reference =>
    have hreference : Decoder.optional Decoder.text depth
        ((Node.ofText reference).written false) = pure (some reference) :=
      Decoder.optional_of_present (Decoder.present_written_ofText false reference)
        (Decoder.text_written_ofText false reference)
    refine Eq.trans (Decoder.bind_of_eq_pure (record_written_withExtra inKey
      (.cons (by exact Decoder.field_of_eq_pure _ hreference) .nil) ?_ ?_ hextra) _) ?_
    · exact List.nodup_singleton _
    · rfl
    · simp [hothers]

/-- The node that what concerns a plan as a whole is written as, with a node for the version. -/
def metaNodeWith (planMeta : PlanMeta) (version : Option Node) : Node :=
  .ofEntries
    (presentEntry "include"
        (if planMeta.includes.isEmpty then none else some (.ofTexts planMeta.includes)) ++
      presentEntry "upgrade-from-version" version ++
      extraEntries planMeta.extra)

/-- The node that a plan is written as, with a node for the version. -/
def toNodeWith (document : PlanDocument) (version : Option Node) : Node :=
  .ofEntries
    [("testcases", .ofEntries (document.testcases.map testcaseNode).entries),
      ("meta", metaNodeWith document.planMeta version)]

/-- The node for the version is read as the version of a plan. -/
def IsVersionNode (depth : ℕ) (upgradeFrom : Option String) : Option Node → Prop
  | none => upgradeFrom = none
  | some node => Decoder.scalarText depth (node.written false) = pure upgradeFrom

theorem isVersionNode_ofText (upgradeFrom : Option String) :
    IsVersionNode depth upgradeFrom (upgradeFrom.map .ofText) := by
  cases upgradeFrom with
  | none => rfl
  | some version => exact scalarText_written_ofText false version

/-- What concerns a plan as a whole is read if it is written. -/
theorem decodeMeta_written {planMeta : PlanMeta} {version : Option Node} (inKey : Bool)
    (hextra : IsExtra ["include", "upgrade-from-version"] (depth + 1) planMeta.extra)
    (hversion : IsVersionNode (depth + 1) planMeta.upgradeFrom version) :
    decodeMeta (depth + 2) ((metaNodeWith planMeta version).written inKey) = pure planMeta := by
  obtain ⟨includes, upgradeFrom, extra⟩ := planMeta
  have hincludes : Decoder.orDefault [] (Decoder.list Decoder.text) (depth + 1)
      ((Node.ofTexts includes).written false) = pure includes :=
    Decoder.orDefault_of_present .sequence (Decoder.list_written_ofTexts false includes)
  have hothers (known : List String × Option String) := otherFields_reverse known hextra
  rw [decodeMeta]
  cases includes with
  | nil =>
    cases version with
    | none =>
      obtain rfl : upgradeFrom = none := hversion
      refine Eq.trans (Decoder.bind_of_eq_pure
        (record_written_withExtra inKey .nil .nil ?_ hextra) _) ?_
      · rfl
      · simp [hothers]
    | some node =>
      refine Eq.trans (Decoder.bind_of_eq_pure (record_written_withExtra inKey
        (.cons (by exact Decoder.field_of_eq_pure _ hversion) .nil) ?_ ?_ hextra) _) ?_
      · exact List.nodup_singleton _
      · rfl
      · simp [hothers]
  | cons first rest =>
    cases version with
    | none =>
      obtain rfl : upgradeFrom = none := hversion
      refine Eq.trans (Decoder.bind_of_eq_pure (record_written_withExtra inKey
        (.cons (by exact Decoder.field_of_eq_pure _ hincludes) .nil) ?_ ?_ hextra) _) ?_
      · exact List.nodup_singleton _
      · rfl
      · simp [hothers]
    | some node =>
      refine Eq.trans (Decoder.bind_of_eq_pure (record_written_withExtra inKey
        (.cons (by exact Decoder.field_of_eq_pure _ hincludes)
          (.cons (by exact Decoder.field_of_eq_pure _ hversion) .nil)) ?_ ?_ hextra) _) ?_
      · change ["include", "upgrade-from-version"].Nodup
        decide
      · rfl
      · simp [hothers]

/-- A plan that may be read is read if it is written with a node that is read as its version. -/
theorem IsReadable.decode_writtenWith {document : PlanDocument} {version : Option Node}
    (hreadable : IsReadable depth document) (inKey : Bool)
    (hversion : IsVersionNode (depth + 1) document.planMeta.upgradeFrom version) :
    decode (depth + 3) ((document.toNodeWith version).written inKey) = pure document := by
  obtain ⟨testcases, planMeta⟩ := document
  have htestcases : Decoder.orDefault ∅ (Decoder.table decodeTestcase) (depth + 2)
      ((Node.ofEntries (testcases.map testcaseNode).entries).written false) = pure testcases :=
    Decoder.orDefault_of_present .mapping (Decoder.table_written false testcases
      fun entry hmem ↦ decodeTestcase_written false (hreadable.testcases entry hmem))
  have hmeta : Decoder.orDefault .empty decodeMeta (depth + 2)
      ((metaNodeWith planMeta version).written false) = pure planMeta :=
    Decoder.orDefault_of_present .mapping (decodeMeta_written false hreadable.planMeta hversion)
  rw [decode]
  refine Eq.trans (Decoder.record_written inKey
    (.cons (by exact Decoder.field_of_eq_pure _ htestcases)
      (.cons (by exact Decoder.field_of_eq_pure _ hmeta) .nil)) ?_) ?_
  · change ["testcases", "meta"].Nodup
    decide
  · rfl

/-- A plan that may be read is read if it is written. -/
theorem IsReadable.decode_written {document : PlanDocument} (hreadable : IsReadable depth document)
    (inKey : Bool) : decode (depth + 3) (document.toNode.written inKey) = pure document :=
  hreadable.decode_writtenWith inKey (isVersionNode_ofText document.planMeta.upgradeFrom)

/-- The other fields can be written. -/
theorem IsExtra.writable {known : List String} {extra : Table Value}
    (hextra : IsExtra known depth extra) : ∀ entry ∈ extraEntries extra, entry.2.Writable := by
  intro entry hmem
  obtain ⟨source, hsource, rfl⟩ := List.mem_map.mp hmem
  exact (hextra.1 source hsource).2.writable

/-- A plan that may be read can be written with a node for its version that can be written. -/
theorem IsReadable.writableWith {document : PlanDocument} {version : Option Node}
    (hreadable : IsReadable depth document) (hversion : ∀ node ∈ version, node.Writable) :
    (document.toNodeWith version).Writable := by
  have htestcase (testcase : Testcase) (hextra : IsExtra ["testcase"] depth testcase.extra) :
      (testcaseNode testcase).Writable := by
    refine .ofEntries (List.forall_mem_append.mpr ⟨fun entry hmem ↦ ?_, hextra.writable⟩)
    obtain ⟨node, hnode, rfl⟩ := List.mem_map.mp hmem
    obtain ⟨reference, -, rfl⟩ := Option.map_eq_some_iff.mp (Option.mem_toList.mp hnode)
    exact Node.writable_ofText reference
  have hmeta : (metaNodeWith document.planMeta version).Writable := by
    refine .ofEntries (List.forall_mem_append.mpr
      ⟨List.forall_mem_append.mpr ⟨fun entry hmem ↦ ?_, fun entry hmem ↦ ?_⟩,
        hreadable.planMeta.writable⟩) <;> obtain ⟨node, hnode, rfl⟩ := List.mem_map.mp hmem
    · split at hnode
      · cases hnode
      · obtain rfl := List.mem_singleton.mp hnode
        exact Node.writable_ofTexts _
    · exact hversion node (Option.mem_toList.mp hnode)
  refine .ofEntries ?_
  simp only [List.forall_mem_cons, List.not_mem_nil, false_implies, implies_true, and_true]
  refine ⟨.ofEntries fun entry hmem ↦ ?_, hmeta⟩
  obtain ⟨source, hsource, rfl⟩ := List.mem_map.mp hmem
  exact htestcase source.2 (hreadable.testcases source hsource)

/-- A plan that may be read can be written. -/
theorem IsReadable.writable {document : PlanDocument} (hreadable : IsReadable depth document) :
    document.toNode.Writable := by
  refine hreadable.writableWith fun node hnode ↦ ?_
  obtain ⟨version, -, rfl⟩ := Option.map_eq_some_iff.mp hnode
  exact Node.writable_ofText version

end PlanDocument

end Roster
