import Roster.Proofs.FallibleRuns
import Roster.Yaml.Decoder

/-!
# What decoders give

Two views of a decoder. A tree without aliases is read without regard to the document around it, so
that the decoder gives a value outright: its reading is `pure`. And of a reading that gave a result
in some document (`Returns`) one can tell where the result comes from, field by field and item by
item.
-/

set_option autoImplicit false
set_option relaxedAutoImplicit false

namespace Roster.Yaml

variable {Item Result Other State : Type}

/-! ### Readings that gave a result -/

/-- A reading gives a result in some document. -/
def Returns (reading : Reading Result) (result : Result) : Prop :=
  ∃ context jumps after, (reading.run context).run jumps = .ok (result, after)

theorem returns_pure_iff {first second : Result} :
    Returns (pure first) second ↔ first = second := by
  constructor
  · rintro ⟨context, jumps, after, hrun⟩
    cases hrun
    rfl
  · rintro rfl
    exact ⟨⟨[], 0⟩, 0, 0, rfl⟩

theorem not_returns_throw {fault : ReadError} {result : Result} :
    ¬Returns (throw fault) result := by
  rintro ⟨context, jumps, after, hrun⟩
  cases hrun

/-- A result of two readings in a row comes from a result of the first one. -/
theorem Returns.of_bind {reading : Reading Item} {next : Item → Reading Result} {result : Result}
    (hreturns : Returns (reading >>= next) result) :
    ∃ found, Returns reading found ∧ Returns (next found) result := by
  obtain ⟨context, jumps, after, hrun⟩ := hreturns
  cases hfirst : (reading.run context).run jumps with
  | error fault =>
    have hfails : ((reading >>= next).run context).run jumps = .error fault := by
      simp only [ReaderT.run_bind, StateT.run_bind, hfirst]
      rfl
    rw [hfails] at hrun
    cases hrun
  | ok found =>
    have hgoes : ((reading >>= next).run context).run jumps =
        ((next found.1).run context).run found.2 := by
      simp only [ReaderT.run_bind, StateT.run_bind, hfirst]
      rfl
    exact ⟨found.1, ⟨context, jumps, found.2, hfirst⟩, ⟨context, found.2, after, hgoes ▸ hrun⟩⟩

/-- A reading gives what is made of the result of another one. -/
theorem Returns.of_map {reading : Reading Item} {view : Item → Result} {result : Result}
    (hreturns : Returns (do return view (← reading)) result) :
    ∃ found, Returns reading found ∧ view found = result := by
  obtain ⟨found, hfound, hview⟩ := hreturns.of_bind
  exact ⟨found, hfound, returns_pure_iff.mp hview⟩

/-- The results of readings one after the other. -/
theorem Returns.of_mapM {act : Item → Reading Result} {items : List Item} {results : List Result}
    (hreturns : Returns (items.mapM act) results) :
    List.Forall₂ (fun item result ↦ Returns (act item) result) items results := by
  induction items generalizing results with
  | nil =>
    obtain rfl := returns_pure_iff.mp hreturns
    exact .nil
  | cons item rest ih =>
    rw [List.mapM_cons] at hreturns
    obtain ⟨first, hfirst, hrest⟩ := hreturns.of_bind
    obtain ⟨others, hothers, hresults⟩ := hrest.of_bind
    obtain rfl := returns_pure_iff.mp hresults
    exact .cons hfirst (ih hothers)

theorem not_returns_misfit {node : Node} {result : Result} : ¬Returns (misfit node) result := by
  cases node <;> exact not_returns_throw

namespace Decoder

variable {decoder : Decoder Item} {depth : ℕ} {node : Node}

/-- Data that may be missing are missing or were read. -/
theorem of_returns_optional {found : Option Item}
    (hreturns : Returns (optional decoder depth node) found) :
    ∀ item ∈ found, ∃ source, Returns (decoder depth source) item := by
  obtain ⟨target, -, hrest⟩ := hreturns.of_bind
  have hsome (hread : Returns (do return some (← decoder depth target)) found) :
      ∀ item ∈ found, ∃ source, Returns (decoder depth source) item := by
    obtain ⟨item, hitem, rfl⟩ := hread.of_map
    rintro _ ⟨⟩
    exact ⟨target, hitem⟩
  have hnone (hread : Returns (pure none) found) :
      ∀ item ∈ found, ∃ source, Returns (decoder depth source) item := by
    obtain rfl := returns_pure_iff.mp hread
    simp
  cases target with
  | scalar tag style text =>
    cases style with
    | plain =>
      cases tag with
      | some tag =>
        dsimp only at hrest
        split at hrest
        · split at hrest
          · exact hnone hrest
          · exact absurd hrest not_returns_throw
        · exact hsome hrest
      | none =>
        dsimp only at hrest
        split at hrest
        · exact hnone hrest
        · exact hsome hrest
    | _ => exact hsome hrest
  | cut => exact absurd hrest not_returns_throw
  | _ => exact hsome hrest

/-- Data with a default are the default or were read. -/
theorem of_returns_orDefault {default found : Item}
    (hreturns : Returns (orDefault default decoder depth node) found) :
    found = default ∨ ∃ source, Returns (decoder depth source) found := by
  obtain ⟨item, hitem, rfl⟩ := hreturns.of_map
  cases item with
  | none => exact Or.inl rfl
  | some item => exact Or.inr (of_returns_optional hitem item rfl)

/-- The values of a table were read one level further in. -/
theorem of_returns_table {found : Table Item}
    (hreturns : Returns (table decoder (depth + 1) node) found) :
    ∃ items : List (String × Item), found = Table.ofList items ∧
      ∀ item ∈ items, ∃ source, Returns (decoder depth source) item.2 := by
  obtain ⟨items, hitems, rfl⟩ := hreturns.of_map
  refine ⟨items, rfl, ?_⟩
  obtain ⟨target, -, hrest⟩ := hitems.of_bind
  cases target with
  | mapping tag entries =>
    intro item hmem
    obtain ⟨source, _, hsource⟩ := exists_mem_of_forall₂ (Returns.of_mapM hrest) item hmem
    obtain ⟨key, _, hentry⟩ := hsource.of_bind
    obtain ⟨value, hvalue, rfl⟩ := hentry.of_map
    exact ⟨source.2, hvalue⟩
  | scalar tag style text =>
    dsimp only at hrest
    split at hrest
    · obtain rfl := returns_pure_iff.mp hrest
      simp
    · exact absurd hrest not_returns_misfit
  | _ => exact absurd hrest not_returns_misfit

/-- What is true of a record before any field, and stays true with each field, is true of a record
that was read. -/
theorem of_returns_record (Holds : State → Prop) {start found : State}
    {fields : List (String × Decoder (State → State))} {other : String → Decoder (State → State)}
    (hreturns : Returns (record start fields other (depth + 1) node) found) (hstart : Holds start)
    (hfields : ∀ field ∈ fields, ∀ source change,
      Returns (field.2 depth source) change → ∀ state, Holds state → Holds (change state))
    (hother : ∀ name ∉ fields.map Prod.fst, ∀ source change,
      Returns (other name depth source) change → ∀ state, Holds state → Holds (change state)) :
    Holds found := by
  obtain ⟨target, -, hrest⟩ := hreturns.of_bind
  cases target with
  | mapping tag entries =>
    obtain ⟨⟨state, seen⟩, hfold, hfound⟩ := Returns.of_bind hrest
    obtain rfl := returns_pure_iff.mp hfound
    clear hrest hreturns hfound
    generalize ([] : List String) = seen₀ at hfold
    induction entries generalizing start seen₀ with
    | nil =>
      cases returns_pure_iff.mp hfold
      exact hstart
    | cons entry rest ih =>
      rw [List.foldlM_cons] at hfold
      obtain ⟨⟨next, nextSeen⟩, hstep, hfold⟩ := hfold.of_bind
      refine ih ?_ nextSeen hfold
      obtain ⟨name, _, hnamed⟩ := hstep.of_bind
      split at hnamed
      · next field hfield =>
        split at hnamed
        · obtain ⟨_, hfault, _⟩ := hnamed.of_bind
          exact absurd hfault not_returns_throw
        · obtain ⟨change, hchange, hnext⟩ := hnamed.of_bind
          cases returns_pure_iff.mp hnext
          obtain ⟨before, after, rfl, -⟩ := List.lookup_eq_some_iff.mp hfield
          exact hfields (name, field) (by simp) entry.2 change hchange start hstart
      · next hnone =>
        obtain ⟨change, hchange, hnext⟩ := hnamed.of_bind
        cases returns_pure_iff.mp hnext
        refine hother name (fun hmem ↦ ?_) entry.2 change hchange start hstart
        obtain ⟨field, hfield, rfl⟩ := List.mem_map.mp hmem
        simpa using List.lookup_eq_none_iff.mp hnone field hfield
  | scalar tag style text =>
    dsimp only at hrest
    split at hrest
    · exact returns_pure_iff.mp hrest ▸ hstart
    · exact absurd hrest not_returns_misfit
  | _ => exact absurd hrest not_returns_misfit

/-- A value that is passed over changes nothing. -/
theorem of_returns_ignored {change : State → State}
    (hreturns : Returns (ignored depth node) change) : change = id := by
  rw [ignored] at hreturns
  split at hreturns
  · exact (returns_pure_iff.mp hreturns).symm
  · exact absurd hreturns not_returns_throw

/-! ### Trees without aliases -/

@[simp] theorem follow_scalar (tag : Option String) (style : ScalarStyle) (text : String) :
    follow (.scalar tag style text) = pure (.scalar tag style text) :=
  rfl

@[simp] theorem follow_sequence (tag : Option String) (items : List Node) :
    follow (.sequence tag items) = pure (.sequence tag items) :=
  rfl

@[simp] theorem follow_mapping (tag : Option String) (entries : List (Node × Node)) :
    follow (.mapping tag entries) = pure (.mapping tag entries) :=
  rfl

/-- Readings one after the other that all give their results outright. -/
theorem mapM_eq_pure {act : Item → Reading Result} {items : List Item} {results : List Result}
    (hitems : List.Forall₂ (fun item result ↦ act item = pure result) items results) :
    items.mapM act = pure results := by
  induction hitems with
  | nil => rfl
  | cons hfirst _ ih => rw [List.mapM_cons, hfirst, ih]; rfl

/-- A scalar gives its text. -/
theorem text_scalar (tag : Option String) (style : ScalarStyle) (text : String) :
    Decoder.text depth (.scalar tag style text) = pure text :=
  rfl

/-- A node of a tree without aliases and tags that does not stand for nothing. -/
inductive Present : Node → Prop
  /-- A scalar that cannot be taken for nothing. -/
  | scalar {style : ScalarStyle} {text : String}
    (hmeaning : style = .plain → plainMeaning text ≠ .null) : Present (.scalar none style text)
  /-- A sequence. -/
  | sequence {items : List Node} : Present (.sequence none items)
  /-- A mapping. -/
  | mapping {entries : List (Node × Node)} : Present (.mapping none entries)

/-- Where something is, data that may be missing are read. -/
theorem optional_of_present {item : Item} (hpresent : Present node)
    (hread : decoder depth node = pure item) :
    optional decoder depth node = pure (some item) := by
  cases hpresent with
  | @scalar style text hmeaning =>
    cases style with
    | plain =>
      have hsome : ¬(text = "" || isNull text) = true := fun hnothing ↦
        hmeaning rfl (by rw [plainMeaning, if_pos hnothing])
      simp only [optional, follow_scalar, pure_bind, hread]
      rw [if_neg hsome]
    | _ => simp [optional, hread]
  | sequence => simp [optional, hread]
  | mapping => simp [optional, hread]

/-- Where something is, data with a default are read. -/
theorem orDefault_of_present {default item : Item} (hpresent : Present node)
    (hread : decoder depth node = pure item) :
    orDefault default decoder depth node = pure item := by
  rw [orDefault, optional_of_present hpresent hread]
  rfl

/-- Of a text in a document the text is kept. -/
theorem scalarText_of_text {text : String} (hpresent : Present node)
    (hvalue : value depth node = pure (.text text)) :
    scalarText depth node = pure (some text) := by
  rw [scalarText, optional_of_present hpresent hvalue]
  rfl

/-- Of a floating-point number in a document the text that it is written as is kept. -/
theorem scalarText_of_float {number : Binary64} (hpresent : Present node)
    (hvalue : value depth node = pure (.float number)) :
    scalarText depth node = pure (some number.render) := by
  rw [scalarText, optional_of_present hpresent hvalue]
  rfl

/-- A sequence gives the list of what its items give one level further in. -/
theorem list_sequence {sources : List Node} {found : List Item} (tag : Option String)
    (hitems : List.Forall₂ (fun source item ↦ decoder depth source = pure item) sources found) :
    list decoder (depth + 1) (.sequence tag sources) = pure found := by
  simp only [list, follow_sequence, pure_bind]
  exact mapM_eq_pure hitems

/-- A mapping of names gives the table of what its values give one level further in. -/
theorem table_mapping {sources : List (Node × Node)} {found : List (String × Item)}
    (tag : Option String)
    (hentries : List.Forall₂ (fun source item ↦ text depth source.1 = pure item.1 ∧
      decoder depth source.2 = pure item.2) sources found) :
    table decoder (depth + 1) (.mapping tag sources) = pure (Table.ofList found) := by
  have hall : sources.mapM (fun entry ↦ do
      let key ← text depth entry.1
      return (key, ← decoder depth entry.2)) = pure found :=
    mapM_eq_pure (hentries.imp fun source item ⟨hkey, hvalue⟩ ↦ by rw [hkey, hvalue]; rfl)
  simp only [table, entries, follow_mapping, pure_bind]
  exact congrArg (· >>= fun found ↦ pure (Table.ofList found)) hall

/-- A field of a record as it stands in a tree: its name, and what it does to the record. -/
abbrev Step (State : Type) := String × (State → State)

/-- What one entry of a mapping does to a record and to the names of known fields seen so far. -/
def readEntry (fields : List (String × Decoder (State → State)))
    (other : String → Decoder (State → State)) (depth : Nat) (progress : State × List String)
    (entry : Node × Node) : Reading (State × List String) := do
  let key ← text depth entry.1
  match fields.lookup key with
  | some field =>
    if progress.2.contains key then throw (.repeatedField key)
    return ((← field depth entry.2) progress.1, key :: progress.2)
  | none => return ((← other key depth entry.2) progress.1, progress.2)

/-- A mapping gives the record after all its fields, if no known field stands there twice. -/
theorem record_mapping {start : State} {fields : List (String × Decoder (State → State))}
    {other : String → Decoder (State → State)} {sources : List (Node × Node)}
    {steps : List (Step State)} (tag : Option String)
    (hsources : List.Forall₂ (fun source step ↦ text depth source.1 = pure step.1 ∧
      ((fields.lookup step.1).getD (other step.1)) depth source.2 = pure step.2) sources steps)
    (hdistinct : ((steps.map Prod.fst).filter fun name ↦ (fields.lookup name).isSome).Nodup) :
    record start fields other (depth + 1) (.mapping tag sources) =
      pure (steps.foldl (fun state step ↦ step.2 state) start) := by
  simp only [record, follow_mapping, pure_bind]
  -- The names seen so far come into the induction: no known field ahead is among them.
  suffices hfold : ∀ (state : State) (seen : List String),
      (∀ step ∈ steps, (fields.lookup step.1).isSome → step.1 ∉ seen) →
      ∃ after, sources.foldlM (readEntry fields other depth) (state, seen) =
        (pure (steps.foldl (fun state step ↦ step.2 state) state, after) :
          Reading (State × List String)) by
    obtain ⟨after, hafter⟩ := hfold start [] (by simp)
    exact congrArg (· >>= fun progress ↦ pure progress.1) hafter
  induction hsources with
  | nil => exact fun state seen _ ↦ ⟨seen, rfl⟩
  | @cons source step sources steps hfirst _ ih =>
    intro state seen hseen
    obtain ⟨hname, hchange⟩ := hfirst
    obtain ⟨hunseen, hseen⟩ := List.forall_mem_cons.mp hseen
    rw [List.foldlM_cons, readEntry, hname]
    cases hfield : fields.lookup step.1 with
    | some field =>
      rw [hfield, Option.getD_some] at hchange
      rw [List.map_cons, List.filter_cons_of_pos (by simp [hfield]), List.nodup_cons] at hdistinct
      obtain ⟨after, hafter⟩ := ih hdistinct.2 (step.2 state) (step.1 :: seen) (by
        intro later hlater hknown hmem
        rcases List.mem_cons.mp hmem with hsame | hmem
        · exact hdistinct.1
            (List.mem_filter.mpr ⟨hsame ▸ List.mem_map_of_mem hlater, by simp [hfield]⟩)
        · exact hseen later hlater hknown hmem)
      refine ⟨after, ?_⟩
      have hnot : seen.contains step.1 = false := by
        simpa using hunseen (by simp [hfield])
      simp only [pure_bind, hfield, hnot, hchange, Bool.false_eq_true, if_false]
      exact hafter
    | none =>
      rw [hfield, Option.getD_none] at hchange
      rw [List.map_cons, List.filter_cons_of_neg (by simp [hfield])] at hdistinct
      obtain ⟨after, hafter⟩ := ih hdistinct (step.2 state) seen hseen
      refine ⟨after, ?_⟩
      simp only [pure_bind, hfield, hchange]
      exact hafter

end Decoder

end Roster.Yaml
