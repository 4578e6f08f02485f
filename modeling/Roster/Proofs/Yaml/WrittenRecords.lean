import Roster.Proofs.TableLookup
import Roster.Proofs.Yaml.Readings
import Roster.Proofs.Yaml.WrittenNodes

/-!
# Records and tables survive being written

Lists, tables and records are written as sequences and mappings of names. Each of the decoders gives
back what was written, provided that the decoders of its parts do so one level further in.
-/

set_option autoImplicit false
set_option relaxedAutoImplicit false

namespace Roster.Yaml.Decoder

variable {Item State : Type} {decoder : Decoder Item} {depth : ℕ}

/-- A reading that gives its result outright is followed by the next one. -/
theorem bind_of_eq_pure {reading : Reading Item} {item : Item} (hread : reading = pure item)
    (next : Item → Reading State) : (reading >>= next) = next item := by
  rw [hread, pure_bind]

/-- A field is read if its value is. -/
theorem field_of_eq_pure {node : Node} {item : Item} (set : Item → State → State)
    (hread : decoder depth node = pure item) : field decoder set depth node = pure (set item) :=
  bind_of_eq_pure hread _

/-- A text that is written stands for something. -/
theorem present_written_ofText (inKey : Bool) (text : String) :
    Present ((Node.ofText text).written inKey) := by
  obtain ⟨style, hwritten, hmeaning⟩ := Node.exists_written_ofText inKey text
  rw [hwritten]
  refine .scalar fun hplain ↦ ?_
  rw [hmeaning hplain]
  exact fun hsame ↦ by cases hsame

/-- A text that is written is read. -/
theorem text_written_ofText (inKey : Bool) (text : String) :
    Decoder.text depth ((Node.ofText text).written inKey) = pure text := by
  obtain ⟨style, hwritten, -⟩ := Node.exists_written_ofText inKey text
  rw [hwritten]
  exact text_scalar none style text

/-- Texts that are written are read. -/
theorem list_written_ofTexts (inKey : Bool) (texts : List String) :
    list Decoder.text (depth + 1) ((Node.ofTexts texts).written inKey) = pure texts := by
  rw [Node.ofTexts, Node.written, Node.writtenItems_eq_map, List.map_map]
  exact list_sequence none (List.forall₂_map_left_iff.mpr
    (List.forall₂_same.mpr fun text _ ↦ text_written_ofText false text))

/-- A table that is written is read, if its values are. -/
theorem table_written {toNode : Item → Node} (inKey : Bool) (found : Table Item)
    (hvalues : ∀ entry ∈ found.entries,
      decoder depth ((toNode entry.2).written false) = pure entry.2) :
    table decoder (depth + 1) ((Node.ofEntries (found.map toNode).entries).written inKey) =
      pure found := by
  rw [Node.ofEntries, Node.written, Node.writtenEntries_eq_map, List.map_map, Table.map,
    List.map_map]
  nth_rewrite 2 [← Table.ofList_entries found]
  exact table_mapping none (List.forall₂_map_left_iff.mpr (List.forall₂_same.mpr fun entry hmem ↦
    ⟨text_written_ofText _ entry.1, hvalues entry hmem⟩))

/-- A record that is written is read field by field. -/
theorem record_written {start : State} {fields : List (String × Decoder (State → State))}
    {other : String → Decoder (State → State)} {entries : List (String × Node)}
    {changes : List (State → State)} (inKey : Bool)
    (hentries : List.Forall₂ (fun entry change ↦
      ((fields.lookup entry.1).getD (other entry.1)) depth (entry.2.written false) = pure change)
        entries changes)
    (hdistinct : ((entries.map Prod.fst).filter fun name ↦ (fields.lookup name).isSome).Nodup) :
    record start fields other (depth + 1) ((Node.ofEntries entries).written inKey) =
      pure (changes.foldl (fun state change ↦ change state) start) := by
  obtain ⟨steps, hsteps, hnames, hchanges⟩ : ∃ steps : List (Step State),
      List.Forall₂ (fun entry step ↦ entry.1 = step.1 ∧
        ((fields.lookup step.1).getD (other step.1)) depth (entry.2.written false) = pure step.2)
          entries steps ∧ steps.map Prod.fst = entries.map Prod.fst ∧
        steps.map Prod.snd = changes := by
    clear hdistinct
    induction hentries with
    | nil => exact ⟨[], .nil, rfl, rfl⟩
    | @cons entry change _ _ hfirst _ ih =>
      obtain ⟨steps, hsteps, hnames, hchanges⟩ := ih
      exact ⟨(entry.1, change) :: steps, .cons ⟨rfl, hfirst⟩ hsteps,
        by rw [List.map_cons, hnames, List.map_cons], by rw [List.map_cons, hchanges]⟩
  rw [Node.ofEntries, Node.written, Node.writtenEntries_eq_map, List.map_map,
    record_mapping none (List.forall₂_map_left_iff.mpr (hsteps.imp fun entry step ⟨hname, hread⟩ ↦
      ⟨hname ▸ text_written_ofText _ entry.1, hread⟩)) (by rwa [hnames]),
    ← hchanges, List.foldl_map]

end Roster.Yaml.Decoder
