import Mathlib.Data.Nat.Find
import Roster.Proofs.Source.LineComments
import Roster.Proofs.Source.LineDeclarations

/-!
# Where block comments end

A block comment that opens on a line outside comments swallows the lines up to its last one. The
last line is the first one that closes a comment once its line comment is cut off, or the last line
of the file when no line does (`Source.EndsOn`). Any text on these lines but white space may go: the
file declares the same without it (`Source.declarationsOf_blockComment`).

The markers are looked for when the line comments are gone. A closing marker behind two slashes, as
in a comment with a link, closes nothing. The comment then goes on behind the line where its text
ends, and hides declarations that would be there without it (`Source.not_forall_declarationsOf_eq`).
Both ends agree when nothing cuts the first closing marker off.
-/

set_option autoImplicit false
set_option relaxedAutoImplicit false

namespace Roster

/-! ### Parts of a line -/

namespace Text

theorem occursIn_iff {part text : List Char} : occursIn part text = true ↔ part <:+: text := by
  induction text with
  | nil => rw [occursIn, List.isEmpty_iff, List.infix_nil]
  | cons character rest ih =>
    rw [occursIn, Bool.or_eq_true, List.isPrefixOf_iff_prefix, ih, List.infix_cons_iff]

/-- Nothing is left of white space. -/
theorem trim_eq_nil {text : List Char} (hblank : text.all isBlank = true) : trim text = [] := by
  rw [trim, trimStart, List.dropWhile_eq_nil_iff.mpr (List.all_eq_true.mp hblank)]
  rfl

end Text

namespace Source

/-- A line without a closing marker has none when its line comment is cut off. -/
theorem closesComment_withoutComment {line : List Char} (hline : '\n' ∉ line)
    (hopen : closesComment line = false) : closesComment (withoutComment line) = false := by
  rw [← Bool.not_eq_true] at hopen ⊢
  intro hcloses
  have hmarker : ['*', '/'] <:+: withoutComment line := Text.occursIn_iff.mp hcloses
  exact hopen (Text.occursIn_iff.mpr (hmarker.trans (isInfix_withoutComment hline)))

/-! ### Lines that give way to blank ones -/

/-- Blank lines stand in the place of the lines from a first to a last one. -/
structure Blanked (first last : Nat) (before after : List (List Char)) : Prop where
  length_eq : after.length = before.length
  outside : ∀ index, index < first ∨ last < index → lineAt after index = lineAt before index
  blank : ∀ index, first ≤ index → index ≤ last → (lineAt after index).all Text.isBlank = true

theorem lineAt_lineTexts (content : String) (index : Nat) :
    lineAt (lineTexts content) index = withoutComment (lineAt (writtenLines content) index) := by
  rw [lineAt, lineAt, List.getD_eq_getElem?_getD, List.getD_eq_getElem?_getD, lineTexts,
    List.getElem?_map]
  cases (writtenLines content)[index]? with
  | none => rfl
  | some line => rfl

/-- Lines have no line feed. -/
theorem lineFeed_not_mem_writtenLine (content : String) (index : Nat) :
    '\n' ∉ lineAt (writtenLines content) index := by
  rw [lineAt, List.getD_eq_getElem?_getD]
  cases hline : (writtenLines content)[index]? with
  | none => exact List.not_mem_nil
  | some line => exact Text.not_mem_of_mem_splitOn (List.mem_of_getElem? hline)

namespace Blanked

variable {first last index : Nat} {content blanked : String}

theorem length_lineTexts
    (hblanked : Blanked first last (writtenLines content) (writtenLines blanked)) :
    (lineTexts blanked).length = (lineTexts content).length := by
  rw [lineTexts, lineTexts, List.length_map, List.length_map]
  exact hblanked.length_eq

theorem lineTexts_outside
    (hblanked : Blanked first last (writtenLines content) (writtenLines blanked))
    (houtside : index < first ∨ last < index) :
    lineAt (lineTexts blanked) index = lineAt (lineTexts content) index := by
  rw [lineAt_lineTexts, lineAt_lineTexts, hblanked.outside index houtside]

theorem lineTexts_inside
    (hblanked : Blanked first last (writtenLines content) (writtenLines blanked))
    (hfirst : first ≤ index) (hlast : index ≤ last) : lineAt (lineTexts blanked) index = [] := by
  rw [lineAt_lineTexts, withoutComment, Text.trim_eq_nil (hblanked.blank index hfirst hlast)]
  rfl

end Blanked

/-! ### Scanners at the two ends of a comment -/

variable {texts others : List (List Char)} {opening last index : Nat}

/-- Scanners that agree before a line agree behind the next lines where the texts agree. -/
theorem scannerAt_congr {start stop : Nat} (hle : start ≤ stop)
    (hstart : scannerAt others start = scannerAt texts start)
    (hsame : ∀ index, start ≤ index → index < stop → lineAt others index = lineAt texts index) :
    scannerAt others stop = scannerAt texts stop := by
  induction stop, hle using Nat.le_induction with
  | base => exact hstart
  | succ stop hle ih =>
    rw [scannerAt_succ, scannerAt_succ, hsame stop hle (Nat.lt_succ_self stop),
      ih fun index hfrom hto ↦ hsame index hfrom (Nat.lt_succ_of_lt hto)]

/-- Empty lines leave the scanner as it is. -/
theorem scannerAt_of_empty {start stop : Nat} (hle : start ≤ stop)
    (hempty : ∀ index, start ≤ index → index < stop → lineAt texts index = []) :
    scannerAt texts stop = scannerAt texts start := by
  induction stop, hle using Nat.le_induction with
  | base => rfl
  | succ stop hle ih =>
    rw [scannerAt_succ, hempty stop hle (Nat.lt_succ_self stop), Scanner.read_empty,
      ih fun index hfrom hto ↦ hempty index hfrom (Nat.lt_succ_of_lt hto)]

/-- The last line of a comment that opens on a line: the first line from there on that closes it, or
the last line of the file. -/
structure EndsOn (texts : List (List Char)) (opening last : Nat) : Prop where
  le : opening ≤ last
  lt_length : last < texts.length
  not_closed : ∀ between, opening ≤ between → between < last →
    closesComment (lineAt texts between) = false
  closed : closesComment (lineAt texts last) = true ∨ last + 1 = texts.length

namespace EndsOn

/-- The lines of a comment are skipped. -/
theorem isSkipped (hends : EndsOn texts opening last)
    (hopens : opensComment (lineAt texts opening) = true) (hfrom : opening ≤ index)
    (hto : index ≤ last) : IsSkipped texts index :=
  ⟨opening, hfrom, hopens, fun between hopening hbetween ↦
    hends.not_closed between hopening (Nat.lt_of_lt_of_le hbetween hto)⟩

/-- The lines of a comment leave the suite as it is. -/
theorem suite_scannerAt (hends : EndsOn texts opening last)
    (hopens : opensComment (lineAt texts opening) = true) (hfrom : opening ≤ index)
    (hto : index ≤ last + 1) : (scannerAt texts index).suite = (scannerAt texts opening).suite := by
  induction index, hfrom using Nat.le_induction with
  | base => rfl
  | succ index hfrom ih =>
    have hskips : (scannerAt texts index).skips (lineAt texts index) = true :=
      skips_scannerAt_iff.mpr (hends.isSkipped hopens hfrom (Nat.le_of_succ_le_succ hto))
    rw [scannerAt_succ, Scanner.read, if_pos hskips]
    exact ih (Nat.le_of_succ_le hto)

/-- Behind a comment that a line closes the scanner is what it was before the comment. -/
theorem scannerAt_of_closed (hends : EndsOn texts opening last)
    (houtside : ¬ IsInside texts opening) (hopens : opensComment (lineAt texts opening) = true)
    (hclosed : closesComment (lineAt texts last) = true) :
    scannerAt texts (last + 1) = scannerAt texts opening := by
  have hsuite := hends.suite_scannerAt hopens (Nat.le_succ_of_le hends.le) (Nat.le_refl (last + 1))
  have hbefore : (scannerAt texts opening).inside = false := by
    rw [← Bool.not_eq_true, inside_scannerAt_iff]
    exact houtside
  have hbehind : (scannerAt texts (last + 1)).inside = false := by
    rw [← Bool.not_eq_true, inside_scannerAt_iff, isInside_succ_iff, hclosed]
    exact fun hinside ↦ Bool.noConfusion hinside.2
  exact Scanner.ext (hbehind.trans hbefore.symm) hsuite

end EndsOn

/-- A comment ends somewhere from its first line on, if only with the file. -/
theorem exists_endsOn (hopening : opening < texts.length) : ∃ last, EndsOn texts opening last := by
  have hsome : ∃ last, opening ≤ last ∧
      (closesComment (lineAt texts last) = true ∨ last + 1 = texts.length) :=
    ⟨texts.length - 1, Nat.le_sub_one_of_lt hopening,
      .inr (Nat.sub_add_cancel (Nat.one_le_of_lt hopening))⟩
  obtain ⟨hle, hends⟩ := Nat.find_spec hsome
  refine ⟨Nat.find hsome, hle, ?_, fun between hfrom hto ↦ ?_, hends⟩
  · have hmin : Nat.find hsome ≤ texts.length - 1 :=
      Nat.find_min' hsome ⟨Nat.le_sub_one_of_lt hopening,
        .inr (Nat.sub_add_cancel (Nat.one_le_of_lt hopening))⟩
    exact Nat.lt_of_le_sub_one (Nat.zero_lt_of_lt hopening) hmin
  · rw [← Bool.not_eq_true]
    exact fun hcloses ↦ Nat.find_min hsome hto ⟨hfrom, .inl hcloses⟩

/-! ### What a comment hides -/

/-- The file declares the same when blank lines stand in the place of a comment. -/
theorem declarationsOf_of_blanked {content blanked : String}
    (houtside : ¬ IsInside (lineTexts content) opening)
    (hopens : opensComment (lineAt (lineTexts content) opening) = true)
    (hends : EndsOn (lineTexts content) opening last)
    (hblanked : Blanked opening last (writtenLines content) (writtenLines blanked))
    (file : Path) (classname : String) :
    declarationsOf blanked file classname = declarationsOf content file classname := by
  have hopening : scannerAt (lineTexts blanked) opening = scannerAt (lineTexts content) opening :=
    scannerAt_congr (Nat.zero_le opening) rfl fun index _ hto ↦
      hblanked.lineTexts_outside (.inl hto)
  rw [declarationsOf_eq_filterMap, declarationsOf_eq_filterMap, hblanked.length_lineTexts]
  refine List.filterMap_congr fun index hindex ↦ ?_
  rcases Nat.lt_or_ge index opening with hbefore | hfrom
  · have hscanner : scannerAt (lineTexts blanked) index = scannerAt (lineTexts content) index :=
      scannerAt_congr (Nat.zero_le index) rfl fun other _ hto ↦
        hblanked.lineTexts_outside (.inl (Nat.lt_trans hto hbefore))
    rw [hscanner, hblanked.lineTexts_outside (.inl hbefore)]
  rcases Nat.lt_or_ge last index with hbehind | hto
  · have hlength : last + 1 < (lineTexts content).length :=
      Nat.lt_of_le_of_lt hbehind (List.mem_range.mp hindex)
    have hclosed : closesComment (lineAt (lineTexts content) last) = true :=
      hends.closed.resolve_right (Nat.ne_of_lt hlength)
    have hlast : scannerAt (lineTexts blanked) (last + 1) =
        scannerAt (lineTexts content) (last + 1) := by
      rw [hends.scannerAt_of_closed houtside hopens hclosed, ← hopening]
      exact scannerAt_of_empty (Nat.le_succ_of_le hends.le) fun other hother hlast ↦
        hblanked.lineTexts_inside hother (Nat.le_of_lt_succ hlast)
    have hscanner : scannerAt (lineTexts blanked) index = scannerAt (lineTexts content) index :=
      scannerAt_congr hbehind hlast fun other hother _ ↦ hblanked.lineTexts_outside (.inr hother)
    rw [hscanner, hblanked.lineTexts_outside (.inr hbehind)]
  · have hskips := skips_scannerAt_iff.mpr (hends.isSkipped hopens hfrom hto)
    rw [hblanked.lineTexts_inside hfrom hto, Scanner.declarationOn_empty, Scanner.declarationOn,
      if_pos hskips]

/-- A line closes a comment as it is written, and no line before it, from a first one on. -/
structure ClosesFirst (texts : List (List Char)) (opening closing : Nat) : Prop where
  le : opening ≤ closing
  closes : closesComment (lineAt texts closing) = true
  first : ∀ between, opening ≤ between → between < closing →
    closesComment (lineAt texts between) = false

instance (texts : List (List Char)) (opening closing : Nat) :
    Decidable (ClosesFirst texts opening closing) :=
  decidable_of_iff (opening ≤ closing ∧ closesComment (lineAt texts closing) = true ∧
      ∀ between < closing, opening ≤ between → closesComment (lineAt texts between) = false)
    ⟨fun ⟨hle, hcloses, hfirst⟩ ↦
        ⟨hle, hcloses, fun between hfrom hto ↦ hfirst between hto hfrom⟩,
      fun ⟨hle, hcloses, hfirst⟩ ↦
        ⟨hle, hcloses, fun between hto hfrom ↦ hfirst between hfrom hto⟩⟩

/-- A comment does not end before the line where its text ends. -/
theorem EndsOn.closing_le {content : String} {closing : Nat}
    (hends : EndsOn (lineTexts content) opening last)
    (hfirst : ClosesFirst (writtenLines content) opening closing) : closing ≤ last := by
  by_contra hlate
  have hlt : last < closing := Nat.lt_of_not_le hlate
  have hopen : closesComment (lineAt (lineTexts content) last) = false := by
    rw [lineAt_lineTexts]
    exact closesComment_withoutComment (lineFeed_not_mem_writtenLine content last)
      (hfirst.first last hends.le hlt)
  rcases hends.closed with hclosed | hlength
  · exact Bool.noConfusion (hopen.symm.trans hclosed)
  · have hbehind : (writtenLines content).length ≤ closing := by
      rw [lineTexts, List.length_map] at hlength
      exact hlength ▸ hlt
    have hcloses := hfirst.closes
    rw [lineAt, List.getD_eq_getElem?_getD, List.getElem?_eq_none hbehind] at hcloses
    exact absurd hcloses (by decide)

/-- A comment ends on the line where its text ends if what is left of that line closes it. -/
theorem EndsOn.eq_closing {closing : Nat} (hends : EndsOn texts opening last)
    (hle : opening ≤ closing) (hlast : closing ≤ last)
    (hcloses : closesComment (lineAt texts closing) = true) : closing = last := by
  refine Nat.le_antisymm hlast (Nat.le_of_not_lt fun hlt ↦ ?_)
  exact Bool.noConfusion ((hends.not_closed closing hle hlt).symm.trans hcloses)

/-- A block comment that opens on a line outside comments ends on the first line from there on that
closes it with its line comment cut off, if only with the file. The file declares the same with
blank lines in the place of the comment. The comment reaches the line where its text ends, and not
beyond if what is left of that line closes it. -/
theorem declarationsOf_blockComment {content : String}
    (houtside : ¬ IsInside (lineTexts content) opening)
    (hopens : opensComment (lineAt (lineTexts content) opening) = true)
    (file : Path) (classname : String) :
    (∃ last, EndsOn (lineTexts content) opening last) ∧
      ∀ last, EndsOn (lineTexts content) opening last →
        (∀ blanked, Blanked opening last (writtenLines content) (writtenLines blanked) →
          declarationsOf blanked file classname = declarationsOf content file classname) ∧
        ∀ closing, ClosesFirst (writtenLines content) opening closing → closing ≤ last ∧
          (closesComment (lineAt (lineTexts content) closing) = true → closing = last) := by
  have hlength : opening < (lineTexts content).length := by
    by_contra hbehind
    rw [lineAt, List.getD_eq_getElem?_getD, List.getElem?_eq_none (Nat.le_of_not_lt hbehind)]
      at hopens
    exact absurd hopens (by decide)
  refine ⟨exists_endsOn hlength, fun last hends ↦ ⟨?_, ?_⟩⟩
  · intro blanked hblanked
    exact declarationsOf_of_blanked houtside hopens hends hblanked file classname
  · intro closing hfirst
    have hle : closing ≤ last := hends.closing_le hfirst
    exact ⟨hle, hends.eq_closing hfirst.le hle⟩

/-- A source file with a link in a comment, a case behind it, and a line that closes the comment. -/
def linkedSource : String :=
  "/* see http://x */\n" ++ "It(\"lost\", func() \x7b\n" ++ "*/\n" ++ "It(\"kept\", func() \x7b\n"

/-- The comment with the link takes three lines, though its text ends on the first one. -/
theorem declarationsOf_blockComment_linkedSource :
    EndsOn (lineTexts linkedSource) 0 2 ∧ ClosesFirst (writtenLines linkedSource) 0 0 ∧
      declarationsOf linkedSource ⟨"a.go"⟩ "c" =
        [.test "c. kept" ⟨⟨"a.go"⟩, 4, "It(\"kept\", func() \x7b"⟩] ∧
      declarationsOf "\n\n\nIt(\"kept\", func() \x7b\n" ⟨"a.go"⟩ "c" =
        declarationsOf linkedSource ⟨"a.go"⟩ "c" := by
  have houtside : ¬ IsInside (lineTexts linkedSource) 0 := fun ⟨_, hlt, _⟩ ↦ Nat.not_lt_zero _ hlt
  have hends : EndsOn (lineTexts linkedSource) 0 2 :=
    ⟨Nat.zero_le 2, by decide, by decide, by decide⟩
  have hfirst : ClosesFirst (writtenLines linkedSource) 0 0 :=
    ⟨Nat.le_refl 0, by decide, by decide⟩
  obtain ⟨-, hcomment⟩ := declarationsOf_blockComment houtside (by decide) ⟨"a.go"⟩ "c"
  refine ⟨hends, hfirst, by decide +kernel, (hcomment 2 hends).1 _ ⟨by decide, ?_, by decide⟩⟩
  rintro (_ | _ | _ | index) hoff
  · omega
  · omega
  · omega
  · rfl

/-- A comment may go on behind the line where its text ends. The case behind a comment with a link
is there when the comment is not. -/
theorem not_forall_declarationsOf_eq :
    ¬ ∀ (content blanked : String) (file : Path) (classname : String) (opening closing : Nat),
      ¬ IsInside (lineTexts content) opening →
      opensComment (lineAt (lineTexts content) opening) = true →
      ClosesFirst (writtenLines content) opening closing →
      Blanked opening closing (writtenLines content) (writtenLines blanked) →
      declarationsOf blanked file classname = declarationsOf content file classname := by
  intro hclaim
  have hsame := hclaim "/* see http://x */\nIt(\"a\", func() \x7b\n" "\nIt(\"a\", func() \x7b\n"
    ⟨"a.go"⟩ "c" 0 0 (fun ⟨_, hlt, _⟩ ↦ Nat.not_lt_zero _ hlt) (by decide)
    ⟨Nat.le_refl 0, by decide, by decide⟩ ⟨by decide, ?_, by decide⟩
  · exact absurd hsame (by decide +kernel)
  · rintro (_ | index) hoff
    · omega
    · rfl

end Source

end Roster
