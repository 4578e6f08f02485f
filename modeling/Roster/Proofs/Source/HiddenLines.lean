import Roster.Proofs.Source.AlikeSources
import Roster.Proofs.Source.AppendedCases
import Roster.Proofs.Source.BlockComments

/-!
# Lines hidden by a comment

A block comment runs from a line that opens it to the first later line that closes it, with no line
comment on the way (`Source.Spans`). The lines strictly between are hidden from the declarations:
with blank lines in their place the file declares the same (`Source.declarationsOf_hidden`).

They are not hidden from the class name, which is that of the last naming line of the file, inside
comments or not. A hidden naming line counts unless a line behind the comment names the class again,
and changes the class name unless the lines before the comment give the same one
(`Source.classnameOf_hidden_iff`). So a suite that is commented out renames the tests of its whole
directory (`Source.not_forall_hidden`). A scrape gives the same with the hidden lines and without
them if they leave the class name of their file as it is (`Source.scrape_hiddenLines`).
-/

set_option autoImplicit false
set_option relaxedAutoImplicit false

namespace Roster

/-! ### Marks on a trimmed line -/

namespace Text

variable {first second : Char} {text : List Char}

/-- A pair stays when other characters are dropped before it. -/
theorem pair_infix_dropWhile_iff {drops : Char → Bool} (hfirst : drops first = false) :
    [first, second] <:+: text.dropWhile drops ↔ [first, second] <:+: text := by
  induction text with
  | nil => rfl
  | cons character rest ih =>
    rw [List.dropWhile_cons]
    split
    · next hdrops =>
      have hother : ¬ [first, second] <+: character :: rest := by
        intro hprefix
        rw [(List.cons_prefix_cons.mp hprefix).1, hdrops] at hfirst
        exact Bool.noConfusion hfirst
      rw [ih, List.infix_cons_iff, or_iff_right hother]
    · rfl

/-- A pair of characters stays when white space is trimmed. -/
theorem pair_infix_trim_iff (hfirst : isBlank first = false) (hsecond : isBlank second = false) :
    [first, second] <:+: trim text ↔ [first, second] <:+: text := by
  have hturn (line : List Char) : [first, second] <:+: line ↔ [second, first] <:+: line.reverse :=
    List.reverse_infix.symm
  rw [trim, trimEnd, hturn, List.reverse_reverse, pair_infix_dropWhile_iff hsecond, ← hturn,
    trimStart, pair_infix_dropWhile_iff hfirst]

end Text

namespace Source

variable {content blanked : String} {opening closing : Nat} {line : List Char}

/-- A mark of a comment stays on a line without a line comment. -/
theorem occursIn_withoutComment {first second : Char} (hfirst : Text.isBlank first = false)
    (hsecond : Text.isBlank second = false) (huncut : ¬ ['/', '/'] <:+: line) :
    Text.occursIn [first, second] (withoutComment line) = Text.occursIn [first, second] line := by
  rw [Bool.eq_iff_iff, withoutComment_eq_trim huncut, Text.occursIn_iff, Text.occursIn_iff,
    Text.pair_infix_trim_iff hfirst hsecond]

/-- No mark is on a blank line. -/
theorem not_pair_infix_of_blank {first second : Char} (hfirst : Text.isBlank first = false)
    (hblank : line.all Text.isBlank = true) : ¬ [first, second] <:+: line := by
  intro hpair
  have hmem : first ∈ line := hpair.subset List.mem_cons_self
  exact Bool.noConfusion (hfirst.symm.trans (List.all_eq_true.mp hblank first hmem))

/-- The second line is outside comments unless the first one opens one. -/
theorem not_isInside_one {texts : List (List Char)}
    (hfirst : opensComment (lineAt texts 0) = false) : ¬ IsInside texts 1 := by
  rintro ⟨index, hlt, hopens, -⟩
  rw [Nat.lt_one_iff.mp hlt, hfirst] at hopens
  exact Bool.noConfusion hopens

/-! ### The lines of a comment -/

/-- A block comment runs from a line that opens it to the first later line that closes it, and no
line comment is on any of its lines. -/
structure Spans (lines : List (List Char)) (opening closing : Nat) : Prop where
  lt : opening < closing
  opens : opensComment (lineAt lines opening) = true
  closesFirst : ClosesFirst lines opening closing
  uncut : ∀ index, opening ≤ index → index ≤ closing → ¬ ['/', '/'] <:+: lineAt lines index

namespace Spans

theorem iff_forall_le {lines : List (List Char)} : Spans lines opening closing ↔
    opening < closing ∧ opensComment (lineAt lines opening) = true ∧
      ClosesFirst lines opening closing ∧
      ∀ index ≤ closing, opening ≤ index →
        Text.occursIn ['/', '/'] (lineAt lines index) = false := by
  simp only [← Bool.not_eq_true, Text.occursIn_iff]
  constructor
  · rintro ⟨hlt, hopens, hcloses, huncut⟩
    exact ⟨hlt, hopens, hcloses, fun index hto hfrom ↦ huncut index hfrom hto⟩
  · rintro ⟨hlt, hopens, hcloses, huncut⟩
    exact ⟨hlt, hopens, hcloses, fun index hfrom hto ↦ huncut index hto hfrom⟩

instance (lines : List (List Char)) (opening closing : Nat) :
    Decidable (Spans lines opening closing) :=
  decidable_of_iff' _ iff_forall_le

/-- The scanner sees the opening mark. -/
theorem opens_lineTexts (hspans : Spans (writtenLines content) opening closing) :
    opensComment (lineAt (lineTexts content) opening) = true := by
  have huncut := hspans.uncut opening (Nat.le_refl opening) hspans.lt.le
  rw [lineAt_lineTexts, opensComment, occursIn_withoutComment rfl rfl huncut]
  exact hspans.opens

/-- The scanner sees the same lines of the comment close it. -/
theorem closesComment_lineTexts {index : Nat}
    (hspans : Spans (writtenLines content) opening closing) (hfrom : opening ≤ index)
    (hto : index ≤ closing) :
    closesComment (lineAt (lineTexts content) index) =
      closesComment (lineAt (writtenLines content) index) := by
  rw [lineAt_lineTexts, closesComment, closesComment,
    occursIn_withoutComment rfl rfl (hspans.uncut index hfrom hto)]

/-- The comment ends where its text ends. -/
theorem endsOn (hspans : Spans (writtenLines content) opening closing) :
    EndsOn (lineTexts content) opening closing := by
  have hle : opening ≤ closing := hspans.closesFirst.le
  have hcloses : closesComment (lineAt (lineTexts content) closing) = true := by
    rw [hspans.closesComment_lineTexts hle (Nat.le_refl closing)]
    exact hspans.closesFirst.closes
  refine ⟨hle, ?_, fun between hfrom hto ↦ ?_, .inl hcloses⟩
  · by_contra hbehind
    rw [lineAt, List.getD_eq_getElem?_getD, List.getElem?_eq_none (Nat.le_of_not_lt hbehind)]
      at hcloses
    exact absurd hcloses (by decide)
  · rw [hspans.closesComment_lineTexts hfrom hto.le]
    exact hspans.closesFirst.first between hfrom hto

end Spans

namespace Blanked

variable {first last : Nat} {before after : List (List Char)}

/-- Behind the end of a file there is nothing to compare. -/
theorem iff_forall_lt : Blanked first last before after ↔
    after.length = before.length ∧
      (∀ index < before.length, index < first ∨ last < index →
        lineAt after index = lineAt before index) ∧
      ∀ index ≤ last, first ≤ index → (lineAt after index).all Text.isBlank = true := by
  constructor
  · rintro ⟨hlength, houtside, hblank⟩
    exact ⟨hlength, fun index _ hoff ↦ houtside index hoff,
      fun index hlast hfirst ↦ hblank index hfirst hlast⟩
  · rintro ⟨hlength, houtside, hblank⟩
    refine ⟨hlength, fun index hoff ↦ ?_, fun index hfirst hlast ↦ hblank index hlast hfirst⟩
    rcases Nat.lt_or_ge index before.length with hlt | hge
    · exact houtside index hlt hoff
    · have hge' : after.length ≤ index := hlength ▸ hge
      rw [lineAt, lineAt, List.getD_eq_getElem?_getD, List.getD_eq_getElem?_getD,
        List.getElem?_eq_none hge, List.getElem?_eq_none hge']

instance (first last : Nat) (before after : List (List Char)) :
    Decidable (Blanked first last before after) :=
  decidable_of_iff' _ iff_forall_lt

/-- With blank lines between its two ends, the comment runs from the one to the other. -/
theorem spans (hblanked : Blanked (opening + 1) (closing - 1) before after)
    (hspans : Spans before opening closing) : Spans after opening closing := by
  have hlt : closing - 1 < closing := Nat.sub_one_lt_of_lt hspans.lt
  have hopening := hblanked.outside opening (.inl (Nat.lt_succ_self opening))
  have hclosing := hblanked.outside closing (.inr hlt)
  refine ⟨hspans.lt, hopening ▸ hspans.opens, ⟨hspans.closesFirst.le, ?_, ?_⟩, ?_⟩
  · rw [hclosing]
    exact hspans.closesFirst.closes
  · intro between hfrom hto
    rcases Nat.eq_or_lt_of_le hfrom with rfl | hinside
    · rw [hopening]
      exact hspans.closesFirst.first opening hfrom hto
    · have hblank := hblanked.blank between hinside (Nat.le_sub_one_of_lt hto)
      rw [← Bool.not_eq_true, closesComment, Text.occursIn_iff]
      exact not_pair_infix_of_blank rfl hblank
  · intro index hfrom hto
    by_cases hinside : opening + 1 ≤ index ∧ index ≤ closing - 1
    · exact not_pair_infix_of_blank rfl (hblanked.blank index hinside.1 hinside.2)
    · rw [hblanked.outside index (by omega)]
      exact hspans.uncut index hfrom hto

/-- Blank lines in the place of a whole comment may as well stand in the place of its blank one. -/
theorem whole {whole : List (List Char)}
    (hblanked : Blanked (opening + 1) (closing - 1) before after)
    (hwhole : Blanked opening closing before whole) : Blanked opening closing after whole := by
  refine ⟨hwhole.length_eq.trans hblanked.length_eq.symm, fun index hoff ↦ ?_, hwhole.blank⟩
  rw [hwhole.outside index hoff, hblanked.outside index (by omega)]

theorem getElem?_eq {index : Nat} (hblanked : Blanked first last before after)
    (houtside : index < first ∨ last < index) : after[index]? = before[index]? := by
  have hline := hblanked.outside index houtside
  rcases Nat.lt_or_ge index before.length with hlt | hge
  · have hlt' : index < after.length := hblanked.length_eq ▸ hlt
    rw [lineAt, lineAt, List.getD_eq_getElem?_getD, List.getD_eq_getElem?_getD,
      List.getElem?_eq_getElem hlt, List.getElem?_eq_getElem hlt'] at hline
    rw [List.getElem?_eq_getElem hlt, List.getElem?_eq_getElem hlt']
    exact congrArg some hline
  · rw [List.getElem?_eq_none hge, List.getElem?_eq_none (hblanked.length_eq ▸ hge)]

/-- The lines before the blank ones stay. -/
theorem take_eq (hblanked : Blanked first last before after) :
    after.take first = before.take first := by
  refine List.ext_getElem? fun index ↦ ?_
  rw [List.getElem?_take, List.getElem?_take]
  split
  · next hbefore => exact hblanked.getElem?_eq (.inl hbefore)
  · rfl

/-- The lines behind the blank ones stay. -/
theorem drop_eq (hblanked : Blanked first last before after) :
    after.drop (last + 1) = before.drop (last + 1) := by
  refine List.ext_getElem? fun index ↦ ?_
  rw [List.getElem?_drop, List.getElem?_drop]
  exact hblanked.getElem?_eq (.inr (by omega))

/-- The lines in the place of the given ones are blank. -/
theorem blank_of_mem (hblanked : Blanked first last before after) {line : List Char}
    (hline : line ∈ (after.take (last + 1)).drop first) : line.all Text.isBlank = true := by
  obtain ⟨index, hindex⟩ := List.mem_iff_getElem?.mp hline
  rw [List.getElem?_drop, List.getElem?_take] at hindex
  split at hindex
  · next hlast =>
    have hblank := hblanked.blank (first + index) (Nat.le_add_right first index)
      (Nat.le_of_lt_succ hlast)
    rw [lineAt, List.getD_eq_getElem?_getD, hindex] at hblank
    exact hblank
  · cases hindex

end Blanked

/-- Some file has blank lines in the place of some lines of a file. -/
theorem exists_blanked (content : String) (first last : Nat) :
    ∃ blanked, Blanked first last (writtenLines content) (writtenLines blanked) := by
  let lines := (writtenLines content).mapIdx fun index line ↦
    if first ≤ index ∧ index ≤ last then [] else line
  have hlength : lines.length = (writtenLines content).length := List.length_mapIdx
  have hat (index : Nat) : lineAt lines index =
      if first ≤ index ∧ index ≤ last then [] else lineAt (writtenLines content) index := by
    rw [lineAt, lineAt, List.getD_eq_getElem?_getD, List.getD_eq_getElem?_getD,
      List.getElem?_mapIdx]
    cases (writtenLines content)[index]? with
    | none => simp
    | some line => rfl
  have hwritten : writtenLines (String.ofList (Text.joinWith ['\n'] lines)) = lines := by
    have hsome : lines ≠ [] := by
      intro hnone
      rw [hnone] at hlength
      exact Text.splitOn_ne_nil '\n' content.toList (List.length_eq_zero_iff.mp hlength.symm)
    rw [writtenLines, String.toList_ofList]
    refine Text.splitOn_joinWith (fun piece hpiece ↦ ?_) hsome
    obtain ⟨index, hindex, rfl⟩ := List.mem_mapIdx.mp hpiece
    split
    · exact List.not_mem_nil
    · exact Text.not_mem_of_mem_splitOn (List.getElem_mem hindex)
  refine ⟨String.ofList (Text.joinWith ['\n'] lines), ?_⟩
  rw [hwritten]
  refine ⟨hlength, fun index hoff ↦ ?_, fun index hfirst hlast ↦ ?_⟩
  · rw [hat, if_neg (by omega)]
  · rw [hat, if_pos ⟨hfirst, hlast⟩]
    rfl

/-! ### Hidden declarations -/

/-- A file declares the same with blank lines between the two ends of a comment. -/
theorem declarationsOf_hidden (houtside : ¬ IsInside (lineTexts content) opening)
    (hspans : Spans (writtenLines content) opening closing)
    (hblanked : Blanked (opening + 1) (closing - 1) (writtenLines content) (writtenLines blanked))
    (file : Path) (classname : String) :
    declarationsOf blanked file classname = declarationsOf content file classname := by
  obtain ⟨whole, hwhole⟩ := exists_blanked content opening closing
  have hspans' : Spans (writtenLines blanked) opening closing := hblanked.spans hspans
  have houtside' : ¬ IsInside (lineTexts blanked) opening := by
    have hscanner : scannerAt (lineTexts blanked) opening = scannerAt (lineTexts content) opening :=
      scannerAt_congr (Nat.zero_le opening) rfl fun index _ hto ↦
        hblanked.lineTexts_outside (.inl (Nat.lt_succ_of_lt hto))
    rw [← inside_scannerAt_iff, hscanner, inside_scannerAt_iff]
    exact houtside
  calc declarationsOf blanked file classname
      = declarationsOf whole file classname :=
        (declarationsOf_of_blanked houtside' hspans'.opens_lineTexts hspans'.endsOn
          (hblanked.whole hwhole) file classname).symm
    _ = declarationsOf content file classname :=
        declarationsOf_of_blanked houtside hspans.opens_lineTexts hspans.endsOn hwhole file
          classname

/-! ### Class names in comments -/

/-- The class name that the last naming line of some lines gives. -/
def lastClassname (lines : List (List Char)) : Option (List Char) :=
  (lines.filterMap fun line ↦ classnameOfLine (Text.trim line)).getLast?

theorem lastClassname_append (front back : List (List Char)) :
    lastClassname (front ++ back) = (lastClassname back).or (lastClassname front) := by
  rw [lastClassname, List.filterMap_append, List.getLast?_append]
  rfl

/-- Blank lines give no class name. -/
theorem lastClassname_of_blank {lines : List (List Char)}
    (hblank : ∀ line ∈ lines, line.all Text.isBlank = true) : lastClassname lines = none := by
  have hnone : lines.filterMap (fun line ↦ classnameOfLine (Text.trim line)) = [] := by
    refine List.filterMap_eq_nil_iff.mpr fun line hline ↦ ?_
    rw [Text.trim_eq_nil (hblank line hline)]
    decide
  rw [lastClassname, hnone]
  rfl

/-- The class name of a file is that of its last naming line. -/
theorem classnameOf_eq_lastClassname (content : String) :
    classnameOf content = (lastClassname (writtenLines content)).map String.ofList := by
  have htrim (lines : List (List Char)) : lines.filterMap (fun line ↦ classnameOfLine
      (Text.trim line)) = (lines.map Text.trim).filterMap classnameOfLine := by
    rw [List.filterMap_map]
    rfl
  have hempty : classnameOfLine [] = none := by decide
  rw [classnameOf, lastClassname, htrim, htrim, writtenLines, Text.lines]
  rcases map_trim_pieces (Text.splitOn_ne_nil '\n' content.toList) with hsame | hmore
  · rw [hsame]
  · rw [hmore, List.filterMap_append, List.filterMap_cons_none hempty, List.filterMap_nil,
      List.append_nil]

/-- The lines strictly between two lines. -/
def linesBetween (lines : List (List Char)) (opening closing : Nat) : List (List Char) :=
  (lines.take closing).drop (opening + 1)

theorem take_append_linesBetween_append_drop {lines : List (List Char)} (hlt : opening < closing) :
    lines.take (opening + 1) ++ linesBetween lines opening closing ++ lines.drop closing =
      lines := by
  have hfront : lines.take (opening + 1) = (lines.take closing).take (opening + 1) := by
    rw [List.take_take, Nat.min_eq_left hlt]
  rw [hfront, linesBetween, List.take_append_drop, List.take_append_drop]

/-- A naming line from the closing line of a comment on goes before one between its ends, and that
one before those up to the opening line. -/
theorem classnameOf_eq_or (content : String) (hlt : opening < closing) :
    classnameOf content = ((lastClassname ((writtenLines content).drop closing)).or
      ((lastClassname (linesBetween (writtenLines content) opening closing)).or
        (lastClassname ((writtenLines content).take (opening + 1))))).map String.ofList := by
  rw [classnameOf_eq_lastClassname, ← lastClassname_append, ← lastClassname_append,
    take_append_linesBetween_append_drop hlt]

/-- The class name of a file stays with blank lines between the two ends of a comment exactly when
a line from the closing one on names the class, or no hidden line does, or the last hidden line that
does gives the name that the lines up to the opening one give. -/
theorem classnameOf_hidden_iff (hlt : opening < closing)
    (hblanked : Blanked (opening + 1) (closing - 1) (writtenLines content) (writtenLines blanked)) :
    classnameOf blanked = classnameOf content ↔
      lastClassname ((writtenLines content).drop closing) ≠ none ∨
      lastClassname (linesBetween (writtenLines content) opening closing) = none ∨
      lastClassname (linesBetween (writtenLines content) opening closing) =
        lastClassname ((writtenLines content).take (opening + 1)) := by
  have hclosing : closing - 1 + 1 = closing := Nat.sub_add_cancel (Nat.one_le_of_lt hlt)
  have hnone : lastClassname (linesBetween (writtenLines blanked) opening closing) = none := by
    refine lastClassname_of_blank fun line hline ↦ hblanked.blank_of_mem ?_
    rw [hclosing]
    exact hline
  have hbehind := hblanked.drop_eq
  rw [hclosing] at hbehind
  have hinjective : Function.Injective (Option.map String.ofList) :=
    Option.map_injective fun _ _ ↦ String.ofList_injective
  rw [classnameOf_eq_or blanked hlt, classnameOf_eq_or content hlt, hinjective.eq_iff, hnone,
    hbehind, hblanked.take_eq, Option.none_or]
  cases lastClassname ((writtenLines content).drop closing) with
  | some behind => simp
  | none =>
    cases lastClassname (linesBetween (writtenLines content) opening closing) with
    | none => simp
    | some hidden => simp [eq_comm]

/-! ### Scrapes with and without the hidden lines -/

/-- Let a block comment outside others run from one line of a file to another, with no line comment
on the way, and let blank lines stand in the place of those strictly between. The file then declares
the same. Its class name is the same exactly when a line from the closing one on names the class, or
no hidden line does, or the last hidden line that does gives the name that the lines up to the
opening one give. If it is the same, a scrape of any tree with that file gives what it gives with
the file rewritten. -/
theorem scrape_hiddenLines (houtside : ¬ IsInside (lineTexts content) opening)
    (hspans : Spans (writtenLines content) opening closing)
    (hblanked :
      Blanked (opening + 1) (closing - 1) (writtenLines content) (writtenLines blanked)) :
    (∀ file classname,
      declarationsOf blanked file classname = declarationsOf content file classname) ∧
    (classnameOf blanked = classnameOf content ↔
      lastClassname ((writtenLines content).drop closing) ≠ none ∨
      lastClassname (linesBetween (writtenLines content) opening closing) = none ∨
      lastClassname (linesBetween (writtenLines content) opening closing) =
        lastClassname ((writtenLines content).take (opening + 1))) ∧
    (classnameOf blanked = classnameOf content →
      ∀ (disk : Disk) (place : List String) (bytes rewritten : List UInt8),
        disk.root.get? place = some (.file bytes) →
        Text.Utf8.decodeLossy bytes = content → Text.Utf8.decodeLossy rewritten = blanked →
        ∀ suffixes roots,
          scrape { disk with root := disk.root.set place (.file rewritten) } suffixes roots =
            scrape disk suffixes roots) := by
  have hdeclared := declarationsOf_hidden houtside hspans hblanked
  refine ⟨hdeclared, classnameOf_hidden_iff hspans.lt hblanked, ?_⟩
  rintro hnamed disk place bytes rewritten hfile rfl rfl suffixes roots
  have hsame : BytesReadAs bytes rewritten :=
    ⟨hnamed.symm, fun file classname ↦ (hdeclared file classname).symm⟩
  exact (scrape_eq_of_alike (Disk.Alike.of_set BytesReadAs.refl hfile hsame) suffixes roots).symm

/-- A source file with a suite and a case in a comment. -/
def suspendedSource : String :=
  "k8stest.InitTesting(t, \"io\", \"io\")\n" ++ "/*\n" ++
    "k8stest.InitTesting(t, \"io\", \"io\")\n" ++ "It(\"old\", func() \x7b\n" ++ "*/\n" ++
    "It(\"runs\", func() \x7b\n"

/-- The file without the suite and the case. -/
def prunedSource : String :=
  "k8stest.InitTesting(t, \"io\", \"io\")\n" ++ "/*\n" ++ "\n" ++ "\n" ++ "*/\n" ++
    "It(\"runs\", func() \x7b\n"

/-- A tree with one source file. -/
def soleSource (content : String) : Disk :=
  ⟨.directory [("src", .directory [("io", .directory
    [("a.go", .file (Text.Utf8.encode content))])])], []⟩

/-- The suite in the comment gives the name that the file has anyway, so that a scrape does not see
the hidden lines. -/
theorem scrape_hiddenLines_suspendedSource :
    ¬ IsInside (lineTexts suspendedSource) 1 ∧ Spans (writtenLines suspendedSource) 1 4 ∧
      Blanked 2 3 (writtenLines suspendedSource) (writtenLines prunedSource) ∧
      scrape (soleSource prunedSource) ["go"] ["/src"] =
        scrape (soleSource suspendedSource) ["go"] ["/src"] := by
  have hall : opensComment (lineAt (lineTexts suspendedSource) 0) = false ∧
      Spans (writtenLines suspendedSource) 1 4 ∧
      Blanked 2 3 (writtenLines suspendedSource) (writtenLines prunedSource) ∧
      classnameOf prunedSource = classnameOf suspendedSource ∧
      Text.Utf8.decodeLossy (Text.Utf8.encode suspendedSource) = suspendedSource ∧
      Text.Utf8.decodeLossy (Text.Utf8.encode prunedSource) = prunedSource := by
    decide +kernel
  obtain ⟨hbefore, hspans, hblanked, hnamed, hbytes, hrewritten⟩ := hall
  have houtside : ¬ IsInside (lineTexts suspendedSource) 1 := not_isInside_one hbefore
  obtain ⟨-, -, hscrape⟩ := scrape_hiddenLines houtside hspans hblanked
  exact ⟨houtside, hspans, hblanked, hscrape hnamed (soleSource suspendedSource)
    ["src", "io", "a.go"] _ _ rfl hbytes hrewritten ["go"] ["/src"]⟩

/-- A hidden line may name the class. The suite that is commented out renames the file. -/
theorem not_forall_hidden :
    ¬ ∀ (content blanked : String) (opening closing : Nat),
      ¬ IsInside (lineTexts content) opening →
      Spans (writtenLines content) opening closing →
      Blanked (opening + 1) (closing - 1) (writtenLines content) (writtenLines blanked) →
      classnameOf blanked = classnameOf content ∧ ∀ file classname,
        declarationsOf blanked file classname = declarationsOf content file classname := by
  intro hclaim
  let content := "k8stest.InitTesting(t, \"io\", \"io\")\n" ++ "/*\n" ++
    "k8stest.InitTesting(t, \"old\", \"old\")\n" ++ "*/\n"
  let blanked := "k8stest.InitTesting(t, \"io\", \"io\")\n" ++ "/*\n" ++ "\n" ++ "*/\n"
  have hall : opensComment (lineAt (lineTexts content) 0) = false ∧
      Spans (writtenLines content) 1 3 ∧
      Blanked 2 2 (writtenLines content) (writtenLines blanked) ∧
      classnameOf blanked = some "io" ∧ classnameOf content = some "old" := by
    decide +kernel
  obtain ⟨hbefore, hspans, hblanked, hio, hold⟩ := hall
  have hsame := (hclaim content blanked 1 3 (not_isInside_one hbefore) hspans hblanked).1
  rw [hio, hold] at hsame
  exact absurd hsame (by decide)

end Source

end Roster
