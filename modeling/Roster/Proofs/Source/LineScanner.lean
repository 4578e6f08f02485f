import Mathlib.Data.List.Basic
import Roster.Source.Declarations

/-!
# Scanning a file line by line

Declarations are read in two passes: the first one leaves the comments out, and the second one reads
the lines that remain. Both go once over the lines, and what they carry along is little: whether the
next line is inside a block comment, and the suite so far. A `Scanner` is these two together.

`Scanner.read` is what one line makes of a scanner and `Scanner.declarationOn` what it declares.
`Scanner.scan` are the declarations of the lines from a scanner on. Lines in two parts are scanned
one part after the other (`Scanner.scan_append`), and each line declares what it declares to the
scanner that has read the lines before it (`Scanner.scan_eq_filterMap`).

The lines of a file are taken between its line feeds (`lineTexts`). That leaves carriage returns at
their ends, which trimming drops, and an empty line behind the last line feed, which declares
nothing (`declarationsOf_eq_scan`). Declarations stand in the order of the lines, at most one on
each (`pairwise_line_declarationsOf`).
-/

set_option autoImplicit false
set_option relaxedAutoImplicit false

namespace Roster

/-! ### White space at the end of a line -/

namespace Text

theorem trimEnd_concat_of_blank {character : Char} (hblank : isBlank character = true)
    (line : List Char) : trimEnd (line ++ [character]) = trimEnd line := by
  rw [trimEnd, trimEnd, List.reverse_concat, List.dropWhile_cons, if_pos hblank]

/-- Trimming drops a carriage return at the end. -/
theorem trim_dropReturn (line : List Char) : trim (dropReturn line) = trim line := by
  rw [dropReturn]
  split
  · next hreturn =>
    obtain ⟨front, rfl⟩ := List.getLast?_eq_some_iff.mp hreturn
    have hblank : isBlank '\r' = true := by decide
    rw [List.dropLast_concat, trim, trim, trimStart, trimStart, List.dropWhile_append]
    split
    · next hempty =>
      rw [List.isEmpty_iff.mp hempty, List.dropWhile_cons, if_pos hblank, List.dropWhile_nil]
    · rw [trimEnd_concat_of_blank hblank]
  · rfl

end Text

namespace Source

/-! ### Numbers of lines -/

/-- Numbered lines have the numbers from the first one on. -/
theorem map_number_numberLines (number : Nat) (texts : List (List Char)) :
    (numberLines number texts).map NumberedLine.number = List.range' number texts.length := by
  induction texts generalizing number with
  | nil => rfl
  | cons text rest ih => rw [numberLines, List.map_cons, ih, List.length_cons, List.range'_succ]

/-- The lines outside comments are some of the lines. -/
theorem outsideComments_sublist (inside : Bool) (lines : List NumberedLine) :
    (outsideComments inside lines).Sublist lines := by
  induction lines generalizing inside with
  | nil => exact .slnil
  | cons line rest ih =>
    rw [outsideComments]
    split
    · exact (ih _).cons line
    · exact (ih _).cons_cons line

/-- A declaration on a line stands there. -/
theorem location_of_declarationOn {file : Path} {classname : String} {suite : List Char}
    {line : NumberedLine} {declaration : Declaration}
    (hfound : declarationOn file classname suite line = some declaration) :
    declaration.location = ⟨file, line.number, String.ofList line.text⟩ := by
  rw [declarationOn] at hfound
  split at hfound
  · cases hfound
    rfl
  · split at hfound
    · cases hfound
      rfl
    · cases hfound

/-- Declarations stand on some of the lines that they are read from, one on each. -/
theorem map_line_declarationsFrom_sublist (file : Path) (classname : String) (suite : List Char)
    (lines : List NumberedLine) :
    ((declarationsFrom file classname suite lines).map fun declaration ↦
      declaration.location.line).Sublist (lines.map NumberedLine.number) := by
  induction lines generalizing suite with
  | nil => exact .slnil
  | cons line rest ih =>
    rw [declarationsFrom, List.map_append, List.map_cons]
    cases hfound : declarationOn file classname (suiteFrom suite line.text) line with
    | none => exact (ih _).cons line.number
    | some declaration =>
      rw [Option.toList_some, List.map_singleton, location_of_declarationOn hfound]
      exact (ih _).cons_cons line.number

/-- The declarations of a file stand in the order of its lines, one on a line at most. -/
theorem pairwise_line_declarationsOf (content : String) (file : Path) (classname : String) :
    ((declarationsOf content file classname).map fun declaration ↦
      declaration.location.line).Pairwise (· < ·) := by
  have hcode := (outsideComments_sublist false
    (numberLines 1 ((Text.lines content.toList).map withoutComment))).map NumberedLine.number
  rw [map_number_numberLines] at hcode
  have hordered : (List.range' 1
      ((Text.lines content.toList).map withoutComment).length).Pairwise (· < ·) :=
    List.pairwise_lt_range'
  exact hordered.sublist
    ((map_line_declarationsFrom_sublist file classname [] (codeLines content)).trans hcode)

/-- The text of a line, counted from zero. Behind the last line there is no text. -/
def lineAt (texts : List (List Char)) (index : Nat) : List Char :=
  texts.getD index []

/-! ### Scanners -/

/-- What is carried along from line to line. -/
@[ext]
structure Scanner where
  /-- The next line is inside a block comment. -/
  inside : Bool
  /-- The suite so far. -/
  suite : List Char
deriving DecidableEq

namespace Scanner

/-- The scanner at the beginning of a file. -/
def start : Scanner := ⟨false, []⟩

/-- The scanner passes over a line: it is inside a block comment, or the line opens one. -/
def skips (scanner : Scanner) (text : List Char) : Bool :=
  scanner.inside || opensComment text

/-- The scanner behind a line. -/
def read (scanner : Scanner) (text : List Char) : Scanner :=
  if scanner.skips text then ⟨!closesComment text, scanner.suite⟩
  else ⟨false, suiteFrom scanner.suite text⟩

/-- The scanner behind some lines. -/
def readAll (scanner : Scanner) (texts : List (List Char)) : Scanner :=
  texts.foldl read scanner

/-- The declaration that a line makes to a scanner. -/
def declarationOn (file : Path) (classname : String) (scanner : Scanner) (line : NumberedLine) :
    Option Declaration :=
  if scanner.skips line.text then none
  else Source.declarationOn file classname (suiteFrom scanner.suite line.text) line

/-- The declarations on some lines, where the first one has a number. -/
def scan (file : Path) (classname : String) (scanner : Scanner) (number : Nat)
    (texts : List (List Char)) : List Declaration :=
  declarationsFrom file classname scanner.suite
    (outsideComments scanner.inside (numberLines number texts))

variable {file : Path} {classname : String} {scanner : Scanner} {number : Nat}
  {text : List Char} {texts : List (List Char)} {declaration : Declaration}

theorem scan_nil : scan file classname scanner number [] = [] := rfl

/-- Lines are scanned one after the other. -/
theorem scan_cons :
    scan file classname scanner number (text :: texts) =
      (scanner.declarationOn file classname ⟨number, text⟩).toList ++
        scan file classname (scanner.read text) (number + 1) texts := by
  rw [scan, numberLines, outsideComments, declarationOn, read]
  cases hskips : scanner.skips text with
  | true =>
    rw [skips] at hskips
    rw [hskips]
    rfl
  | false =>
    rw [skips] at hskips
    rw [hskips]
    rfl

/-- Lines in two parts are scanned part by part. -/
theorem scan_append (front back : List (List Char)) :
    scan file classname scanner number (front ++ back) =
      scan file classname scanner number front ++
        scan file classname (scanner.readAll front) (number + front.length) back := by
  induction front generalizing scanner number with
  | nil => rfl
  | cons text rest ih =>
    rw [List.cons_append, scan_cons, ih, scan_cons, List.append_assoc, List.length_cons,
      Nat.add_right_comm, Nat.add_assoc number rest.length 1]
    rfl

/-- The declarations on some lines are those that each line makes to the scanner before it. -/
theorem scan_eq_filterMap :
    scan file classname scanner number texts =
      (List.range texts.length).filterMap fun index ↦
        (scanner.readAll (texts.take index)).declarationOn file classname
          ⟨number + index, lineAt texts index⟩ := by
  induction texts generalizing scanner number with
  | nil => rfl
  | cons first rest ih =>
    have hrest : (fun index ↦ ((scanner.read first).readAll (rest.take index)).declarationOn file
          classname ⟨number + 1 + index, lineAt rest index⟩) =
        (fun index ↦ (scanner.readAll ((first :: rest).take index)).declarationOn file classname
          ⟨number + index, lineAt (first :: rest) index⟩) ∘ Nat.succ := by
      funext index
      rw [Nat.add_right_comm, Nat.add_assoc]
      rfl
    rw [scan_cons, ih, hrest, List.length_cons, List.range_succ_eq_map, List.filterMap_cons,
      List.filterMap_map]
    have hhead : (scanner.readAll ((first :: rest).take 0)).declarationOn file classname
        ⟨number + 0, lineAt (first :: rest) 0⟩ = scanner.declarationOn file classname
          ⟨number, first⟩ := rfl
    rw [hhead]
    cases scanner.declarationOn file classname ⟨number, first⟩ with
    | none => rfl
    | some declaration => rfl

end Scanner

/-! ### The lines of a file -/

/-- The lines of a file as they are written. -/
def writtenLines (content : String) : List (List Char) :=
  Text.splitOn '\n' content.toList

/-- The lines of a file, each trimmed and without its line comment. -/
def lineTexts (content : String) : List (List Char) :=
  (writtenLines content).map withoutComment

/-- What stands between line feeds are lines, except for an empty text at the end. -/
theorem map_trim_pieces {pieces : List (List Char)} (hsome : pieces ≠ []) :
    pieces.map Text.trim = (Text.linesOfPieces pieces).map Text.trim ∨
      pieces.map Text.trim = (Text.linesOfPieces pieces).map Text.trim ++ [[]] := by
  induction pieces with
  | nil => exact absurd rfl hsome
  | cons piece rest ih =>
    cases rest with
    | nil =>
      rw [Text.linesOfPieces]
      split
      · next hempty =>
        rw [List.isEmpty_iff.mp hempty]
        exact .inr rfl
      · exact .inl rfl
    | cons next others =>
      have hlines : (Text.linesOfPieces (piece :: next :: others)).map Text.trim =
          Text.trim piece :: (Text.linesOfPieces (next :: others)).map Text.trim := by
        rw [Text.linesOfPieces, List.map_cons, Text.trim_dropReturn]
        exact List.cons_ne_nil next others
      rw [List.map_cons, hlines, List.cons_append]
      exact (ih (List.cons_ne_nil next others)).imp (congrArg _) (congrArg _)

theorem map_withoutComment_pieces {pieces : List (List Char)} (hsome : pieces ≠ []) :
    pieces.map withoutComment = (Text.linesOfPieces pieces).map withoutComment ∨
      pieces.map withoutComment = (Text.linesOfPieces pieces).map withoutComment ++ [[]] := by
  have hcut (lines : List (List Char)) :
      lines.map withoutComment = (lines.map Text.trim).map lineComment.withoutFirst :=
    List.map_map.symm
  rw [hcut, hcut]
  rcases map_trim_pieces hsome with hsame | hmore
  · exact .inl (congrArg _ hsame)
  · rw [hmore, List.map_append]
    exact .inr rfl

/-- An empty line declares nothing. -/
theorem Scanner.declarationOn_empty (file : Path) (classname : String) (scanner : Scanner)
    (number : Nat) : scanner.declarationOn file classname ⟨number, []⟩ = none := by
  have hliteral : literalCase.first [] = none := by decide
  have hany : anyCase.matchesLine [] = false := by decide
  rw [declarationOn, Source.declarationOn, hliteral, hany]
  split <;> rfl

/-- An empty line behind others adds nothing. -/
theorem Scanner.scan_concat_empty (file : Path) (classname : String) (scanner : Scanner)
    (number : Nat) (texts : List (List Char)) :
    scanner.scan file classname number (texts ++ [[]]) =
      scanner.scan file classname number texts := by
  rw [scan_append, scan_cons, declarationOn_empty, Option.toList_none, scan_nil, List.append_nil,
    List.append_nil]

/-- The declarations of a file are found by scanning its lines. -/
theorem declarationsOf_eq_scan (content : String) (file : Path) (classname : String) :
    declarationsOf content file classname =
      Scanner.start.scan file classname 1 (lineTexts content) := by
  have hlines : declarationsOf content file classname =
      Scanner.start.scan file classname 1 ((Text.lines content.toList).map withoutComment) := rfl
  rcases map_withoutComment_pieces (Text.splitOn_ne_nil '\n' content.toList) with hsame | hmore
  · rw [hlines, lineTexts, writtenLines, hsame]
    rfl
  · rw [hlines, lineTexts, writtenLines, hmore, Scanner.scan_concat_empty]
    rfl

end Source

end Roster
