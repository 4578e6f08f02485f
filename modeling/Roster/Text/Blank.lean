/-!
# White space

White space is the Unicode property of that name: the blank, the line ends, the next-line character
and the separators. `trim` drops it at both ends of a text, `trimEnd` at the end only, and `words`
are the maximal runs of other characters.
-/

set_option autoImplicit false
set_option relaxedAutoImplicit false

namespace Roster.Text

/-- A white-space character. -/
def isBlank (character : Char) : Bool :=
  let code := character.toNat
  (9 ≤ code && code ≤ 13) || code == 0x20 || code == 0x85 || code == 0xa0 || code == 0x1680 ||
    (0x2000 ≤ code && code ≤ 0x200a) || code == 0x2028 || code == 0x2029 || code == 0x202f ||
    code == 0x205f || code == 0x3000

/-- The text without the white space at its start. -/
def trimStart (text : List Char) : List Char :=
  text.dropWhile isBlank

/-- The text without the white space at its end. -/
def trimEnd (text : List Char) : List Char :=
  (text.reverse.dropWhile isBlank).reverse

/-- The text without the white space at its two ends. -/
def trim (text : List Char) : List Char :=
  trimEnd (trimStart text)

/-- The runs of characters between white space: `word` holds the run being read. -/
def wordsFrom : List Char → List Char → List (List Char)
  | word, [] => if word.isEmpty then [] else [word]
  | word, character :: rest =>
    if isBlank character then
      if word.isEmpty then wordsFrom [] rest else word :: wordsFrom [] rest
    else wordsFrom (word ++ [character]) rest

/-- The maximal runs of characters that are not white space, in order. -/
def words (text : List Char) : List (List Char) :=
  wordsFrom [] text

/-- A text that starts with a character other than white space keeps it when trimmed. -/
theorem trimStart_cons_of_not_blank {character : Char} (rest : List Char)
    (visible : isBlank character = false) : trimStart (character :: rest) = character :: rest := by
  simp [trimStart, List.dropWhile, visible]

end Roster.Text
