/-!
# Tables of code points

A character class of a standard is a list of closed ranges of code points. `inRanges` says whether a
character is in the class that such a list describes.
-/

set_option autoImplicit false
set_option relaxedAutoImplicit false

namespace Roster.Text

/-- Whether the code point of a character lies in one of the closed ranges. -/
def inRanges (ranges : List (Nat × Nat)) (character : Char) : Bool :=
  ranges.any fun range ↦ range.1 ≤ character.toNat && character.toNat ≤ range.2

end Roster.Text
