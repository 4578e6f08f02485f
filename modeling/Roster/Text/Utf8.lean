/-!
# UTF-8

`units` reads bytes from the left and cuts them into units: a character, or a piece that is no
character. Such a piece is the longest start of a character's bytes that stands there, and a single
byte where none stands. A text is well formed when every unit is a character (`decode`); where any
bytes have to be read as text, each piece becomes one replacement character (`decodeLossy`).
-/

set_option autoImplicit false
set_option relaxedAutoImplicit false

namespace Roster.Text.Utf8

/-- A byte that continues a character. -/
def isTail (byte : UInt8) : Bool :=
  0x80 ≤ byte && byte ≤ 0xbf

/-- How many bytes a character has that starts with this byte; none starts with a byte that gives
zero. -/
def width (first : UInt8) : Nat :=
  if first < 0x80 then 1
  else if 0xc2 ≤ first && first ≤ 0xdf then 2
  else if 0xe0 ≤ first && first ≤ 0xef then 3
  else if 0xf0 ≤ first && first ≤ 0xf4 then 4
  else 0

/-- Whether a byte may follow the first byte of a character: the first byte narrows the range so
that no character has two spellings, none is a surrogate and none is beyond the last one. -/
def mayFollow (first second : UInt8) : Bool :=
  if first = 0xe0 then 0xa0 ≤ second && second ≤ 0xbf
  else if first = 0xed then 0x80 ≤ second && second ≤ 0x9f
  else if first = 0xf0 then 0x90 ≤ second && second ≤ 0xbf
  else if first = 0xf4 then 0x80 ≤ second && second ≤ 0x8f
  else isTail second

/-- The six bits that a continuing byte carries. -/
def tailBits (byte : UInt8) : Nat :=
  byte.toNat % 64

/-- The units of a byte sequence: a character, or nothing for a piece that is no character. -/
def units : List UInt8 → List (Option Char)
  | [] => []
  | first :: rest =>
    match width first with
    | 1 => some (Char.ofNat first.toNat) :: units rest
    | 2 =>
      match rest with
      | second :: rest₂ =>
        if mayFollow first second then
          some (Char.ofNat (first.toNat % 32 * 64 + tailBits second)) :: units rest₂
        else none :: units (second :: rest₂)
      | [] => [none]
    | 3 =>
      match rest with
      | second :: rest₂ =>
        if mayFollow first second then
          match rest₂ with
          | third :: rest₃ =>
            if isTail third then
              some (Char.ofNat
                (first.toNat % 16 * 4096 + tailBits second * 64 + tailBits third)) :: units rest₃
            else none :: units (third :: rest₃)
          | [] => [none]
        else none :: units (second :: rest₂)
      | [] => [none]
    | 4 =>
      match rest with
      | second :: rest₂ =>
        if mayFollow first second then
          match rest₂ with
          | third :: rest₃ =>
            if isTail third then
              match rest₃ with
              | fourth :: rest₄ =>
                if isTail fourth then
                  some (Char.ofNat
                    (first.toNat % 8 * 262144 + tailBits second * 4096 + tailBits third * 64 +
                      tailBits fourth)) :: units rest₄
                else none :: units (fourth :: rest₄)
              | [] => [none]
            else none :: units (third :: rest₃)
          | [] => [none]
        else none :: units (second :: rest₂)
      | [] => [none]
    | _ => none :: units rest

/-- All characters, or nothing when some unit is none. -/
def allCharacters : List (Option Char) → Option (List Char)
  | [] => some []
  | none :: _ => none
  | some character :: rest => (allCharacters rest).map (character :: ·)

/-- The text of well-formed bytes. -/
def decode (bytes : List UInt8) : Option String :=
  (allCharacters (units bytes)).map String.ofList

/-- The text of any bytes: a replacement character stands for each piece that is no character. -/
def decodeLossy (bytes : List UInt8) : String :=
  String.ofList ((units bytes).map fun unit ↦ unit.getD '\ufffd')

/-- The bytes of a text. -/
def encode (text : String) : List UInt8 :=
  text.toUTF8.toList

end Roster.Text.Utf8
