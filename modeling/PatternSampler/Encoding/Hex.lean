import PatternSampler.Numeric.Limbs
import PatternSampler.Text.Escape

set_option autoImplicit false

/-!
# Hexadecimal text

Bytes as pairs of hexadecimal digits, the high half first.

## Main definitions

* `utf8Bytes` — the bytes of a text.
* `Hex.encode` — the digits of a row of bytes.
* `Hex.decode` — the bytes that a text spells, or the reason why it spells none.
* `Hex.decimal` — the number that a text spells, in decimal.

## Implementation notes

`Hex.decode` works on the UTF-8 bytes of its input, so that a character outside ASCII is reported
as its first byte. `Hex.decimal` reads the characters themselves and takes any number of digits. It
keeps their number in limbs.
-/

namespace PatternSampler

/-- The UTF-8 bytes of a text. -/
def utf8Bytes (text : String) : List UInt8 := text.toUTF8.data.toList

/-- Why a text is not hexadecimal. -/
inductive HexError
  /-- The last byte lacks its second digit. -/
  | oddLength
  /-- A character that is no digit, and where it stands. -/
  | invalidCharacter (c : Char) (position : Nat)
deriving DecidableEq, Repr, Inhabited

/-- The error in words. -/
def HexError.message : HexError → String
  | oddLength => "Odd number of digits"
  | invalidCharacter c position =>
    "Invalid character " ++ quoteCharacter c ++ " at position " ++ position.repr

namespace Hex

/-- The two digits of a byte. -/
def encodeByte (case : LetterCase) (byte : UInt8) : List Char :=
  [hexDigit case (byte.toNat / 16), hexDigit case (byte.toNat % 16)]

/-- The digits of a row of bytes. -/
def encode (case : LetterCase) (bytes : List UInt8) : String :=
  String.ofList (bytes.flatMap (encodeByte case))

/-- The value of the digit at `position`. -/
def digitAt (position : Nat) (c : Char) : Except HexError Nat :=
  match hexDigit? c with
  | some value => .ok value
  | none => .error (.invalidCharacter c position)

/-- Bytes from pairs of characters, the first of which stands at `position`. -/
def decodePairs : Nat → List Char → Except HexError (List UInt8)
  | position, high :: low :: rest => do
    let h ← digitAt position high
    let l ← digitAt (position + 1) low
    let bytes ← decodePairs (position + 2) rest
    return UInt8.ofNat (16 * h + l) :: bytes
  | _, _ => .ok []

/-- The bytes that a text spells. An odd number of bytes is reported before anything else. -/
def decode (text : String) : Except HexError (List UInt8) :=
  let bytes := utf8Bytes text
  if bytes.length % 2 = 1 then .error .oddLength
  else decodePairs 0 (bytes.map fun byte => Char.ofNat byte.toNat)

/-- The limbs of the number that a row of characters spells, the first of which stands at
`position`, behind the number of `limbs`. -/
def limbsFrom (limbs : List Nat) : Nat → List Char → Except HexError (List Nat)
  | _, [] => .ok limbs
  | position, c :: rest => do
    let digit ← digitAt position c
    limbsFrom (Limbs.push digit limbs) (position + 1) rest

/-- The number that a text spells, in decimal. -/
def decimal (text : String) : Except HexError String :=
  (limbsFrom [0] 0 text.toList).map Limbs.render

end Hex

end PatternSampler
