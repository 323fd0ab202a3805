import PatternSampler.Encoding.Base32
import PatternSampler.Encoding.Base64
import PatternSampler.Encoding.Hex
import PatternSampler.Mnemonic.Encode
import PatternSampler.Text.Kana

set_option autoImplicit false

/-!
# Transforms

A transform is a function of a generated text. It draws nothing, so it leaves the entropy of the
text as it is.

## Main definitions

* `Transform` — the transforms, each with its settings.
* `Transform.name` — the name under which patterns call it.
* `Transform.apply` — the text it makes of another one.
* `TransformError` — why it makes none.

## Implementation notes

The encodings other than hexadecimal expect their input in hexadecimal, so that they can encode
any bytes.
-/

namespace PatternSampler

/-- A function of a generated text. -/
inductive Transform
  /-- The UTF-8 bytes in hexadecimal. -/
  | hex (case : LetterCase)
  /-- The bytes of a hexadecimal text in base 64. -/
  | base64
  /-- The same with the alphabet for addresses. -/
  | base64Url
  /-- The bytes of a hexadecimal text in base 32, without padding. -/
  | base32 (case : LetterCase)
  /-- The bytes of a hexadecimal text in base 32, with padding. -/
  | base32Padded
  /-- The number that a hexadecimal text spells, in decimal. -/
  | decimal
  /-- The bytes of a hexadecimal text as a byte literal. -/
  | byteLiteral
  /-- Escapes for a string literal of printable ASCII. -/
  | escape
  /-- Escapes for a JSON string. -/
  | json
  /-- The characters with a separator between them. -/
  | expand (separator : String)
  /-- The bytes of a hexadecimal text as a mnemonic. -/
  | mnemonic
  /-- Kana in Latin letters. -/
  | romaji
deriving DecidableEq, Repr, Inhabited

/-- Why a transform has no result. -/
inductive TransformError
  /-- No digits where a number was expected. -/
  | emptyHex
  /-- A text that is not hexadecimal. -/
  | hex (cause : HexError)
  /-- A number of bits for which there is no mnemonic. -/
  | mnemonicLength (bits : Nat)
deriving DecidableEq, Repr, Inhabited

/-- The error in words. -/
def TransformError.message : TransformError → String
  | emptyHex => "empty hex string"
  | hex cause => "invalid hex string: " ++ cause.message
  | mnemonicLength bits =>
    "invalid mnemonic entropy: entropy was not between 128-256 bits or not a multiple of 32 bits: "
      ++ bits.repr ++ " bits"

namespace Transform

/-- The name under which patterns call a transform. -/
def name : Transform → String
  | hex .lower => "hex"
  | hex .upper => "HEX"
  | base64 => "base64"
  | base64Url => "base64url"
  | base32 .lower => "base32"
  | base32 .upper => "BASE32"
  | base32Padded => "base32std"
  | decimal => "hex2dec"
  | byteLiteral => "pyhex"
  | escape => "escape"
  | json => "json"
  | expand separator => if separator = " " then "space" else "expand"
  | mnemonic => "bip39encode"
  | romaji => "romaji"

/-- The bytes that a hexadecimal text spells. -/
def bytes (text : String) : Except TransformError (List UInt8) :=
  (Hex.decode text).mapError .hex

/-- A byte in a byte literal. -/
def literalByte (byte : UInt8) : List Char := '\\' :: 'x' :: Hex.encodeByte .lower byte

/-- The text that a transform makes of another one. -/
def apply (t : Transform) (text : String) : Except TransformError String :=
  match t with
  | hex case => .ok (Hex.encode case (utf8Bytes text))
  | base64 => (bytes text).map (Base64.encode Base64.standard)
  | base64Url => (bytes text).map (Base64.encode Base64.urlSafe)
  | base32 .lower => (bytes text).map fun row => (Base32.encode false row).toLower
  | base32 .upper => (bytes text).map (Base32.encode false)
  | base32Padded => (bytes text).map (Base32.encode true)
  | decimal => if text.isEmpty then .error .emptyHex else (Hex.decimal text).mapError .hex
  | byteLiteral =>
    (bytes text).map fun row => "b'" ++ String.ofList (row.flatMap literalByte) ++ "'"
  | escape => .ok (escapeAscii text)
  | json => .ok (escapeJson text)
  | expand separator => .ok (separator.intercalate (text.toList.map Char.toString))
  | mnemonic =>
    match bytes text with
    | .ok row =>
      match Mnemonic.encode? row with
      | some words => .ok (" ".intercalate words)
      | none => .error (.mnemonicLength (8 * row.length))
    | .error e => .error e
  | romaji => .ok (romanize text)

end Transform

end PatternSampler
