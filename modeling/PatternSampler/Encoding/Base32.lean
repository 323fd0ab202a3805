set_option autoImplicit false

/-!
# Base 32

Bytes are written in blocks of five. A block has forty bits, which take eight letters of five bits
each. The last block may have fewer bytes: it is filled up with zero bytes, and only the letters
that hold bits of its own bytes are written. The padded form writes equals signs for the others.

## Main definitions

* `Base32.block` — the bits of at most five bytes in one word.
* `Base32.group` — five bits of a block.
* `Base32.letters` — the letters of a row of bytes.
* `Base32.encode` — the text of a row of bytes.
-/

namespace PatternSampler.Base32

/-- The letters and digits of base 32, in the order of their values. -/
def alphabet : List Char := "ABCDEFGHIJKLMNOPQRSTUVWXYZ234567".toList

/-- The letter of a value below 32. -/
def letter (value : UInt64) : Char := alphabet.getD value.toNat '='

/-- The bits of a word with a byte behind them. -/
def push (bits : UInt64) (byte : UInt8) : UInt64 := bits <<< 8 ||| byte.toUInt64

/-- The bits of at most five bytes in the lowest forty bits of a word, filled up with zeros. -/
def block (bytes : List UInt8) : UInt64 :=
  (bytes ++ List.replicate (5 - bytes.length) 0).foldl push 0

/-- The `i`-th group of five bits of a block, the most significant one first. -/
def group (bits : UInt64) (i : Nat) : UInt64 := bits >>> UInt64.ofNat (35 - 5 * i) &&& 0x1f

/-- How many letters the bits of `n` bytes take. -/
def used (n : Nat) : Nat := (8 * n + 4) / 5

/-- The letters of at most five bytes. -/
def blockLetters (padded : Bool) (bytes : List UInt8) : List Char :=
  (List.range 8).flatMap fun i =>
    if i < used bytes.length then [letter (group (block bytes) i)]
    else if padded then ['='] else []

/-- The letters of a row of bytes, block by block. -/
def letters (padded : Bool) : List UInt8 → List Char
  | a :: b :: c :: d :: e :: rest =>
    blockLetters padded [a, b, c, d, e] ++ letters padded rest
  | [] => []
  | last => blockLetters padded last

/-- The text of a row of bytes, with or without padding. -/
def encode (padded : Bool) (bytes : List UInt8) : String :=
  String.ofList (letters padded bytes)

end PatternSampler.Base32
