import PatternSampler.Digest.Sha256
import PatternSampler.Mnemonic.WordList

set_option autoImplicit false

/-!
# Mnemonics

A mnemonic spells 16 to 32 bytes in words of eleven bits each. For every four bytes one bit of
their digest is added at the end, so that a slip of one word is likely to show.

## Main definitions

* `Mnemonic.isLength` — the numbers of bytes that have a mnemonic.
* `Mnemonic.encode?` — the words of a row of bytes.
-/

namespace PatternSampler.Mnemonic

/-- A mnemonic stands for 128 to 256 bits, a multiple of 32. -/
def isLength (bytes : Nat) : Bool := bytes % 4 == 0 && 16 ≤ bytes && bytes ≤ 32

/-- The bits of a row of bytes and of its checksum. -/
def checkedBits (bytes : List UInt8) : List Bool :=
  Bits.ofBytes bytes ++ (Bits.ofBytes (Sha256.digest bytes)).take (bytes.length / 4)

/-- The word of a value of eleven bits. -/
def word (value : Nat) : String := wordList.getD value ""

/-- The words of a row of bytes, if its length has a mnemonic. -/
def encode? (bytes : List UInt8) : Option (List String) :=
  if isLength bytes.length then some ((Bits.groups 11 (checkedBits bytes)).map word) else none

end PatternSampler.Mnemonic
