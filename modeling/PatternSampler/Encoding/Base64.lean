import PatternSampler.Encoding.Bits

set_option autoImplicit false

/-!
# Base 64

One letter is written for each group of six bits. Equals signs fill the text up to a multiple of
four letters, the number that whole groups of three bytes take.

## Main definitions

* `Base64.standard`, `Base64.urlSafe` — the alphabets.
* `Base64.encode` — the text of a row of bytes.
-/

namespace PatternSampler.Base64

/-- The letters, digits and signs of base 64, in the order of their values. -/
def standard : List Char :=
  "ABCDEFGHIJKLMNOPQRSTUVWXYZabcdefghijklmnopqrstuvwxyz0123456789+/".toList

/-- The alphabet with signs that need no escaping in an address. -/
def urlSafe : List Char :=
  "ABCDEFGHIJKLMNOPQRSTUVWXYZabcdefghijklmnopqrstuvwxyz0123456789-_".toList

/-- The text of a row of bytes, filled up with equals signs. -/
def encode (alphabet : List Char) (bytes : List UInt8) : String :=
  let letters := (Bits.groups 6 (Bits.ofBytes bytes)).map fun value => alphabet.getD value '='
  String.ofList (letters ++ List.replicate ((4 - letters.length % 4) % 4) '=')

end PatternSampler.Base64
