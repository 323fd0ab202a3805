import PatternSampler.Text.Numeral
import PatternSampler.Text.Unprintable

set_option autoImplicit false

/-!
# Escaped text

Three ways to write a text so that it can stand between quotes.

## Main definitions

* `escapeAscii` — printable ASCII only, everything else as UTF-16 code units.
* `escapeJson` — the body of a JSON string.
* `quoteCharacter` — one character in single quotes, as reports name it.
-/

namespace PatternSampler

/-- A number below 2^16 in four lowercase hexadecimal digits. -/
def hexQuad (n : Nat) : List Char :=
  [hexDigit .lower (n / 4096 % 16), hexDigit .lower (n / 256 % 16),
    hexDigit .lower (n / 16 % 16), hexDigit .lower (n % 16)]

/-- The UTF-16 code units of a character: itself, or a pair of surrogates. -/
def utf16Units (c : Char) : List Nat :=
  if c.toNat < 0x10000 then [c.toNat]
  else [0xd800 + (c.toNat - 0x10000) / 0x400, 0xdc00 + (c.toNat - 0x10000) % 0x400]

/-! ## ASCII -/

/-- A character in printable ASCII. -/
def escapeAsciiCharacter (c : Char) : List Char :=
  if c = '\\' then ['\\', '\\']
  else if c = '"' then ['\\', '"']
  else if c = '\n' then ['\\', 'n']
  else if c = '\r' then ['\\', 'r']
  else if c = '\t' then ['\\', 't']
  else if ' ' ≤ c ∧ c ≤ '~' then [c]
  else (utf16Units c).flatMap fun unit => '\\' :: 'u' :: hexQuad unit

/-- A text in printable ASCII, to stand between double quotes. -/
def escapeAscii (text : String) : String :=
  String.ofList (text.toList.flatMap escapeAsciiCharacter)

/-! ## JSON -/

/-- A character inside a JSON string. Only quotes, backslashes and controls below the space are
escaped. -/
def escapeJsonCharacter (c : Char) : List Char :=
  if c = '"' then ['\\', '"']
  else if c = '\\' then ['\\', '\\']
  else if c = '\x08' then ['\\', 'b']
  else if c = '\x0c' then ['\\', 'f']
  else if c = '\n' then ['\\', 'n']
  else if c = '\r' then ['\\', 'r']
  else if c = '\t' then ['\\', 't']
  else if c < ' ' then '\\' :: 'u' :: hexQuad c.toNat
  else [c]

/-- The body of the JSON string that stands for a text. -/
def escapeJson (text : String) : String :=
  String.ofList (text.toList.flatMap escapeJsonCharacter)

/-! ## Quoted characters -/

/-- A character between single quotes. The quote, the backslash and the common controls have
escapes of two characters, other characters without a shape are written as their number. -/
def quoteCharacter (c : Char) : String :=
  let body :=
    if c = '\x00' then "\\0"
    else if c = '\t' then "\\t"
    else if c = '\r' then "\\r"
    else if c = '\n' then "\\n"
    else if c = '\'' then "\\'"
    else if c = '\\' then "\\\\"
    else if isUnprintable c then
      "\\u\x7b" ++ String.ofList (Nat.toDigits 16 c.toNat) ++ "\x7d"
    else c.toString
  "'" ++ body ++ "'"

end PatternSampler
