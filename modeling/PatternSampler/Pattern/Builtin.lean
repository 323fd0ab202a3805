import PatternSampler.Transform

set_option autoImplicit false

/-!
# Built-in functions

The functions that patterns can call.

## Main definitions

* `Builtin` — the functions.
* `Builtin.named` — their names in alphabetical order, capitals first.
* `Builtin.ofName?` — the function of a name.
* `callName` — the name at the start of a text.
-/

namespace PatternSampler

/-- Where a text stands among its filling. -/
inductive Alignment
  | left
  | right
  | center
deriving DecidableEq, Repr, Inhabited

/-- A function that patterns can call. -/
inductive Builtin
  /-- A transform of the text of the argument. -/
  | encode (t : Transform)
  /-- The characters of the first argument with the second one between them. -/
  | expand
  /-- A random byte in hexadecimal. -/
  | byte (case : LetterCase)
  /-- Random mnemonic words. -/
  | words
  /-- A random day between two years. -/
  | date
  /-- The characters of the argument in random order. -/
  | shuffle
  /-- The argument or nothing. -/
  | optional
  /-- The argument in a field of a given width. -/
  | justify (alignment : Alignment)
deriving DecidableEq, Repr, Inhabited

namespace Builtin

/-- The functions by name. -/
def named : List (String × Builtin) :=
  [
    ("?", optional),
    ("BASE32", encode (.base32 .upper)),
    ("BYTE", byte .upper),
    ("HEX", encode (.hex .upper)),
    ("base32", encode (.base32 .lower)),
    ("base32std", encode .base32Padded),
    ("base64", encode .base64),
    ("base64url", encode .base64Url),
    ("bip39encode", encode .mnemonic),
    ("bip39word", words),
    ("byte", byte .lower),
    ("center", justify .center),
    ("date", date),
    ("escape", encode .escape),
    ("expand", expand),
    ("hex", encode (.hex .lower)),
    ("hex2dec", encode .decimal),
    ("json", encode .json),
    ("ljust", justify .left),
    ("pyhex", encode .byteLiteral),
    ("rjust", justify .right),
    ("romaji", encode .romaji),
    ("shuffle", shuffle),
    ("space", encode (.expand " "))
  ]

/-- The function of a name. -/
def ofName? (name : String) : Option Builtin := named.lookup name

end Builtin

/-- The characters of function names. -/
def isNameCharacter (c : Char) : Bool := c.isAlphanum || c == '_'

/-- The name at the start of a text: a question mark, or a run of name characters. -/
def callName (text : List Char) : List Char :=
  match text with
  | '?' :: _ => ['?']
  | _ => text.takeWhile isNameCharacter

/-- The name of a call is a part of the text. -/
theorem length_callName_le (text : List Char) : (callName text).length ≤ text.length := by
  unfold callName
  split
  · simp
  · exact (List.takeWhile_sublist _).length_le

end PatternSampler
