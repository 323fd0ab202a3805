import PatternSampler.CharSet.Basic

set_option autoImplicit false

/-!
# Named character sets

The sets that bracket expressions can call by name.

## Main definitions

* `CharSet.named` — the names with the ranges of their sets, in alphabetical order.
* `CharSet.ofName?` — the set of a name.
* `CharSet.digits`, `CharSet.wordCharacters` — the sets of the escapes for digits and for words.
-/

namespace PatternSampler.CharSet

/-- The ranges between some pairs of characters. -/
def rangesOf (bounds : List (Char × Char)) : List CharRange :=
  bounds.filterMap fun (low, high) => CharRange.ofChars? low high

/-- The names of the named sets, and the first and last characters of their ranges. -/
def named : List (String × List (Char × Char)) :=
  [
    ("alnum", [('A', 'Z'), ('a', 'z'), ('0', '9')]),
    ("alpha", [('A', 'Z'), ('a', 'z')]),
    ("ascii", [('\x00', '\x7f')]),
    ("base32", [('A', 'Z'), ('2', '7')]),
    ("base32hex", [('0', '9'), ('A', 'V')]),
    ("base64", [('A', 'Z'), ('a', 'z'), ('0', '9'), ('+', '+'), ('/', '/')]),
    ("base64url", [('A', 'Z'), ('a', 'z'), ('0', '9'), ('_', '_'), ('-', '-')]),
    ("blank", [(' ', ' '), ('\t', '\t')]),
    ("cntrl", [('\x00', '\x1f'), ('\x7f', '\x7f')]),
    ("digit", [('0', '9')]),
    ("graph", [('!', '~')]),
    ("lower", [('a', 'z')]),
    ("print", [(' ', '~')]),
    ("punct", [('!', '/'), (':', '@'), ('[', '\x60'), ('\x7b', '~')]),
    ("space",
      [(' ', ' '), ('\t', '\t'), ('\n', '\n'), ('\r', '\r'), ('\x0b', '\x0b'), ('\x0c', '\x0c')]),
    ("upper", [('A', 'Z')]),
    ("word", [('A', 'Z'), ('a', 'z'), ('0', '9'), ('_', '_')]),
    ("xdigit", [('0', '9'), ('a', 'f'), ('A', 'F')])
  ]

/-- The ranges of the set of a name. -/
def rangesOfName? (name : String) : Option (List CharRange) := (named.lookup name).map rangesOf

/-- The set of a name. -/
def ofName? (name : String) : Option CharSet := (rangesOfName? name).map ofRanges

/-- The ranges of the decimal digits. -/
def digitRanges : List CharRange := rangesOf [('0', '9')]

/-- The ranges of the letters, the digits and the underscore. -/
def wordRanges : List CharRange := rangesOf [('A', 'Z'), ('a', 'z'), ('0', '9'), ('_', '_')]

/-- The decimal digits. -/
def digits : CharSet := ofRanges digitRanges

/-- The characters of words: letters, digits and the underscore. -/
def wordCharacters : CharSet := ofRanges wordRanges

end PatternSampler.CharSet
