set_option autoImplicit false

/-!
# Kana in Latin letters

Hepburn-style romanization. A text is first cut into units: a syllable of one or two kana, the
small tsu that doubles the consonant behind it, the mark that lengthens the vowel in front of it,
or any other character, which stays as it is. The units are then spelled one after the other.

## Main definitions

* `Kana.digraphs`, `Kana.syllables` — the spellings.
* `Kana.segment` — the units of a text, two kana before one.
* `Kana.spell` — the letters of a row of units.
* `romanize` — both, after katakana has been replaced by hiragana.
-/

namespace PatternSampler

namespace Kana

/-- The small tsu. -/
def smallTsu : Char := 'っ'

/-- The mark behind a long vowel. -/
def longMark : Char := 'ー'

/-- Syllables of two kana, grouped by the first one. -/
def digraphs : List ((Char × Char) × String) :=
  [
    (('き', 'ゃ'), "kya"), (('き', 'ゅ'), "kyu"), (('き', 'ょ'), "kyo"),
    (('ぎ', 'ゃ'), "gya"), (('ぎ', 'ゅ'), "gyu"), (('ぎ', 'ょ'), "gyo"),
    (('し', 'ゃ'), "sha"), (('し', 'ゅ'), "shu"), (('し', 'ょ'), "sho"), (('し', 'ぇ'), "she"),
    (('じ', 'ゃ'), "ja"), (('じ', 'ゅ'), "ju"), (('じ', 'ょ'), "jo"), (('じ', 'ぇ'), "je"),
    (('ち', 'ゃ'), "cha"), (('ち', 'ゅ'), "chu"), (('ち', 'ょ'), "cho"), (('ち', 'ぇ'), "che"),
    (('ぢ', 'ゃ'), "ja"), (('ぢ', 'ゅ'), "ju"), (('ぢ', 'ょ'), "jo"),
    (('て', 'ぃ'), "ti"), (('で', 'ぃ'), "di"),
    (('に', 'ゃ'), "nya"), (('に', 'ゅ'), "nyu"), (('に', 'ょ'), "nyo"),
    (('ひ', 'ゃ'), "hya"), (('ひ', 'ゅ'), "hyu"), (('ひ', 'ょ'), "hyo"),
    (('び', 'ゃ'), "bya"), (('び', 'ゅ'), "byu"), (('び', 'ょ'), "byo"),
    (('ぴ', 'ゃ'), "pya"), (('ぴ', 'ゅ'), "pyu"), (('ぴ', 'ょ'), "pyo"),
    (('ふ', 'ぁ'), "fa"), (('ふ', 'ぃ'), "fi"), (('ふ', 'ぇ'), "fe"), (('ふ', 'ぉ'), "fo"),
    (('み', 'ゃ'), "mya"), (('み', 'ゅ'), "myu"), (('み', 'ょ'), "myo"),
    (('り', 'ゃ'), "rya"), (('り', 'ゅ'), "ryu"), (('り', 'ょ'), "ryo"),
    (('う', 'ぃ'), "wi"), (('う', 'ぇ'), "we"),
    (('ゔ', 'ぁ'), "va"), (('ゔ', 'ぃ'), "vi"), (('ゔ', 'ぇ'), "ve"), (('ゔ', 'ぉ'), "vo")
  ]

/-- Syllables of one kana. -/
def syllables : List (Char × String) :=
  [
    ('あ', "a"), ('い', "i"), ('う', "u"), ('え', "e"), ('お', "o"),
    ('か', "ka"), ('き', "ki"), ('く', "ku"), ('け', "ke"), ('こ', "ko"),
    ('が', "ga"), ('ぎ', "gi"), ('ぐ', "gu"), ('げ', "ge"), ('ご', "go"),
    ('さ', "sa"), ('し', "shi"), ('す', "su"), ('せ', "se"), ('そ', "so"),
    ('ざ', "za"), ('じ', "ji"), ('ず', "zu"), ('ぜ', "ze"), ('ぞ', "zo"),
    ('た', "ta"), ('ち', "chi"), ('つ', "tsu"), ('て', "te"), ('と', "to"),
    ('だ', "da"), ('ぢ', "ji"), ('づ', "zu"), ('で', "de"), ('ど', "do"),
    ('な', "na"), ('に', "ni"), ('ぬ', "nu"), ('ね', "ne"), ('の', "no"),
    ('は', "ha"), ('ひ', "hi"), ('ふ', "fu"), ('へ', "he"), ('ほ', "ho"),
    ('ば', "ba"), ('び', "bi"), ('ぶ', "bu"), ('べ', "be"), ('ぼ', "bo"),
    ('ぱ', "pa"), ('ぴ', "pi"), ('ぷ', "pu"), ('ぺ', "pe"), ('ぽ', "po"),
    ('ま', "ma"), ('み', "mi"), ('む', "mu"), ('め', "me"), ('も', "mo"),
    ('や', "ya"), ('ゆ', "yu"), ('よ', "yo"),
    ('ら', "ra"), ('り', "ri"), ('る', "ru"), ('れ', "re"), ('ろ', "ro"),
    ('わ', "wa"), ('ゐ', "wi"), ('ゑ', "we"), ('を', "wo"), ('ん', "n"),
    ('ぁ', "a"), ('ぃ', "i"), ('ぅ', "u"), ('ぇ', "e"), ('ぉ', "o"),
    ('ゃ', "ya"), ('ゅ', "yu"), ('ょ', "yo"), ('ゎ', "wa"),
    ('ゔ', "vu")
  ]

/-- Katakana has the order of hiragana, `0x60` positions later. -/
def toHiragana (c : Char) : Char :=
  if 0x30a1 ≤ c.toNat ∧ c.toNat ≤ 0x30f6 then Char.ofNat (c.toNat - 0x60) else c

/-- The letters of the five vowels. -/
def isVowel (c : Char) : Bool := c == 'a' || c == 'i' || c == 'u' || c == 'e' || c == 'o'

/-! ## Units -/

/-- What a text of kana consists of. -/
inductive Piece
  /-- One or two kana with a spelling of their own. -/
  | syllable (letters : List Char)
  /-- The small tsu. -/
  | doubling
  /-- The mark behind a long vowel. -/
  | lengthening
  /-- Any other character. -/
  | other (c : Char)
deriving DecidableEq, Repr, Inhabited

/-- The unit of a single character. -/
def single (c : Char) : Piece :=
  if c = smallTsu then .doubling
  else if c = longMark then .lengthening
  else match syllables.lookup c with
    | some letters => .syllable letters.toList
    | none => .other c

/-- The units of a text. Where two kana form a syllable they are taken together. -/
def segment : List Char → List Piece
  | [] => []
  | [c] => [single c]
  | c :: d :: rest =>
    match digraphs.lookup (c, d) with
    | some letters => .syllable letters.toList :: segment rest
    | none => single c :: segment (d :: rest)

/-! ## Spelling -/

/-- The letters that a small tsu adds in front of the units behind it: the first consonant of the
next syllable once more, and a `t` in front of `ch`. -/
def doubled : List Piece → List Char
  | .syllable (first :: _) :: _ =>
    if first = 'c' then ['t'] else if isVowel first then [] else [first]
  | _ => []

/-- The letters that a lengthening mark adds behind the letter `last`. -/
def lengthened (last : Option Char) : List Char :=
  match last with
  | some c => if isVowel c then [c] else []
  | none => []

/-- The letters of a row of units behind the letter `last`. -/
def spell (last : Option Char) : List Piece → List Char
  | [] => []
  | piece :: rest =>
    let letters := match piece with
      | .syllable letters => letters
      | .doubling => doubled rest
      | .lengthening => lengthened last
      | .other c => [c]
    letters ++ spell (letters.getLast?.or last) rest

end Kana

/-- A text with its kana in Latin letters. -/
def romanize (text : String) : String :=
  String.ofList (Kana.spell none (Kana.segment (text.toList.map Kana.toHiragana)))

end PatternSampler
