set_option autoImplicit false

/-!
# Numerals

Reading and writing of numbers in text. Digits are the ASCII digits, and a numeral has at least
one of them.

## Main definitions

* `ofDigits` — the value of a row of digits in a base.
* `decimal?`, `unsigned?`, `signed?`, `codePoint?` — the four kinds of numeral that patterns and
  arguments use. They differ in the signs and the range they admit.
* `hexDigit` — one digit in either letter case.
* `zeroPadded` — a number in at least a given width.
-/

namespace PatternSampler

/-- Letter case of hexadecimal digits. -/
inductive LetterCase
  | lower
  | upper
deriving DecidableEq, Repr, Inhabited

/-! ## Digits -/

/-- The value of a decimal digit. -/
def decimalDigit? (c : Char) : Option Nat :=
  if '0' ≤ c ∧ c ≤ '9' then some (c.toNat - 48) else none

/-- The value of a hexadecimal digit in either case. -/
def hexDigit? (c : Char) : Option Nat :=
  if '0' ≤ c ∧ c ≤ '9' then some (c.toNat - 48)
  else if 'a' ≤ c ∧ c ≤ 'f' then some (c.toNat - 87)
  else if 'A' ≤ c ∧ c ≤ 'F' then some (c.toNat - 55)
  else none

/-- The hexadecimal digit of a value below sixteen. -/
def hexDigit (case : LetterCase) (n : Nat) : Char :=
  if n < 10 then Char.ofNat (48 + n)
  else match case with
    | .lower => Char.ofNat (87 + n)
    | .upper => Char.ofNat (55 + n)

/-- The value of a row of digits, the most significant one first. -/
def ofDigits (base : Nat) (digits : List Nat) : Nat :=
  digits.foldl (fun value digit => value * base + digit) 0

/-- The values of the characters of a nonempty row of digits. -/
def digits? (digit? : Char → Option Nat) (text : List Char) : Option (List Nat) :=
  if text.isEmpty then none else text.mapM digit?

/-! ## Reading -/

/-- A decimal numeral without a sign. -/
def decimal? (text : List Char) : Option Nat :=
  (digits? decimalDigit? text).map (ofDigits 10)

/-- A text without one leading plus sign. -/
def dropPlus : List Char → List Char
  | '+' :: text => text
  | text => text

/-- The number of values of 64 bits. Sizes and counts stay below it. -/
def sizeLimit : Nat := 0x10000000000000000

/-- A decimal numeral below `sizeLimit`, with or without a plus sign. -/
def unsigned? (text : List Char) : Option Nat :=
  (decimal? (dropPlus text)).filter (· < sizeLimit)

/-- A decimal numeral with or without a sign, in the range of 32 bits. -/
def signed? : List Char → Option Int
  | '-' :: text => ((decimal? text).filter (· ≤ 0x80000000)).map fun n => -(n : Int)
  | text => ((decimal? (dropPlus text)).filter (· < 0x80000000)).map fun n => (n : Int)

/-- The character whose code point is a hexadecimal numeral, with or without a plus sign. -/
def codePoint? (text : List Char) : Option Char :=
  match (digits? hexDigit? (dropPlus text)).map (ofDigits 16) with
  | some n => if n.isValidChar then some (Char.ofNat n) else none
  | none => none

/-! ## Writing -/

/-- A number in decimal, filled up with zeros to `width` digits. -/
def zeroPaddedNat (width n : Nat) : String :=
  let digits := n.repr.toList
  String.ofList (List.replicate (width - digits.length) '0' ++ digits)

/-- A number in decimal, filled up with zeros to `width` characters. A minus sign comes in front
of the zeros and takes up one of the characters. -/
def zeroPadded (width : Nat) : Int → String
  | .ofNat n => zeroPaddedNat width n
  | .negSucc n => "-" ++ zeroPaddedNat (width - 1) (n + 1)

/-- A number in decimal, without zeros in front. -/
def decimal : Int → String
  | .ofNat n => n.repr
  | .negSucc n => "-" ++ (n + 1).repr

end PatternSampler
