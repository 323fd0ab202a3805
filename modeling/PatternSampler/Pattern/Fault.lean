import PatternSampler.Pattern.Error
import PatternSampler.Text.Balanced
import PatternSampler.Transform

set_option autoImplicit false

/-!
# What can be wrong with a pattern

Each mistake that a pattern can contain is a `Cause`, with what its message names. A `Fault` is a
cause at a place. The kind and the wording of the error follow from the cause alone.

## Main definitions

* `Cause` — the mistakes, with `Cause.kind` and `Cause.message`.
* `Fault` — a mistake at a place.
* `Fault.toError` — the error that reports it.
-/

namespace PatternSampler

/-- Arguments that have to be the same for every random choice. -/
inductive LiteralArgument
  | separator
  | year
  | wordCount
  | width
  | fill
deriving DecidableEq, Repr, Inhabited

/-- The word for an argument. -/
def LiteralArgument.word : LiteralArgument → String
  | separator => "separator"
  | year => "year"
  | wordCount => "word count"
  | width => "width"
  | fill => "fill"

/-- A mistake in a pattern. -/
inductive Cause
  | tooLong
  | unmatched (closer : Char)
  | loneBackslash
  | incompleteEscape
  | invalidEscape (digits : String)
  | invalidReference (digits : String)
  | unterminatedBracket
  | nestedBracket
  | forbiddenInBracket (c : Char)
  | unknownSet (name : String)
  | setInRange
  | reversedRange
  | unterminatedRepeat
  | invalidNumber (text : String)
  | emptyRepeat
  | reversedRepeat (low high : Nat)
  | repeatTooLarge
  | nothingToRepeat
  | unterminatedGroup
  | unbalanced (imbalance : Imbalance)
  | missingName
  | missingParenthesis
  | unterminatedCall
  | unknownFunction (name : String)
  | expandArguments
  | byteArguments
  | dateArguments
  | justifyArguments
  | randomArgument (argument : LiteralArgument)
  | invalidWordCount (count : Nat)
  | reversedYears (first last : Int)
  | yearsOutOfRange (first last : Int)
  | fillLength
  | widthTooLarge
  | dateOutOfRange
  | transform (t : Transform) (cause : TransformError)
deriving DecidableEq, Repr, Inhabited

namespace Cause

/-- The kind of a mistake. -/
def kind : Cause → ErrorKind
  | unmatched _ | loneBackslash | incompleteEscape | unterminatedBracket | nestedBracket
  | forbiddenInBracket _ | unterminatedRepeat | nothingToRepeat | unterminatedGroup
  | unbalanced _ | missingName | missingParenthesis | unterminatedCall => .malformed
  | expandArguments | byteArguments | dateArguments | justifyArguments => .arguments
  | dateOutOfRange => .unknown
  | _ => .value

/-- Only a date behind the calendar is a mistake of an unknown kind. -/
@[simp] theorem kind_eq_unknown_iff {cause : Cause} :
    cause.kind = .unknown ↔ cause = .dateOutOfRange := by
  constructor
  · intro h
    cases cause <;> first | rfl | cases h
  · rintro rfl
    rfl

/-- A text in single quotes. -/
def quoted (text : String) : String := "'" ++ text ++ "'"

/-- The innermost message about a mistake. -/
def message : Cause → String
  | tooLong => "pattern is too long"
  | unmatched closer => "unmatched " ++ quoted closer.toString
  | loneBackslash => "pattern ends with a lone backslash"
  | incompleteEscape => "incomplete unicode escape"
  | invalidEscape digits => "invalid unicode escape " ++ quoted digits
  | invalidReference digits => "invalid group id " ++ quoted digits
  | unterminatedBracket => "unterminated character class"
  | nestedBracket => "nested '[' in character class"
  | forbiddenInBracket c => quoted c.toString ++ " is not allowed in a character class"
  | unknownSet name => "invalid character class \"" ++ name ++ "\""
  | setInRange => "a class escape cannot end a range"
  | reversedRange => "invalid character range"
  | unterminatedRepeat => "unterminated repeat"
  | invalidNumber text => "invalid number " ++ quoted text
  | emptyRepeat => "repeat count must be at least 1"
  | reversedRepeat low high =>
    "invalid repeat range \x7b" ++ low.repr ++ "," ++ high.repr ++ "\x7d"
  | repeatTooLarge => "repeat count too large"
  | nothingToRepeat => "nothing to repeat"
  | unterminatedGroup => "unterminated group"
  | unbalanced imbalance => imbalance.message
  | missingName => "missing function name"
  | missingParenthesis => "expected '(' after function name"
  | unterminatedCall => "unterminated function call"
  | unknownFunction name => "invalid function " ++ quoted name
  | expandArguments => "expand expects 2 arguments"
  | byteArguments => "byte takes no arguments"
  | dateArguments => "date expects a start year, an end year and an optional separator"
  | justifyArguments => "expected a pattern, a width and an optional fill character"
  | randomArgument argument => argument.word ++ " must not be random"
  | invalidWordCount count => "invalid word count " ++ count.repr
  | reversedYears first last =>
    "end year " ++ decimal last ++ " is before start year " ++ decimal first
  | yearsOutOfRange first last =>
    "year out of range " ++ decimal first ++ ".." ++ decimal last
  | fillLength => "fill must be a single character"
  | widthTooLarge => "width too large"
  | dateOutOfRange => "date out of range"
  | transform _ cause => cause.message

/-- The messages about a mistake, outermost first. A transform that fails is named. -/
def messages : Cause → List String
  | transform t cause => [t.name, cause.message]
  | cause => [cause.message]

end Cause

/-- A mistake at a place. A mistake of the pattern as a whole has no place, and neither has a date
behind the calendar. -/
structure Fault where
  cause : Cause
  place : Option Span
deriving DecidableEq, Repr, Inhabited

namespace Fault

/-- A mistake in the `length` characters from `start` on. -/
def located (cause : Cause) (start length : Nat) : Fault := ⟨cause, some ⟨start, length⟩⟩

/-- A mistake in a span. -/
def within (cause : Cause) (span : Span) : Fault := ⟨cause, some span⟩

/-- The error that reports a mistake. -/
def toError (fault : Fault) : PatternError where
  kind := fault.cause.kind
  messages := fault.cause.messages
  position := fault.place.map Span.start
  markLength := match fault.place with
    | some span => max span.length 1
    | none => 1

end Fault

end PatternSampler
