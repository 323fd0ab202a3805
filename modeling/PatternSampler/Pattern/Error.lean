set_option autoImplicit false

/-!
# Errors of patterns

An error says what kind of mistake a pattern contains, describes it in a chain of messages, the
outermost first, and usually points at the part of the pattern that is to blame.

## Main definitions

* `ErrorKind` — the four kinds.
* `PatternError` — an error, with `PatternError.prepend` and `PatternError.append` to extend its
  chain.
* `PatternError.message` — the error in one line.
* `PatternError.render` — the error below the pattern, with a ruler under the part at fault.
* `resolvePosition` — the position in a whole text of a position in a nested part.
-/

namespace PatternSampler

/-- What kind of mistake a pattern contains. -/
inductive ErrorKind
  /-- Unfinished or misplaced brackets, escapes and calls. -/
  | malformed
  /-- A call with the wrong number of arguments. -/
  | arguments
  /-- Well-formed but without a meaning. -/
  | value
  /-- Any other mistake. -/
  | unknown
deriving DecidableEq, Repr, Inhabited

/-- The word for a kind. -/
def ErrorKind.word : ErrorKind → String
  | malformed => "syntax"
  | arguments => "argument"
  | value => "value"
  | unknown => "unknown"

/-- An error in a pattern. -/
structure PatternError where
  kind : ErrorKind
  /-- The messages, outermost first. -/
  messages : List String
  /-- Where the part at fault starts, unless the whole pattern is at fault. -/
  position : Option Nat
  /-- How many characters the part at fault has, at least one. -/
  markLength : Nat
deriving DecidableEq, Repr, Inhabited

namespace PatternError

/-- An error of the whole pattern. -/
def whole (kind : ErrorKind) (message : String) : PatternError := ⟨kind, [message], none, 1⟩

/-- An error at a position. Also an empty part is marked with one character. -/
def located (kind : ErrorKind) (position length : Nat) (message : String) : PatternError :=
  ⟨kind, [message], some position, max length 1⟩

/-- Adds a message in front of the chain. -/
def prepend (message : String) (e : PatternError) : PatternError :=
  { e with messages := message :: e.messages }

/-- Adds a message behind the chain. -/
def append (message : String) (e : PatternError) : PatternError :=
  { e with messages := e.messages ++ [message] }

/-- The chain of messages in one text. -/
def description (e : PatternError) : String := ": ".intercalate e.messages

/-- The error in one line. -/
def message (e : PatternError) : String :=
  match e.position with
  | some position =>
    e.kind.word ++ " error near index " ++ position.repr ++ ": " ++ e.description
  | none => e.kind.word ++ " error: " ++ e.description

/-- A character several times over. -/
def row (count : Nat) (c : Char) : String := String.ofList (List.replicate count c)

/-- The error below the pattern, with a ruler under the part at fault. -/
def render (pattern : String) (e : PatternError) : String :=
  let verdict := e.kind.word ++ " error: " ++ e.description
  match e.position with
  | some position => pattern ++ "\n" ++ row position ' ' ++ row e.markLength '^' ++ " " ++ verdict
  | none => verdict

end PatternError

/-- The position in a whole text of a position in a nested part. Each of the offsets says where a
part starts inside the part around it, the outermost first. -/
def resolvePosition (position : Nat) (offsets : List Nat) : Nat :=
  offsets.foldl (fun total offset => total + offset) position

end PatternSampler
