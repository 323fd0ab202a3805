import PatternSampler.Numeric.FixedPlaces
import PatternSampler.Pattern.Generate
import PatternSampler.Verbosity

set_option autoImplicit false

/-!
# The command line

What the arguments of the program ask for and what it answers, apart from reading and writing.

## Main definitions

* `Options` — the settings of a run.
* `Request.ofArguments` — what a row of arguments asks for.
* `UsageError` — why it asks for nothing.
* `firstLine` — the pattern in the standard input.
* `answer` — the line for one sample, or the report of a mistake.
* `Transcript`, `respond` — everything that the program writes, and its status.

## Implementation notes

Arguments are read from left to right. The first mistake, or the first request for help or for the
version, settles the answer.
-/

namespace PatternSampler

/-- The settings of a run. -/
structure Options where
  pattern : Option String
  count : Option Nat
  showEntropy : Bool
  verbosity : Nat
deriving DecidableEq, Repr, Inhabited

/-- Why arguments have no meaning. -/
inductive UsageError
  /-- An argument behind the pattern. -/
  | unexpected (argument : String)
  /-- A flag that does not exist, or one with a value that takes none. -/
  | unknownFlag (flag : String)
  /-- A flag that may be given only once. -/
  | repeated (flag : String)
  /-- A flag without its value. -/
  | missingValue (flag : String)
  /-- A value that is no number of samples. -/
  | invalidCount (value : String)
deriving DecidableEq, Repr, Inhabited

/-- The error in words. -/
def UsageError.message : UsageError → String
  | unexpected argument => "unexpected argument '" ++ argument ++ "'"
  | unknownFlag flag => "unknown flag '" ++ flag ++ "'"
  | repeated flag => "the flag '" ++ flag ++ "' cannot be used more than once"
  | missingValue flag => "the flag '" ++ flag ++ "' needs a value"
  | invalidCount value => "'" ++ value ++ "' is not a number of samples"

/-- What arguments ask for. -/
inductive Request
  | help
  | version
  | run (options : Options)
deriving DecidableEq, Repr, Inhabited

/-! ## Arguments -/

/-- What has been read of the arguments. -/
structure ArgumentScan where
  options : Options
  /-- The next argument is the number of samples. -/
  awaitsCount : Bool
  /-- No more flags are expected. -/
  flagsEnded : Bool
deriving DecidableEq, Repr, Inhabited

/-- What comes behind a flag. -/
inductive FlagStep
  /-- There may be more arguments. -/
  | more (scan : ArgumentScan)
  /-- The answer is settled. -/
  | settled (request : Request)
deriving DecidableEq, Repr, Inhabited

namespace ArgumentScan

/-- Nothing has been read. -/
def start : ArgumentScan := ⟨⟨none, none, false, 0⟩, false, false⟩

/-- Takes the number of samples. -/
def setCount (value : String) (s : ArgumentScan) : Except UsageError ArgumentScan :=
  match s.options.count, unsigned? value.toList with
  | some _, _ => .error (.repeated "--count")
  | none, none => .error (.invalidCount value)
  | none, some count =>
    .ok { s with options := { s.options with count := some count }, awaitsCount := false }

/-- Takes the flag for entropies. -/
def setEntropy (s : ArgumentScan) : Except UsageError ArgumentScan :=
  if s.options.showEntropy then .error (.repeated "--entropy")
  else .ok { s with options := { s.options with showEntropy := true } }

/-- Takes a flag for more reports. -/
def raiseVerbosity (s : ArgumentScan) : ArgumentScan :=
  { s with options := { s.options with verbosity := s.options.verbosity + 1 } }

/-- Takes the pattern. -/
def setPattern (argument : String) (s : ArgumentScan) : Except UsageError ArgumentScan :=
  match s.options.pattern with
  | some _ => .error (.unexpected argument)
  | none => .ok { s with options := { s.options with pattern := some argument } }

/-- Takes a flag of several letters, given without its dashes. -/
def long (flag : String) (s : ArgumentScan) : Except UsageError FlagStep :=
  let name := flag.toList.takeWhile (· != '=')
  match String.ofList name, flag.toList.drop name.length with
  | "help", [] => .ok (.settled .help)
  | "version", [] => .ok (.settled .version)
  | "entropy", [] => s.setEntropy.map .more
  | "verbose", [] => .ok (.more s.raiseVerbosity)
  | "count", [] => .ok (.more { s with awaitsCount := true })
  | "count", _ :: value => (s.setCount (String.ofList value)).map .more
  | _, _ => .error (.unknownFlag flag)

/-- Takes flags of one letter each. The value of the last one may follow it directly, or behind an
equals sign. -/
def short : List Char → ArgumentScan → Except UsageError FlagStep
  | [], s => .ok (.more s)
  | 'h' :: _, _ => .ok (.settled .help)
  | 'V' :: _, _ => .ok (.settled .version)
  | 'e' :: rest, s =>
    match s.setEntropy with
    | .ok s => short rest s
    | .error e => .error e
  | 'v' :: rest, s => short rest s.raiseVerbosity
  | 'n' :: [], s => .ok (.more { s with awaitsCount := true })
  | 'n' :: '=' :: value, s => (s.setCount (String.ofList value)).map .more
  | 'n' :: value, s => (s.setCount (String.ofList value)).map .more
  | c :: _, _ => .error (.unknownFlag c.toString)

/-- Takes an argument. -/
def step (argument : String) (s : ArgumentScan) : Except UsageError FlagStep :=
  match argument.toList with
  | '-' :: flag =>
    if s.awaitsCount then .error (.missingValue "--count")
    else if s.flagsEnded ∨ flag = [] then (s.setPattern argument).map .more
    else
      match flag with
      | '-' :: [] => .ok (.more { s with flagsEnded := true })
      | '-' :: name => s.long (String.ofList name)
      | letters => short letters s
  | _ => (if s.awaitsCount then s.setCount argument else s.setPattern argument).map .more

end ArgumentScan

/-- What the rest of the arguments asks for. -/
def requestFrom (s : ArgumentScan) : List String → Except UsageError Request
  | [] => if s.awaitsCount then .error (.missingValue "--count") else .ok (.run s.options)
  | argument :: rest =>
    match s.step argument with
    | .ok (.more s) => requestFrom s rest
    | .ok (.settled request) => .ok request
    | .error e => .error e

/-- What a row of arguments asks for. -/
def Request.ofArguments (arguments : List String) : Except UsageError Request :=
  requestFrom .start arguments

/-! ## Answers -/

/-- The name and the version of the program. -/
def versionLine : String := "passgen 0.1.0\n"

/-- How to call the program. -/
def helpText : String :=
  String.join
    [
      "Generate text from a pattern\n\n",
      "Usage: passgen [OPTIONS] [PATTERN]\n\n",
      "Arguments:\n",
      "  [PATTERN]  Pattern to generate from (first line of stdin when omitted)\n\n",
      "Options:\n",
      "  -n, --count <COUNT>  Number of samples to generate [default: 1]\n",
      "  -e, --entropy        Print the entropy in bits after each sample\n",
      "  -v, --verbose...     Increase log verbosity (repeatable)\n",
      "  -h, --help           Print help\n",
      "  -V, --version        Print version\n"
    ]

/-- The first line of a text, without the characters that end it. -/
def firstLine (input : String) : String :=
  let line := input.toList.takeWhile (· != '\n')
  String.ofList (line.reverse.dropWhile (· == '\r')).reverse

/-- The line for a sample, with its entropy if asked for. -/
def sampleLine (options : Options) (s : Sample) : String :=
  if options.showEntropy then s.text ++ "\t" ++ fixedPlaces 2 s.entropy.bits ++ "\n"
  else s.text ++ "\n"

/-- The line for a sample, or the report of a mistake in the pattern. -/
def answer (options : Options) (pattern : String) (outcome : Outcome) : Except String String :=
  match outcome.result with
  | .ok s => .ok (sampleLine options s)
  | .error fault => .error (fault.toError.render pattern ++ "\n")

/-- Everything that the program writes, and its status. -/
structure Transcript where
  status : Nat
  output : String
  report : String
deriving DecidableEq, Repr, Inhabited

/-- The answers for `count` samples behind the given output, up to the first mistake. -/
def samplesFrom (stream : WordStream) (options : Options) (pattern : String) :
    (count position : Nat) → (output : String) → Transcript
  | 0, _, output => ⟨0, output, ""⟩
  | count + 1, position, output =>
    let outcome := generate stream position pattern
    match answer options pattern outcome with
    | .ok line => samplesFrom stream options pattern count outcome.position (output ++ line)
    | .error report => ⟨1, output, report⟩

/-- What the program writes for its arguments and its standard input. -/
def respond (stream : WordStream) (arguments : List String) (input : String) :
    Except UsageError Transcript :=
  match Request.ofArguments arguments with
  | .error e => .error e
  | .ok .help => .ok ⟨0, helpText, ""⟩
  | .ok .version => .ok ⟨0, versionLine, ""⟩
  | .ok (.run options) =>
    let pattern := options.pattern.getD (firstLine input)
    .ok (samplesFrom stream options pattern (options.count.getD 1) 0 "")

end PatternSampler
