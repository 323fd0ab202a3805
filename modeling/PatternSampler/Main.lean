import PatternSampler.CommandLine

set_option autoImplicit false

/-!
# The program

Reads arguments and standard input, draws random bytes from the operating system, and writes the
answers. What the answers are is settled in `PatternSampler.CommandLine`.

## Main definitions

* `drawSample` — one sample from the randomness of the operating system.
* `runOptions` — the samples of a run.

## Implementation notes

How many words a sample takes shows only when it is drawn. A buffer of random words is extended
until the sample fits in it; words that have been looked at once stay as they are.
-/

namespace PatternSampler

/-- The outcome of one sample, drawn from the given random bytes and, where these do not suffice,
from further ones. -/
partial def drawFrom (pattern : String) (bytes : ByteArray) : IO Outcome := do
  let outcome := generate (.ofBytes bytes) 0 pattern
  if 4 * outcome.position ≤ bytes.size then return outcome
  let more ← IO.getRandomBytes (USize.ofNat (max bytes.size 4096))
  drawFrom pattern (bytes ++ more)

/-- The outcome of one sample from the randomness of the operating system. -/
def drawSample (pattern : String) : IO Outcome := do
  drawFrom pattern (← IO.getRandomBytes 4096)

/-- The bytes of an input up to the end of its first line, behind the given ones. -/
partial def readLineBytes (input : IO.FS.Stream) (bytes : ByteArray) : IO ByteArray := do
  let next ← input.read 1
  let bytes := bytes ++ next
  if next.isEmpty || next == "\n".toUTF8 then return bytes
  readLineBytes input bytes

/-- The first line of the standard input, if it is text. -/
def readPattern : IO (Option String) := do
  let bytes ← readLineBytes (← IO.getStdin) .empty
  return (String.fromUTF8? bytes).map firstLine

/-- The report of a standard input that is not text. -/
def unreadableInput : String :=
  "passgen: failed to read pattern from stdin: stream did not contain valid UTF-8"

/-- Writes the samples of a run, and yields its status. -/
def runOptions (options : Options) : IO UInt32 := do
  let given ← match options.pattern with
    | some pattern => pure (some pattern)
    | none => readPattern
  let some pattern := given
    | do
      IO.eprintln unreadableInput
      return 1
  for _ in [0 : options.count.getD 1] do
    match answer options pattern (← drawSample pattern) with
    | .ok line => IO.print line
    | .error report =>
      IO.eprint report
      return 1
  return 0

end PatternSampler

open PatternSampler in
/-- Answers the arguments of the program. -/
def main (arguments : List String) : IO UInt32 := do
  match Request.ofArguments arguments with
  | .error e =>
    IO.eprintln ("error: " ++ e.message ++ "\n\nUsage: passgen [OPTIONS] [PATTERN]")
    return 2
  | .ok .help =>
    IO.print helpText
    return 0
  | .ok .version =>
    IO.print versionLine
    return 0
  | .ok (.run options) => runOptions options
