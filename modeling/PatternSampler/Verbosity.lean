set_option autoImplicit false

/-!
# Verbosity

How much the command line reports about its work, by the number of flags that ask for more.

## Main definitions

* `ReportLevel` — the levels.
* `ReportLevel.ofVerbosity` — the level of a number of flags.
-/

namespace PatternSampler

/-- The least important messages that are reported. -/
inductive ReportLevel
  | warnings
  | information
  | details
  | everything
deriving DecidableEq, Repr, Inhabited

namespace ReportLevel

/-- The level of a number of flags. -/
def ofVerbosity : Nat → ReportLevel
  | 0 => warnings
  | 1 => information
  | 2 => details
  | _ => everything

/-- The name of a level. -/
def name : ReportLevel → String
  | warnings => "warn"
  | information => "info"
  | details => "debug"
  | everything => "trace"

end ReportLevel

end PatternSampler
