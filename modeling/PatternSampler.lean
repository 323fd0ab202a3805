import PatternSampler.Main
import PatternSampler.Proofs.Reading.Spelling
import PatternSampler.Proofs.Reading.TokenSpelling
import PatternSampler.Proofs.Reading.Parts
import PatternSampler.Proofs.Numeric.Calendar
import PatternSampler.Proofs.Numbering.Scan
import PatternSampler.Proofs.Numbering.Frame
import PatternSampler.Proofs.Numbering.Walk
import PatternSampler.Proofs.Numbering.Agreement
import PatternSampler.Proofs.Faults.Possible
import PatternSampler.Proofs.Faults.Marks
import PatternSampler.Proofs.Faults.Inside
import PatternSampler.Proofs.Faults.Sound
import PatternSampler.Proofs.Run.Choices
import PatternSampler.Proofs.Faults.Complete
import PatternSampler.Proofs.Language.Grammar
import PatternSampler.Proofs.Language.Cutting
import PatternSampler.Proofs.Language.Tree
import PatternSampler.Proofs.CharSet.Members
import PatternSampler.Proofs.Language.Outputs
import PatternSampler.Proofs.Reading.Counts
import PatternSampler.Proofs.Run.Agrees
import PatternSampler.Proofs.Entropy.Exact
import PatternSampler.Proofs.Entropy.Metered
import PatternSampler.Proofs.Entropy.Paid
import PatternSampler.Proofs.Entropy.Measure
import PatternSampler.Proofs.Entropy.Fixed
import PatternSampler.Proofs.Reading.Shift
import PatternSampler.Proofs.Run.Shift
import PatternSampler.Proofs.Reading.Append
import PatternSampler.Proofs.Run.Append
import PatternSampler.Proofs.Reading.Enclosed
import PatternSampler.Proofs.Run.Enclosed
import PatternSampler.Proofs.Faults.Messages
import PatternSampler.Proofs.Guarded.Agreement
import PatternSampler.Proofs.Run.Mirrors
import PatternSampler.Proofs.Run.Unrolled
import PatternSampler.Proofs.Run.Repeatable
import PatternSampler.Proofs.Guarded.Shadows
import PatternSampler.Proofs.Guarded.AnyContext
import PatternSampler.Proofs.Guarded.Unrolled
import PatternSampler.Proofs.History.Traced
import PatternSampler.Proofs.History.Latest
import PatternSampler.Proofs.History.Realizations
import PatternSampler.Proofs.Counting.PrefixFree
import PatternSampler.Proofs.Counting.Paths
import PatternSampler.Proofs.Counting.Drawn
import PatternSampler.Proofs.Counting.Legible
import PatternSampler.Proofs.Counting.Outputs
import PatternSampler.Proofs.Text.Balance
import PatternSampler.Proofs.Text.Split
import PatternSampler.Proofs.Text.Closing
import PatternSampler.Proofs.Reading.Bounds
import PatternSampler.Proofs.Reading.Quoted
import PatternSampler.Proofs.Run.Quoted
import PatternSampler.Proofs.Run.Chained
import PatternSampler.Proofs.CharSet.Written
import PatternSampler.Proofs.Run.Bracketed
import PatternSampler.Proofs.Random.Uniform
import PatternSampler.Proofs.Random.Radices
import PatternSampler.Proofs.Random.Shuffle
import PatternSampler.Proofs.Numeric.Numerals
import PatternSampler.Proofs.Numeric.Limbs
import PatternSampler.Proofs.Numeric.Dates
import PatternSampler.Proofs.Run.Dates
import PatternSampler.Proofs.Encoding.Base32
import PatternSampler.Proofs.Text.Literals
import PatternSampler.Proofs.Text.Kana
import PatternSampler.Proofs.Descent.Nodes
import PatternSampler.Proofs.Descent.Congruence
import PatternSampler.Proofs.Descent.Steps
import PatternSampler.Proofs.Descent.Depth
