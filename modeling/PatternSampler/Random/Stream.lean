set_option autoImplicit false

/-!
# Streams of random words

All randomness comes from an endless row of 32-bit words. A draw takes words from a position on
and says where the next draw starts, so a run is a function of the stream and of its starting
position.

## Main definitions

* `WordStream` — the word at each position.
* `WordStream.cycle` — a row of words over and over again.
* `WordStream.splitMix` — the upper halves of the SplitMix64 sequence of a seed.
* `WordStream.ofBytes` — the words of a row of bytes, then zeros.

## Implementation notes

The state of SplitMix64 grows by the same amount with each step. The word at a position is thus a
function of the seed and the position, and no state has to be carried along.
-/

namespace PatternSampler

/-- An endless row of words. -/
def WordStream : Type := Nat → UInt32

namespace WordStream

/-- The given words over and over again; zeros if there are none. -/
def cycle (words : Array UInt32) : WordStream := fun i => words.getD (i % words.size) 0

/-- The finalizer of SplitMix64. -/
def mix (state : UInt64) : UInt64 :=
  let z := (state ^^^ (state >>> 30)) * 0xbf58476d1ce4e5b9
  let z := (z ^^^ (z >>> 27)) * 0x94d049bb133111eb
  z ^^^ (z >>> 31)

/-- The upper halves of the SplitMix64 sequence of a seed. -/
def splitMix (seed : UInt64) : WordStream := fun i =>
  (mix (seed + 0x9e3779b97f4a7c15 * UInt64.ofNat (i + 1)) >>> 32).toUInt32

/-- The words of a row of bytes, four bytes to a word, the lowest byte first, then zeros. -/
def ofBytes (bytes : ByteArray) : WordStream := fun i =>
  let byte (k : Nat) : UInt32 := (bytes.data.getD (4 * i + k) 0).toUInt32
  byte 0 ||| byte 1 <<< 8 ||| byte 2 <<< 16 ||| byte 3 <<< 24

end WordStream

end PatternSampler
