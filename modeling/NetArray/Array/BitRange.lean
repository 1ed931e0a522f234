import NetArray.Netlist.Builder

/-!
# Ranges of bits

A `BitRange` is some consecutive bits of a netlist value that nobody has cut out yet. Arrays hold their
elements as such ranges, so that reading and moving elements costs no cell.

* `BitRange.sub` takes a part of a range, `BitRange.bit` a single bit.
* `BitRange.coalesce` merges neighbouring ranges that continue one another.
* `BitRange.materialize` makes a value of a range, with a slice unless it is the whole source.
-/

namespace NetArray

/-- The bits `[low, low + width)` of a value. -/
structure BitRange where
  source : Value
  low : Nat
  width : Nat
  deriving DecidableEq, Repr

namespace BitRange

/-- All bits of a value. -/
def whole (source : Value) : BitRange :=
  ⟨source, 0, source.width⟩

/-- The bits `[low, low + width)` of a range. To ask for more than it has is a fault. -/
def sub (range : BitRange) (low width : Nat) : Checked BitRange :=
  if low + width < wordBound ∧ low + width ≤ range.width then do
    return ⟨range.source, ← word (range.low + low), width⟩
  else
    .error (.subRange low width range.width)

/-- Bit number `index` of a range. -/
def bit (range : BitRange) (index : Nat) : Checked BitRange :=
  range.sub index 1

/-- Whether the range is all of its source. -/
def coversSource (range : BitRange) : Bool :=
  range.low = 0 && range.width = range.source.width

/-- Whether `next` begins right above this range, in the same signal. -/
def isFollowedBy (range next : BitRange) : Checked Bool :=
  if range.source.signal = next.source.signal then do
    -- the end of a range is a bit position too and has to fit one
    return (← word (range.low + range.width)) = next.low
  else
    .ok false

/-- The range with the bits of `next` on top. -/
def extend (range next : BitRange) : Checked BitRange := do
  return { range with width := ← word (range.width + next.width) }

/-- Merges ranges that continue one another, in a list whose first range is `run`. -/
def coalesceFrom (run : BitRange) : List BitRange → Checked (List BitRange)
  | [] => .ok [run]
  | next :: ranges => do
    if ← run.isFollowedBy next then
      coalesceFrom (← run.extend next) ranges
    else
      return run :: (← coalesceFrom next ranges)

/-- Merges neighbours in a list of ranges that continue one another. The least significant range comes
first, before and after. -/
def coalesce : List BitRange → Checked (List BitRange)
  | [] => .ok []
  | run :: ranges => coalesceFrom run ranges

/-- Makes a value of a range. -/
def materialize (range : BitRange) : Build Value :=
  if range.coversSource then
    pure range.source
  else
    Build.slice range.source range.low range.width

/-- How a range is written: `%4[8+:16]`. -/
def text (range : BitRange) : String :=
  s!"{range.source.signal.text}[{range.low}+:{range.width}]"

end BitRange

end NetArray
