import NetArray.Fault

/-!
# Refusals of index arithmetic

An index is refused when it leaves its axis or when there are too few or too many of them; a shape is
refused when a view cannot take it. Each cause keeps the numbers that its text shows.

* `IndexError` and `ShapeError` are the causes, `IndexError.message` and `ShapeError.message` their
  texts.
* `listText` writes a shape, a permutation or a coordinate as `[4, 8]`.
-/

namespace NetArray

/-- Numbers in brackets, separated by a comma and a blank: `[4, 8]`, and `[]` for none. -/
def listText (numbers : List Nat) : String :=
  "[" ++ ", ".intercalate (numbers.map toString) ++ "]"

/-- Why a coordinate, a selection or a store offset is refused. -/
inductive IndexError where
  /-- A coordinate has another number of indices than the shape has axes. -/
  | coordinateLength (expected given : Nat)
  | outOfAxis (index axis size : Nat)
  | tooManySelectors (given rank : Nat)
  | zeroStep
  | noAxis (axis rank : Nat)
  | outOfStore (offset size : Nat)
  /-- The bits of a wide value, one per element, do not fit behind an offset. -/
  | bitsPastEnd (width offset size : Nat)
  deriving DecidableEq, Repr

def IndexError.message : IndexError → String
  | .coordinateLength expected given => s!"expected {expected} indices, got {given}"
  | .outOfAxis index axis size => s!"index {index} out of range for axis {axis} of size {size}"
  | .tooManySelectors given rank => s!"{given} indices given for an array of rank {rank}"
  | .zeroStep => "slice step cannot be zero"
  | .noAxis axis rank => s!"axis {axis} out of range for rank {rank}"
  | .outOfStore offset size => s!"offset {offset} out of range for {size} elements"
  | .bitsPastEnd width offset size =>
    s!"bit-blasting {width} bits at offset {offset} runs past {size} elements"

/-- Why a shape or a permutation of axes is refused. -/
inductive ShapeError where
  | permutationLength (permutation : List Nat) (rank : Nat)
  /-- A list of axes repeats one or names one that is not there. -/
  | notPermutation (permutation : List Nat) (rank : Nat)
  /-- A new shape holds another number of elements, or has no axis. -/
  | reshape (oldShape : List Nat) (oldCount : Nat) (newShape : List Nat) (newCount : Nat)
  | emptyAxis (shape : List Nat)
  | elementCount (valueWidth count elementWidth : Nat) (shape : List Nat)
  | nothingToLower
  deriving DecidableEq, Repr

def ShapeError.message : ShapeError → String
  | .permutationLength permutation rank =>
    s!"permutation {listText permutation} does not match rank {rank}"
  | .notPermutation permutation rank =>
    s!"{listText permutation} is not a permutation of 0..{rank}"
  | .reshape oldShape oldCount newShape newCount =>
    s!"cannot reshape {listText oldShape} ({oldCount} elements) into {listText newShape} " ++
      s!"({newCount} elements)"
  | .emptyAxis shape =>
    s!"array shape {listText shape} must have at least one axis and no empty axes"
  | .elementCount valueWidth count elementWidth shape =>
    s!"a {valueWidth}-bit value holds {count} i{elementWidth} elements, not {listText shape}"
  | .nothingToLower => "cannot lower an empty array"

end NetArray
