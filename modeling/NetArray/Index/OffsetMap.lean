import NetArray.Index.RowMajor

/-!
# Offset maps

A view of an array holds no elements. It turns its own row-major offsets into offsets of the
array that it was taken from, one `OffsetMap` per step.

* `OffsetMap.apply` sends an offset of the view to an offset of its parent.
* `transposeMap`, `reshapeMap`, `rollMap` and `rollAxisMap` make the map of each way to derive a view;
  the gather table of a selection comes from `NetArray.Index.Selection`. `visitsOnce` is how a
  permutation of the axes is told from other lists.
-/

namespace NetArray

/-- One step from the offsets of a view to the offsets of its parent. -/
inductive OffsetMap where
  | identity
  /-- Axis `i` of the view, of the shape `shape`, is axis `permutation[i]` of the parent. -/
  | permute (shape parentShape permutation : List Nat)
  /-- All `total` elements move up by `shift`, around the end. -/
  | roll (total shift : Nat)
  /-- The elements move up by `shift` along one axis, around its end. -/
  | rollAxis (shape : List Nat) (axis shift : Nat)
  /-- A table with one parent offset for each view offset. -/
  | gather (table : Array Nat)
  deriving DecidableEq, Repr

namespace OffsetMap

/-- Whether the map is the step that changes nothing. -/
def isIdentity : OffsetMap → Bool
  | .identity => true
  | _ => false

/-- Where an index on an axis of length `size` was before all indices moved up by `shift`. -/
def unshift (size shift index : Nat) : Checked Nat := do
  -- one lap is added first, so that the difference is not negative
  let lifted ← sized (index + size)
  if lifted < shift then
    .error .overflow
  else if size = 0 then
    .error .divisionByZero
  else
    .ok ((lifted - shift) % size)

/-- The coordinate whose entry `permutation[i]` is entry `i` of `coordinate`. -/
def scatter (permutation coordinate : List Nat) : List Nat :=
  (List.range permutation.length).map fun axis => coordinate.getD (permutation.idxOf axis) 0

/-- Sends an offset of the view to an offset of its parent. -/
def apply : OffsetMap → Nat → Checked Nat
  | .identity, offset => .ok offset
  | .permute shape parentShape permutation, offset => do
    let coordinate ← delinearize shape offset
    offsetOf parentShape (scatter permutation coordinate)
  | .roll total shift, offset => unshift total shift offset
  | .rollAxis shape axis shift, offset => do
    let coordinate ← delinearize shape offset
    let index ← unshift (← itemAt shape axis) shift (← itemAt coordinate axis)
    offsetOf shape (coordinate.set axis index)
  | .gather table, offset =>
    match table[offset]? with
    | some parent => .ok parent
    | none => .error .outOfBounds

end OffsetMap

/-- Whether axes can be visited one after the other, none of them twice. The table has one entry for each axis there
is, which says whether it was seen. -/
def visitsOnce (seen : List Bool) : List Nat → Bool
  | [] => true
  | axis :: axes =>
    match seen[axis]? with
    -- an axis that is not there, or was there already, ends the search
    | none => false
    | some true => false
    | some false => visitsOnce (seen.set axis true) axes

/-- The shape of `shape` with its axes permuted, and the map of that view. -/
def transposeMap (shape permutation : List Nat) : Attempt ShapeError (List Nat × OffsetMap) :=
  if permutation.length ≠ shape.length then
    .error (.refused (.permutationLength permutation shape.length))
  else if visitsOnce (List.replicate shape.length false) permutation then
    let newShape := permutation.map fun axis => shape.getD axis 0
    .ok (newShape, .permute newShape shape permutation)
  else
    .error (.refused (.notPermutation permutation shape.length))

/-- The map of a view with the same elements in the same order and another shape. -/
def reshapeMap (oldShape newShape : List Nat) : Attempt ShapeError OffsetMap := do
  let oldCount ← elementCount oldShape
  let newCount ← elementCount newShape
  if newShape.isEmpty ∨ oldCount ≠ newCount then
    .error (.refused (.reshape oldShape oldCount newShape newCount))
  else
    .ok .identity

/-- A shift by `amount`, which may be negative, as a shift below `length`. The length is taken as a
signed machine number. -/
def normalShift (amount : Int) (length : Nat) : Checked Nat :=
  let signed := Int.bmod length sizeBound
  if length = 0 then
    .ok 0
  else if signed = -1 ∧ amount = -signedBound then
    -- the one remainder of signed machine numbers that has no answer
    .error .overflow
  else
    .ok (amount % signed).toNat

/-- The map of a view in which the element at `i` has moved to `i + amount`, around the end. -/
def rollMap (shape : List Nat) (amount : Int) : Checked OffsetMap := do
  let total ← elementCount shape
  -- a shift that moves nothing is no step
  match ← normalShift amount total with
  | 0 => return .identity
  | shift => return .roll total shift

/-- The map of a view in which the elements have moved by `amount` along one axis. -/
def rollAxisMap (shape : List Nat) (axis : Nat) (amount : Int) : Attempt IndexError OffsetMap :=
  match shape[axis]? with
  | none => .error (.refused (.noAxis axis shape.length))
  | some size => do
    match ← normalShift amount size with
    | 0 => return .identity
    | shift => return .rollAxis shape axis shift

end NetArray
