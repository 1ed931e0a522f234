import NetArray.Index.Error

/-!
# Row-major order

The elements of an N-dimensional array are numbered with the last axis fastest. This module counts
them, turns a coordinate into its number and a number into its coordinate. All arithmetic is on
machine-sized counts: a product that outgrows one is a fault, even where a later factor is zero.

* `elementCount` multiplies the dimensions from the first to the last.
* `linearize` gives the offset of a coordinate, `offsetOf` the same for a coordinate that is known to
  lie inside.
* `delinearize` gives the coordinate of an offset.
-/

namespace NetArray

/-- A list of dimensions multiplied from the first to the last, starting from `start`. -/
def productFrom (start : Nat) : List Nat → Checked Nat
  | [] => .ok start
  | dim :: dims => do productFrom (← sized (start * dim)) dims

/-- The number of elements of a shape. -/
def elementCount (shape : List Nat) : Checked Nat :=
  productFrom 1 shape

/-- Appends the digits `coordinate`, of the radices `shape`, to the number `offset`. -/
def offsetFrom (offset : Nat) : List Nat → List Nat → Checked Nat
  | dim :: shape, index :: coordinate => do
    let scaled ← sized (offset * dim)
    offsetFrom (← sized (scaled + index)) shape coordinate
  | _, _ => .ok offset

/-- The row-major offset of a coordinate that lies inside the shape. -/
def offsetOf (shape coordinate : List Nat) : Checked Nat :=
  offsetFrom 0 shape coordinate

/-- Appends digits as `offsetFrom` does and refuses an index that does not lie on its axis; `axis`
numbers the first of them. -/
def linearizeFrom (axis offset : Nat) : List Nat → List Nat → Attempt IndexError Nat
  | dim :: shape, index :: coordinate =>
    if index < dim then do
      let scaled ← sized (offset * dim)
      let next ← sized (scaled + index)
      linearizeFrom (axis + 1) next shape coordinate
    else
      .error (.refused (.outOfAxis index axis dim))
  | _, _ => .ok offset

/-- The row-major offset of a coordinate, refused unless it lies inside the shape. -/
def linearize (shape coordinate : List Nat) : Attempt IndexError Nat :=
  if coordinate.length = shape.length then
    linearizeFrom 0 0 shape coordinate
  else
    .error (.refused (.coordinateLength shape.length coordinate.length))

/-- Splits the digits of the radices `shape` off the low end of a number: the digits, and what is
left of the number. -/
def splitDigits : List Nat → Nat → Checked (List Nat × Nat)
  | [], offset => .ok ([], offset)
  | dim :: shape, offset => do
    let (digits, rest) ← splitDigits shape offset
    if dim = 0 then
      .error .divisionByZero
    else
      .ok (rest % dim :: digits, rest / dim)

/-- The coordinate of a row-major offset. -/
def delinearize (shape : List Nat) (offset : Nat) : Checked (List Nat) := do
  let (coordinate, _) ← splitDigits shape offset
  return coordinate

end NetArray
