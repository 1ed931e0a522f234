import NetArray.Index.RowMajor

/-!
# Selections

A selection says per axis which indices to keep: one of them, which drops the axis, or a strided range
of them. Axes that it does not name are kept whole.

* `Selector` and `IndexRange` say what is kept along one axis, `AxisChoice.indices` lists it.
* An odometer has a wheel for each axis, which shows the indices that are kept there. `turn` turns it one
  on, the last wheel fastest, and `readOdometer` goes on until all wheels have turned.
* `region` gives the shape of what a selection keeps and its offsets, which it reads off an odometer.
-/

namespace NetArray

/-- Indices from `start` up to but without `stop`, every `step`th. Without a `start` they begin at
zero, without a `stop` they go on to the end of the axis. -/
structure IndexRange where
  start : Option Nat := none
  stop : Option Nat := none
  step : Nat := 1
  deriving DecidableEq, Repr

/-- The indices kept along one axis: `count` of them from `first` on, each `step` above the one before
it. -/
structure AxisChoice where
  first : Nat
  step : Nat
  count : Nat
  /-- Whether the axis stays. -/
  kept : Bool
  deriving DecidableEq, Repr

/-- The indices, ascending. -/
def AxisChoice.indices (choice : AxisChoice) : List Nat :=
  List.range' choice.first choice.count choice.step

/-- What a range keeps of an axis of length `size`; both bounds are clipped to the axis. -/
def IndexRange.choose (range : IndexRange) (size : Nat) : Attempt IndexError AxisChoice :=
  let start := min (range.start.getD 0) size
  let stop := min (range.stop.getD size) size
  if range.step = 0 then
    .error (.refused .zeroStep)
  else do
    let count ← listed ((stop - start + range.step - 1) / range.step)
    return ⟨start, range.step, count, true⟩

/-- What is kept along one axis. -/
inductive Selector where
  /-- A single index; the axis is dropped. -/
  | index (position : Nat)
  /-- A range of indices; the axis is kept. -/
  | range (bounds : IndexRange)
  deriving DecidableEq, Repr

/-- What a selector keeps on axis number `axis`, of length `size`. -/
def Selector.choose (axis size : Nat) : Selector → Attempt IndexError AxisChoice
  | .index position =>
    if position < size then
      .ok ⟨position, 1, 1, false⟩
    else
      .error (.refused (.outOfAxis position axis size))
  | .range bounds => bounds.choose size

/-- What a selection keeps along each axis, the axes numbered from `axis`; an axis that the selection
does not name is kept whole. -/
def choices (axis : Nat) : List Nat → List Selector → Attempt IndexError (List AxisChoice)
  | [], _ => .ok []
  | size :: shape, selectors => do
    -- the range without bounds keeps all of an axis that is not named
    let choice ← (selectors.headD (.range {})).choose axis size
    return choice :: (← choices (axis + 1) shape selectors.tail)

/-- Index number `place` of those kept. -/
def AxisChoice.index (choice : AxisChoice) (place : Nat) : Checked Nat :=
  if place < choice.count then
    .ok (choice.first + choice.step * place)
  else
    .error .outOfBounds

/-- The coordinate that the wheels of an odometer show. -/
def reading : List AxisChoice → (wheels : List Nat) → Checked (List Nat)
  | choice :: axes, wheel :: wheels => do return (← choice.index wheel) :: (← reading axes wheels)
  | _, _ => .ok []

/-- Turns an odometer one on: whether all wheels have come round, and how they stand then. A wheel turns
when all wheels behind it have come round, and has come round itself when it stands at zero again. -/
def turn : List AxisChoice → (wheels : List Nat) → Bool × List Nat
  | choice :: axes, wheel :: wheels =>
    match turn axes wheels with
    | (false, wheels) => (false, wheel :: wheels)
    | (true, wheels) =>
      if wheel + 1 < choice.count then
        (false, (wheel + 1) :: wheels)
      else
        (true, 0 :: wheels)
  | _, _ => (true, [])

/-- What a selection keeps of a shape. -/
structure Region where
  shape : List Nat
  /-- The offsets of the elements, in the row-major order of the region. -/
  offsets : List Nat
  deriving DecidableEq, Repr

/-- Appends the offsets of the coordinates that an odometer shows, from how its wheels stand until all of
them have come round. More than `bound` readings are more than there can be. -/
def readOdometer (shape : List Nat) (axes : List AxisChoice) :
    (bound : Nat) → (wheels : List Nat) → (offsets : Array Nat) → Checked (List Nat)
  | 0, _, _ => throw .endless
  | bound + 1, wheels, offsets => do
    let offset ← offsetOf shape (← reading axes wheels)
    let offsets := offsets.push offset
    match turn axes wheels with
    | (true, _) => return offsets.toList
    | (false, wheels) => readOdometer shape axes bound wheels offsets

/-- The offsets of what is kept of a shape. Where an axis keeps nothing there are none, however many
indices the other axes keep. -/
def keptOffsets (shape : List Nat) (axes : List AxisChoice) : Checked (List Nat) := do
  -- the table of offsets is as long as the product of all counts
  match ← listed (← elementCount (axes.map (·.count))) with
  | 0 => return []
  | count => readOdometer shape axes count (axes.map fun _ => 0) #[]

/-- The region that a selection keeps. A selection of single indices only keeps one element and no
axis. -/
def region (shape : List Nat) (selection : List Selector) : Attempt IndexError Region :=
  if shape.length < selection.length then
    .error (.refused (.tooManySelectors selection.length shape.length))
  else do
    let axes ← choices 0 shape selection
    return ⟨(axes.filter (·.kept)).map (·.count), ← keptOffsets shape axes⟩

end NetArray
