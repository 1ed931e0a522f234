import NetArray.Array.View

/-!
# Writing and joining arrays

A write through a view goes to the store that the view shares with others, so it is seen through all of
them. Joining arrays copies their elements into a store of its own.

* `ArrayView.set` writes at a coordinate, `ArrayView.assign` to a selection.
* `ArrayView.concatenate` joins arrays and values into one flat array.
-/

namespace NetArray

namespace ArrayView

/-- Writes at a coordinate. Where the elements are single bits, a wider value fills the elements that
follow in the row-major order of the view too, its lowest bit first. -/
def set (view : ArrayView) (coordinate : List Nat) (value : BitRange) : Session Unit := do
  let offset ← (linearize view.shape coordinate : Attempt IndexError Nat)
  match WriteMode.classify value.width view.elemType with
  | .whole =>
    let target ← view.storeOffset offset
    Session.onStore view.store (Store.set target value)
  | .bitwise =>
    let stop ← sized (offset + value.width)
    let count ← view.count
    if count < stop then
      throw (.refused (.index (.bitsPastEnd value.width offset count)))
    -- neighbours in the view need not be neighbours in the store
    let targets ← view.storeOffsets (List.range' offset value.width)
    Session.onStore view.store (Store.setRange targets value)
  | .mismatch => throw (.refused (.width (.element value.width view.elemType.width)))

/-- Writes a value to each of some slots. -/
def broadcast (targets : List Nat) (value : BitRange) : Change Store ArrayError Unit :=
  targets.forM fun target => Store.set target value

/-- Writes to a selection. A value as wide as all of it is split across it in row-major order, the
lowest part first; a value as wide as one element is written to each. -/
def assign (view : ArrayView) (selection : List Selector) (value : BitRange) : Session Unit := do
  let region ← (region view.shape selection : Attempt IndexError Region)
  let targets ← view.storeOffsets region.offsets
  let width := view.elemType.width
  let total ← sized (targets.length * width)
  -- where a region has one element both readings write the same
  if value.width = total then
    Session.onStore view.store (Store.setRange targets value)
  else if value.width = width then
    Session.onStore view.store (broadcast targets value)
  else
    throw (.refused (.width (.region value.width targets.length width)))

/-- The elements of a view in row-major order, with gaps where there are none. -/
def snapshot (view : ArrayView) (store : Store) : Checked (List (Option Element)) := do
  (List.range (← view.count)).mapM (view.element store)

end ArrayView

/-- What can be joined to an array. -/
inductive Operand where
  | array (view : ArrayView)
  /-- A value, which is imported first. -/
  | value (value : Value)
  deriving DecidableEq, Repr

/-- An operand as an array. -/
def Operand.toArray : Operand → Session ArrayView
  | .array view => pure view
  | .value source => ArrayView.ofValue source

namespace ArrayView

/-- The operands as arrays, which must have elements of the same type. -/
def operandViews (elemType : ElemType) : List Operand → Session (List ArrayView)
  | [] => pure []
  | operand :: operands => do
    let view ← operand.toArray
    if view.elemType ≠ elemType then
      throw (.refused (.elementTypes elemType.width view.elemType.width))
    return view :: (← operandViews elemType operands)

/-- The number of elements of some arrays together. -/
def totalCount (start : Nat) : List ArrayView → Checked Nat
  | [] => .ok start
  | view :: views => do totalCount (← sized (start + (← view.count))) views

/-- Joins an array and operands into a flat array, in this order. The elements are copied: later writes
to the operands do not show in the result, nor the other way round. -/
def concatenate (view : ArrayView) (operands : List Operand) : Session ArrayView := do
  let views := view :: (← operandViews view.elemType operands)
  let count ← totalCount 0 views
  let store ← (Store.create count view.elemType : Checked Store)
  let workspace ← MonadState.get
  let parts ← (views.mapM fun view => do view.snapshot (← workspace.store view.store) :
    Checked (List (List (Option Element))))
  ofStore [count] { store with slots := parts.flatten.toArray }

end ArrayView

end NetArray
