import NetArray.Array.Workspace
import NetArray.Index.OffsetMap
import NetArray.Index.Selection

/-!
# Array views

An `ArrayView` is an N-dimensional array of bit vectors, as seen through a shape and a chain of offset
maps over a shared store. Selecting, transposing, reshaping and rolling an array gives another view of
the same store; no element is copied and no cell is built.

* `ArrayView.create`, `ArrayView.ofValue` and `ArrayView.ofValueAs` make arrays.
* `ArrayView.select`, `ArrayView.transpose`, `ArrayView.reshape` and `ArrayView.roll` derive views.
* `ArrayView.element`, `ArrayView.get` and `ArrayView.population` read through a view.
-/

namespace NetArray

/-- A handle on a store. -/
structure ArrayView where
  shape : List Nat
  elemType : ElemType
  /-- The name for the wire of the lowered array. -/
  name : Option String := none
  store : StoreId
  /-- The maps that lead from an offset of the view to one of the store, in this order. -/
  maps : List OffsetMap := []
  /-- The revision of the store at which the view was last lowered. -/
  loweredAt : Option Nat := none
  deriving DecidableEq, Repr

/-- How much of an array has been written. -/
inductive Population where
  | unpopulated
  | partiallyPopulated
  | fullyPopulated
  /-- All elements, and they are lowered as they are. -/
  | lowered
  deriving DecidableEq, Repr

/-- Refuses a shape without an axis or with an empty one. -/
def checkShape (shape : List Nat) : Attempt ShapeError Unit :=
  if shape = [] ∨ 0 ∈ shape then
    .error (.refused (.emptyAxis shape))
  else
    .ok ()

/-- The element type of a width, which is refused if it is zero. -/
def ElemType.ofWidth (width : Nat) : Attempt ArrayError ElemType :=
  match ElemType.ofWidth? width with
  | some elemType => .ok elemType
  | none => .error (.refused (.width .zeroElement))

namespace ArrayView

/-- The array of a store of its own. -/
def ofStore (shape : List Nat) (store : Store) : Session ArrayView := do
  return { shape := shape, elemType := store.elemType, store := ← Session.addStore store }

/-- An array of elements that are yet to be written. -/
def create (shape : List Nat) (elemType : ElemType) : Session ArrayView := do
  checkShape shape
  ofStore shape (← Store.create (← elementCount shape) elemType)

/-- The shape of an array of `store`'s elements: the shape that was asked for if it holds so many, and
one axis if none was. -/
def importShape (value : Value) (store : Store) (shape : Option (List Nat)) :
    Attempt ArrayError (List Nat) :=
  match shape with
  | none => .ok [store.size]
  | some shape => do
    checkShape shape
    -- the value has been split by then, so its width is known to be a multiple
    if (← elementCount shape) = store.size then
      return shape
    else
      throw (.refused (.shape
        (.elementCount value.width store.size store.elemType.width shape)))

/-- The array of the elements that a value splits into, of a shape or flat. -/
def ofValueAs (value : Value) (elemType : ElemType) (shape : Option (List Nat)) :
    Session ArrayView := do
  let store ← Store.imported (.whole value) elemType
  let shape ← importShape value store shape
  ofStore shape store

/-- The array of a value: shape and elements are those of its array type, and any other value becomes a
single element. -/
def ofValue (value : Value) : Session ArrayView := do
  let types := (← get).builder.types
  match ← types.arrayShape value.type with
  | some (dims, element) =>
    let elemType ← ElemType.ofWidth (← types.bitWidth element)
    ofValueAs value elemType (some dims)
  | none =>
    let elemType ← ElemType.ofWidth value.width
    ofValueAs value elemType none

/-- Names the wire of the lowered array. -/
def named (view : ArrayView) (name : String) : ArrayView :=
  { view with name := some name }

def rank (view : ArrayView) : Nat :=
  view.shape.length

def count (view : ArrayView) : Checked Nat :=
  elementCount view.shape

/-- The width of the lowered array. -/
def bitWidth (view : ArrayView) : Checked Nat := do
  sized ((← view.count) * view.elemType.width)

/-- Follows a chain of offset maps. -/
def follow : List OffsetMap → Nat → Checked Nat
  | [], offset => .ok offset
  | map :: maps, offset => do follow maps (← map.apply offset)

/-- The slot behind an offset of the view. -/
def storeOffset (view : ArrayView) (offset : Nat) : Checked Nat :=
  follow view.maps offset

/-- The slots behind some offsets of the view. -/
def storeOffsets (view : ArrayView) (offsets : List Nat) : Checked (List Nat) :=
  offsets.mapM view.storeOffset

/-- A view of a view. It is not lowered, whatever the other one is. -/
def derive (view : ArrayView) (shape : List Nat) (map : OffsetMap) : ArrayView :=
  { view with
    shape := shape
    -- the latest map comes first: it is the first one that an offset goes through
    maps := if map.isIdentity then view.maps else map :: view.maps
    loweredAt := none }

/-- The part of the array that a selection keeps. Where no axis is left the view has one, of one
element. -/
def select (view : ArrayView) (selection : List Selector) : Attempt IndexError ArrayView := do
  let region ← region view.shape selection
  let shape := if region.shape.isEmpty then [1] else region.shape
  return view.derive shape (.gather region.offsets.toArray)

/-- The array with its axes permuted: axis `i` of the result is axis `permutation[i]` of the array. -/
def transpose (view : ArrayView) (permutation : List Nat) : Attempt ShapeError ArrayView := do
  let (shape, map) ← transposeMap view.shape permutation
  return view.derive shape map

/-- The elements in the same order, in another shape. -/
def reshape (view : ArrayView) (shape : List Nat) : Attempt ShapeError ArrayView := do
  return view.derive shape (← reshapeMap view.shape shape)

/-- The array with its elements moved around by `amount`, along one axis or in row-major order. -/
def roll (view : ArrayView) (amount : Int) (axis : Option Nat) : Attempt IndexError ArrayView := do
  let map ← match axis with
    | none => (rollMap view.shape amount : Checked OffsetMap)
    | some axis => rollAxisMap view.shape axis amount
  return view.derive view.shape map

def element (view : ArrayView) (store : Store) (offset : Nat) : Checked (Option Element) := do
  store.element (← view.storeOffset offset)

/-- The bits of the element at a coordinate, if there is one. -/
def get (view : ArrayView) (store : Store) (coordinate : List Nat) :
    Attempt IndexError (Option BitRange) := do
  let offset ← linearize view.shape coordinate
  return (← view.element store offset).map Element.range

def isSet (view : ArrayView) (store : Store) (offset : Nat) : Checked Bool := do
  return store.isSet (← view.storeOffset offset)

/-- The first of some offsets of the view where there is no element. -/
def firstUnsetOf (view : ArrayView) (store : Store) : List Nat → Checked (Option Nat)
  | [] => .ok none
  | offset :: offsets => do
    if ← view.isSet store offset then
      view.firstUnsetOf store offsets
    else
      return some offset

/-- The first offset of the view where there is no element. -/
def firstUnset (view : ArrayView) (store : Store) : Checked (Option Nat) := do
  view.firstUnsetOf store (List.range (← view.count))

/-- The bits of the element at an offset of the view, which must be there. -/
def require (view : ArrayView) (store : Store) (offset : Nat) : Attempt ArrayError BitRange := do
  match ← view.element store offset with
  | some element => return element.range
  | none => throw (.refused (.unset offset))

/-- The bits of all elements in row-major order, which must all be there. -/
def elements (view : ArrayView) (store : Store) : Attempt ArrayError (List BitRange) := do
  (List.range (← view.count)).mapM (view.require store)

/-- The value that the view is an untouched import of. -/
def passThrough? (view : ArrayView) (store : Store) : Option BitRange :=
  if view.maps.isEmpty then store.passThrough? else none

/-- How much of the array has been written, seen through the view. -/
def population (view : ArrayView) (store : Store) : Checked Population := do
  if view.loweredAt = some store.revision then
    return .lowered
  let count ← view.count
  let set ← (List.range count).mapM (view.isSet store)
  match set.countP id with
  | 0 => return .unpopulated
  | populated => return if populated = count then .fullyPopulated else .partiallyPopulated

end ArrayView

end NetArray
