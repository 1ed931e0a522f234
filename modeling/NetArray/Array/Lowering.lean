import NetArray.Array.Write
import NetArray.Settings

/-!
# Lowering arrays to signals

Lowering turns an array whose elements are all there into one flat signal, element 0 in the low end.
Neighbouring elements that continue one another in a signal are merged first, an untouched import is
its own source, and the result may be put behind a named wire. Reading makes a value of one element.

* `ArrayView.lower` lowers an array, `ArrayView.driveOutput` drives a port with the result.
* `ArrayView.read` makes a value of an element.
-/

namespace NetArray

namespace ArrayView

/-- The ranges of bits that an array consists of, the least significant first. -/
def parts (view : ArrayView) (store : Store) (coalesce : Bool) :
    Attempt ArrayError (List BitRange) := do
  if coalesce then
    match view.passThrough? store with
    | some source => return [source]
    | none => BitRange.coalesce (← view.elements store)
  else
    view.elements store

/-- Joins ranges of bits, the least significant first, into a value. A single range needs no
concatenation. -/
def join (parts : List BitRange) : Build Value := do
  -- the slices are cut from the high end down, in the order of the operands of a concatenation
  match ← parts.reverse.mapM BitRange.materialize with
  | [single] => return single
  | values => Build.concat values

/-- Puts a value behind a wire. The wire has the name of the array, made unique, or a fresh one. -/
def barrier (name : Option String) (stem : String) (value : Value) : Build Value := do
  let ident ← match name with
    | some name => Build.uniqueName name
    | none => Build.fresh stem
  Build.wire ident value

/-- The value of the lowered array. -/
def lowered (view : ArrayView) (settings : Settings) : Session Value := do
  if (← view.count) = 0 then
    throw (.refused (.shape .nothingToLower))
  let store ← (← MonadState.get).store view.store
  let parts ← view.parts store settings.coalesce
  Session.build do
    let flat ← join parts
    if settings.createWire then
      barrier view.name settings.wireStem flat
    else
      return flat

/-- Lowers an array. The answer is its value and the array with the note that it is lowered. -/
def lower (view : ArrayView) (settings : Settings) : Session (Value × ArrayView) := do
  let value ← view.lowered settings
  let store ← (← MonadState.get).store view.store
  return (value, { view with loweredAt := some store.revision })

/-- Lowers an array with the default settings and drives a port with it. The array is part of the
state: it is lowered, and its cells are there, even if the port refuses it. -/
def driveOutput (port : PortId) : Change (ArrayView × Workspace) ArrayError Unit :=
  fun (view, workspace) =>
    match view.lower {} workspace with
    | .error failure workspace => .error failure (view, workspace)
    | .ok (value, view) workspace =>
      -- from here on the array is lowered, whatever the port says
      match Session.build (Build.drive port value) workspace with
      | .error failure workspace => .error failure (view, workspace)
      | .ok () workspace => .ok () (view, workspace)

/-- Makes a value of the element at a coordinate. -/
def read (view : ArrayView) (coordinate : List Nat) : Session Value := do
  let offset ← (linearize view.shape coordinate : Attempt IndexError Nat)
  let store ← (← MonadState.get).store view.store
  let range ← view.require store offset
  Session.build range.materialize

end ArrayView

end NetArray
