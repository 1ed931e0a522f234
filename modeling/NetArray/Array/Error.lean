import NetArray.Index.Error
import NetArray.Netlist.Error

/-!
# Refusals of array operations

An array operation is refused because of an index, a shape or a width, because elements of different
types meet, because an element is missing, or because the netlist builder refuses.

* `ArrayError` is the cause, `ArrayError.message` its text.
* Refusals of index arithmetic lift into refusals of array operations.
-/

namespace NetArray

/-- Why a width is refused. -/
inductive WidthError where
  | zeroElement
  | indivisible (valueWidth elementWidth : Nat)
  /-- A value does not fill `count` slots of a store. -/
  | store (valueWidth count elementWidth : Nat)
  | element (valueWidth elementWidth : Nat)
  /-- A value neither fills a region nor fits each of its elements. -/
  | region (valueWidth count elementWidth : Nat)
  deriving DecidableEq, Repr

def WidthError.message : WidthError → String
  | .zeroElement => "dtype width must be at least 1"
  | .indivisible valueWidth elementWidth =>
    s!"a {valueWidth}-bit value does not split into i{elementWidth} elements"
  | .store valueWidth count elementWidth =>
    s!"cannot store a {valueWidth}-bit value into {count} i{elementWidth} element(s)"
  | .element valueWidth elementWidth =>
    s!"cannot store a {valueWidth}-bit value into an i{elementWidth} element"
  | .region valueWidth count elementWidth =>
    s!"cannot assign a {valueWidth}-bit value to {count} i{elementWidth} elements"

/-- Why an array operation is refused. -/
inductive ArrayError where
  | index (cause : IndexError)
  | shape (cause : ShapeError)
  | width (cause : WidthError)
  | elementTypes (expected found : Nat)
  | unset (offset : Nat)
  | build (cause : BuildError)
  deriving DecidableEq, Repr

def ArrayError.message : ArrayError → Checked String
  | .index cause => .ok s!"index error: {cause.message}"
  | .shape cause => .ok s!"shape error: {cause.message}"
  | .width cause => .ok s!"width error: {cause.message}"
  | .elementTypes expected found =>
    .ok s!"dtype mismatch: expected i{expected}, found i{found}"
  | .unset offset => .ok s!"element at offset {offset} is unset"
  | .build cause => cause.message

instance : MonadLift (Attempt IndexError) (Attempt ArrayError) where
  monadLift x := x.mapError (Failure.map .index)

instance : MonadLift (Attempt ShapeError) (Attempt ArrayError) where
  monadLift x := x.mapError (Failure.map .shape)

end NetArray
