import NetArray.Array.BitRange
import NetArray.Array.ElemType
import NetArray.Array.Error

/-!
# Element stores

A `Store` holds the elements of an array in row-major order, one per slot. A store that was imported
from a value answers for a slot that was never written with the part of that value which belongs there.
The views of an array share its store. Each successful write advances the revision of the store, by
which a view can tell that it is out of date.

* `Store.create` and `Store.imported` make stores.
* `Store.element` and `Store.isSet` read a slot, `Store.passThrough?` finds an untouched import.
* `Store.set` writes a value at an offset, `Store.setRange` splits one over given offsets. Both check
  everything before they write anything.
-/

namespace NetArray

/-- An element in its slot. -/
inductive Element where
  | whole (range : BitRange)
  /-- One bit of a wider value. -/
  | bit (range : BitRange)
  deriving DecidableEq, Repr

def Element.range : Element → BitRange
  | .whole bits => bits
  | .bit bits => bits

/-- The slots of an array. -/
structure Store where
  elemType : ElemType
  /-- What was written, by offset. -/
  slots : Array (Option Element)
  /-- The value that answers for slots that were never written. -/
  origin : Option BitRange := none
  /-- The number of successful writes. -/
  revision : Nat := 0
  deriving DecidableEq, Repr

namespace Store

/-- A store of `size` empty slots. -/
def empty (size : Nat) (elemType : ElemType) : Store :=
  { elemType := elemType, slots := .replicate size none }

/-- A store of `size` empty slots, of 24 bytes each, if memory can address so many. -/
def create (size : Nat) (elemType : ElemType) : Checked Store := do
  return empty (← addressable 24 size) elemType

/-- A store of the elements that a range of bits splits into, element 0 in the low end. -/
def imported (origin : BitRange) (elemType : ElemType) : Attempt ArrayError Store :=
  if origin.width % elemType.width = 0 then
    .ok { empty (origin.width / elemType.width) elemType with origin := some origin }
  else
    .error (.refused (.width (.indivisible origin.width elemType.width)))

def size (store : Store) : Nat :=
  store.slots.size

/-- Element number `offset` of the value that the store was imported from, if there is one. -/
def importedElement (store : Store) (offset : Nat) : Checked (Option Element) :=
  match store.origin with
  | none => .ok none
  | some origin => do
    let low ← word (offset * store.elemType.width)
    return some (.whole (← origin.sub low store.elemType.width))

def element (store : Store) (offset : Nat) : Checked (Option Element) :=
  match store.slots[offset]? with
  | none => .ok none
  -- what was written hides what was imported
  | some (some element) => .ok (some element)
  | some none => store.importedElement offset

def isSet (store : Store) (offset : Nat) : Bool :=
  match store.slots[offset]? with
  | none => false
  | some slot => store.origin.isSome || slot.isSome

/-- The first of some offsets where there is no element. -/
def firstUnset (store : Store) (offsets : List Nat) : Option Nat :=
  offsets.find? fun offset => !store.isSet offset

def populated (store : Store) : Nat :=
  if store.origin.isSome then
    store.size
  else
    store.slots.toList.countP (·.isSome)

/-- The value that the store was imported from, if nothing was written since. -/
def passThrough? (store : Store) : Option BitRange :=
  if store.slots.all (·.isNone) then store.origin else none

/-- Puts an element into a slot. Whoever calls this knows that there is such a slot. -/
def put (store : Store) (offset : Nat) (element : Element) : Store :=
  { store with slots := store.slots.setIfInBounds offset (some element) }

/-- Puts elements into slots, one after the other. -/
def putAll (store : Store) (entries : List (Nat × Element)) : Store :=
  entries.foldl (fun store entry => store.put entry.1 entry.2) store

def commit (entries : List (Nat × Element)) : Change Store ArrayError Unit :=
  modify fun store =>
    let written := store.putAll entries
    { written with revision := written.revision + 1 }

/-- Refuses an offset that has no slot. -/
def checkOffset (store : Store) (offset : Nat) : Attempt ArrayError Unit :=
  if offset < store.size then
    .ok ()
  else
    .error (.refused (.index (.outOfStore offset store.size)))

/-- The `count` parts of `width` bits that a range begins with, the lowest first. -/
def chunks (value : BitRange) (width count : Nat) : Checked (List BitRange) :=
  (List.range count).mapM fun number => do value.sub (← word (number * width)) width

/-- Writes a value at an offset. Where the elements are single bits, a wider value fills the offsets
that follow too, its lowest bit first. -/
def set (offset : Nat) (value : BitRange) : Change Store ArrayError Unit := do
  let store ← get
  match WriteMode.classify value.width store.elemType with
  | .whole =>
    store.checkOffset offset
    commit [(offset, .whole value)]
  | .bitwise =>
    let stop ← sized (offset + value.width)
    if store.size < stop then
      throw (.refused (.index (.bitsPastEnd value.width offset store.size)))
    let bits ← chunks value 1 value.width
    commit ((List.range' offset value.width).zip (bits.map .bit))
  | .mismatch => throw (.refused (.width (.store value.width 1 store.elemType.width)))

/-- Splits a value into as many parts as there are offsets and writes the lowest part at the first of
them. -/
def setRange (offsets : List Nat) (value : BitRange) : Change Store ArrayError Unit := do
  let store ← get
  let width := store.elemType.width
  let total ← sized (offsets.length * width)
  if value.width ≠ total then
    throw (.refused (.width (.store value.width offsets.length width)))
  offsets.forM fun offset => do store.checkOffset offset
  let parts ← chunks value width offsets.length
  -- a value of one bit is written whole, also into single bits
  let tag := if width = 1 ∧ 1 < value.width then Element.bit else Element.whole
  commit (offsets.zip (parts.map tag))

end Store

end NetArray
