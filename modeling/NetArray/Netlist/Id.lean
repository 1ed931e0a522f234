import NetArray.Fault

/-!
# Ids and the tables they point into

Signals, cells, ports and data types are referred to by number. The four kinds of numbers are four
types, and each is written with its own mark. An append-only `Table` hands out the ids of its items in
order, so an id stays valid however far the table grows. An id is the number of a slot and has no bound;
where ids are kept in words, they are these numbers as long as a table has no more than `wordBound` items.

* `SignalId`, `CellId`, `PortId`, `TypeId` are the ids.
* `Table.alloc` appends an item that knows its own id, `Table.find?` and `Table.get` look one up.
-/

namespace NetArray

/-- A kind of id that numbers the slots of a table. -/
class SlotId (ι : Type) where
  ofSlot : Nat → ι
  slot : ι → Nat

structure SignalId where
  index : Nat
  deriving DecidableEq, Repr

structure CellId where
  index : Nat
  deriving DecidableEq, Repr

structure PortId where
  index : Nat
  deriving DecidableEq, Repr

structure TypeId where
  index : Nat
  deriving DecidableEq, Repr

instance : SlotId SignalId := ⟨SignalId.mk, SignalId.index⟩

instance : SlotId CellId := ⟨CellId.mk, CellId.index⟩

/-- How a signal is written: `%4`. -/
def SignalId.text (id : SignalId) : String := s!"%{id.index}"

/-- How a cell is written: `cell4`. -/
def CellId.text (id : CellId) : String := s!"cell{id.index}"

/-- How a port is written: `port4`. -/
def PortId.text (id : PortId) : String := s!"port{id.index}"

/-- How a data type is written: `!t4`. -/
def TypeId.text (id : TypeId) : String := s!"!t{id.index}"

/-- Items that are referred to by the id of their slot. Nothing is ever removed. -/
structure Table (ι α : Type) where
  /-- The items, in the order in which they were added. -/
  items : Array α := #[]
  deriving DecidableEq, Repr

namespace Table

variable {ι α : Type} [SlotId ι]

def size (table : Table ι α) : Nat :=
  table.items.size

def nextId (table : Table ι α) : ι :=
  SlotId.ofSlot table.size

def push (table : Table ι α) (item : α) : Table ι α :=
  ⟨table.items.push item⟩

/-- Appends the item that `make` builds from its own id. -/
def alloc (table : Table ι α) (make : ι → α) : ι × Table ι α :=
  (table.nextId, table.push (make table.nextId))

/-- The item of an id, if there is one. -/
def find? (table : Table ι α) (id : ι) : Option α :=
  table.items[SlotId.slot id]?

/-- The item of an id that is known to name one. -/
def get (table : Table ι α) (id : ι) : Checked α :=
  match table.find? id with
  | some item => .ok item
  | none => .error .unknownId

end Table

end NetArray
