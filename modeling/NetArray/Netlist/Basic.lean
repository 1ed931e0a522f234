import NetArray.Logic
import NetArray.Names
import NetArray.Netlist.DataType

/-!
# Netlists

A netlist is an interface of ports and a set of cells that drive signals. Cells only move bits: they
hold constants, cut slices, concatenate, buffer and reinterpret, and compute nothing.

* `Signal`, `Pin`, `Cell`, `Port` and `Netlist` are the parts and the whole.
* `Value` is a signal with its type and width at hand.
* `Netlist.driverMap` says which cell drives a signal, `Netlist.histogram` counts the cells of each
  operation, `Netlist.findPort?` looks a port up by name.
-/

namespace NetArray

/-- Which way data crosses a boundary. -/
inductive Direction where
  | input
  | output
  deriving DecidableEq, Repr

/-- What is behind a signal. -/
inductive SignalKind where
  /-- An input port; no cell drives it. -/
  | port
  | wire
  deriving DecidableEq, Repr

/-- A named signal. -/
structure Signal where
  id : SignalId
  name : Ident
  type : TypeId
  kind : SignalKind
  deriving DecidableEq, Repr

/-- A signal with its type and its width. -/
structure Value where
  signal : SignalId
  type : TypeId
  width : Nat
  deriving DecidableEq, Repr

/-- What a cell does with the bits of its inputs. -/
inductive Operation where
  | constant (pattern : Pattern)
  /-- Passes on `width` bits from bit `offset` on. -/
  | slice (offset width : Nat)
  /-- Joins its inputs; the first one becomes the high end. -/
  | concat
  | buffer
  | bitcast
  deriving DecidableEq, Repr

/-- The short name of an operation. -/
def Operation.mnemonic : Operation → String
  | .constant _ => "const"
  | .slice .. => "slice"
  | .concat => "concat"
  | .buffer => "buf"
  | .bitcast => "bitcast"

/-- The short names of all operations. -/
def Operation.mnemonics : List String :=
  ["const", "slice", "concat", "buf", "bitcast"]

/-- A pin of a cell and the signal at it. -/
structure Pin where
  name : Ident
  direction : Direction
  signal : SignalId
  deriving DecidableEq, Repr

/-- A cell of a netlist. -/
structure Cell where
  id : CellId
  name : Ident
  operation : Operation
  /-- The pins: the inputs in the order of the operands, then the output. -/
  pins : List Pin
  deriving DecidableEq, Repr

/-- The signals at the input pins, in the order of the operands. -/
def Cell.inputs (cell : Cell) : List SignalId :=
  (cell.pins.filter (·.direction = .input)).map (·.signal)

/-- The signal that the cell drives. -/
def Cell.output? (cell : Cell) : Option SignalId :=
  (cell.pins.find? (·.direction = .output)).map (·.signal)

/-- An entry of the interface of a netlist. -/
structure Port where
  id : PortId
  name : Ident
  direction : Direction
  type : TypeId
  /-- The signal behind the port. An output has none until it is driven. -/
  signal : Option SignalId
  deriving DecidableEq, Repr

/-- Whether the port is an output that nothing drives. -/
def Port.isUndriven (port : Port) : Bool :=
  port.direction = .output && port.signal.isNone

/-- Which cell drives a signal; of several entries for one signal the first counts. -/
abbrev DriverMap := List (SignalId × CellId)

/-- A finished netlist. -/
structure Netlist where
  name : Ident
  /-- The interface, in the order of declaration. -/
  ports : List Port
  signals : Table SignalId Signal
  /-- All cells, in the order in which they were added. -/
  cells : Table CellId Cell
  types : TypeTable
  deriving DecidableEq, Repr

namespace Netlist

/-- The first port, of a list of ports, that has a name. -/
def findPortIn? (names : Names) (text : String) : List Port → Checked (Option Port)
  | [] => .ok none
  | port :: ports => do
    if (← names.text port.name) = text then
      return some port
    else
      findPortIn? names text ports

/-- The first port that has a name. -/
def findPort? (netlist : Netlist) (names : Names) (text : String) : Checked (Option Port) :=
  findPortIn? names text netlist.ports

/-- Enters what a cell drives; later entries come first. -/
def enterDriver (drivers : DriverMap) (cell : Cell) : DriverMap :=
  match cell.output? with
  | some signal => (signal, cell.id) :: drivers
  | none => drivers

/-- Which cell drives a signal, read off the cells. -/
def driverMap (netlist : Netlist) : DriverMap :=
  netlist.cells.items.foldl enterDriver []

/-- The driven signals in ascending order, each with the cell that drives it. -/
def drivenSignals (netlist : Netlist) : DriverMap :=
  let drivers := netlist.driverMap
  let signals := (drivers.map (·.1)).eraseDups.mergeSort fun a b => a.index ≤ b.index
  signals.filterMap fun signal => (drivers.lookup signal).map (signal, ·)

/-- How many cells there are of each operation that occurs. -/
def histogram (netlist : Netlist) : List (String × Nat) :=
  let count (mnemonic : String) :=
    netlist.cells.items.toList.countP fun cell => cell.operation.mnemonic = mnemonic
  (Operation.mnemonics.map fun mnemonic => (mnemonic, count mnemonic)).filter (·.2 ≠ 0)

end Netlist

end NetArray
