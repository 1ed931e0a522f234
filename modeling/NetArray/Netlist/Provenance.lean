import NetArray.Netlist.Basic

/-!
# Where bits come from

Cells only move bits around, so each bit of a signal is in the end a bit of an input port or a constant
bit. Two signals whose bits have the same origins carry the same data.

* `BitOrigin` is the origin of a bit.
* `Wiring` is the part of a netlist that decides origins, `Wiring.origins` traces the bits of a signal,
  the least significant first.
-/

namespace NetArray

/-- The origin of a bit. -/
inductive BitOrigin where
  /-- Bit number `bit` of a signal that no cell drives. -/
  | input (signal : SignalId) (bit : Nat)
  | constant (value : Logic)
  deriving DecidableEq, Repr

/-- Signals, the cells that drive them and their types. -/
structure Wiring where
  signals : Table SignalId Signal
  cells : Table CellId Cell
  types : TypeTable
  drivers : DriverMap

/-- The origins of signals that were traced already; of several entries for one signal the first
counts. -/
abbrev Traced := List (SignalId × List BitOrigin)

/-- Entries `[low, low + width)` of a list that has so many. -/
def cutOut {α : Type} (items : List α) (low width : Nat) : Checked (List α) := do
  let stop ← word (low + width)
  if stop ≤ items.length then
    return (items.drop low).take width
  else
    throw .outOfBounds

/-- The bits that a cell puts out, from the bits of its inputs in the order of the operands. -/
def Operation.outputBits (inputs : List (List BitOrigin)) : Operation → Checked (List BitOrigin)
  | .constant pattern => .ok (pattern.bits.map .constant)
  | .slice offset width => cutOut inputs.flatten offset width
  | .concat => .ok inputs.reverse.flatten
  | .buffer => .ok inputs.flatten
  | .bitcast => .ok inputs.flatten

/-- Traces the bits of a list of signals one after the other. -/
def traceEach (trace : SignalId → StateT Traced Checked (List BitOrigin)) :
    List SignalId → StateT Traced Checked (List (List BitOrigin))
  | [] => pure []
  | signal :: signals => do
    let bits ← trace signal
    return bits :: (← traceEach trace signals)

namespace Wiring

/-- Traces the bits of a signal through at most `depth` cells and notes what it finds. -/
def trace (wiring : Wiring) : (depth : Nat) → SignalId → StateT Traced Checked (List BitOrigin)
  | 0, _ => throw .endless
  | depth + 1, signal => do
    match (← get).lookup signal with
    -- a signal that several cells share is traced once
    | some bits => return bits
    | none =>
      let width ← wiring.types.bitWidth (← wiring.signals.get signal).type
      let bits ← match wiring.drivers.lookup signal with
        | none => pure ((List.range width).map (.input signal ·))
        | some cellId =>
          let cell ← wiring.cells.get cellId
          let inputs ← match cell.operation with
            -- whatever is at the input pins of a constant does not count
            | .constant _ => pure []
            | _ => traceEach (wiring.trace depth) cell.inputs
          cell.operation.outputBits inputs
      modify ((signal, bits) :: ·)
      return bits

/-- The origins of the bits of a signal. A path through more cells than there are runs in a circle. -/
def origins (wiring : Wiring) (signal : SignalId) : Checked (List BitOrigin) :=
  (wiring.trace (wiring.cells.size + 1) signal).run' []

end Wiring

/-- What decides the origins of bits in a netlist. -/
def Netlist.wiring (netlist : Netlist) : Wiring :=
  ⟨netlist.signals, netlist.cells, netlist.types, netlist.driverMap⟩

/-- The origins of the bits of a signal. -/
def Netlist.origins (netlist : Netlist) (signal : SignalId) : Checked (List BitOrigin) :=
  netlist.wiring.origins signal

end NetArray
