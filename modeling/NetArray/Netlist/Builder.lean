import NetArray.Netlist.Error
import NetArray.Netlist.Provenance

/-!
# Building netlists

A `Builder` is a netlist under construction together with the names that it shares with everything else
of its session. Each operation is a `Build`: it changes the builder and answers with the `Value` of the
signal that it made, or refuses. A refusal comes before any change, apart from names that were interned
on the way.

* `Build.input`, `Build.output` and `Build.drive` make and connect the interface.
* `Build.constant`, `Build.slice`, `Build.concat`, `Build.wire` and `Build.bitcast` add one cell each.
* `Build.uniqueName` finds a name that no port or signal of the netlist holds.
* `Builder.valueOf`, `Builder.driver?` and `Builder.origins` look at what was built, `Builder.finish`
  ends it.
-/

namespace NetArray

/-- A netlist under construction. -/
structure Builder where
  /-- All names of the session. -/
  names : Names
  name : Ident
  types : TypeTable := {}
  signals : Table SignalId Signal := {}
  cells : Table CellId Cell := {}
  ports : List Port := []
  drivers : DriverMap := []
  /-- The names that ports and signals hold. -/
  taken : List Ident := []
  deriving DecidableEq, Repr

namespace Builder

/-- Begins a netlist. -/
def start (names : Names) (name : String) : Builder :=
  let (ident, names) := names.intern name
  { names := names, name := ident }

def valueOf (builder : Builder) (signal : SignalId) : Checked Value := do
  let type := (← builder.signals.get signal).type
  return ⟨signal, type, ← builder.types.bitWidth type⟩

/-- The cell that drives a signal, if one does. -/
def driver? (builder : Builder) (signal : SignalId) : Checked (Option Cell) :=
  match builder.drivers.lookup signal with
  | none => .ok none
  | some cell => some <$> builder.cells.get cell

/-- What decides the origins of bits in a netlist under construction. -/
def wiring (builder : Builder) : Wiring :=
  ⟨builder.signals, builder.cells, builder.types, builder.drivers⟩

/-- The origins of the bits of a value, the least significant first. -/
def origins (builder : Builder) (value : Value) : Checked (List BitOrigin) :=
  builder.wiring.origins value.signal

/-- The finished netlist. -/
def finish (builder : Builder) : Netlist :=
  ⟨builder.name, builder.ports, builder.signals, builder.cells, builder.types⟩

end Builder

/-- An operation on a netlist under construction. -/
abbrev Build := Change Builder BuildError

namespace Build

def intern (text : String) : Build Ident :=
  modifyGet fun builder =>
    let (ident, names) := builder.names.intern text
    (ident, { builder with names := names })

/-- Makes a name that was not there before. -/
def fresh (stem : String) : Build Ident :=
  modifyGet fun builder =>
    let (ident, names) := builder.names.fresh stem
    (ident, { builder with names := names })

/-- The id of a bit vector type. -/
def bitsType (width : Nat) : Build TypeId :=
  modifyGet fun builder =>
    let (type, types) := builder.types.bits width
    (type, { builder with types := types })

/-- The id of a nested array type, the outermost size first. -/
def arrayType (element : TypeId) (dims : List Nat) : Build TypeId :=
  modifyGet fun builder =>
    let (type, types) := builder.types.array element dims
    (type, { builder with types := types })

/-- Adds a signal, which holds its name from then on. -/
def addSignal (name : Ident) (type : TypeId) (kind : SignalKind) : Build SignalId :=
  modifyGet fun builder =>
    let (signal, signals) := builder.signals.alloc fun id => ⟨id, name, type, kind⟩
    (signal, { builder with signals := signals, taken := name :: builder.taken })

/-- Adds a port, which holds its name from then on. -/
def addPort (name : Ident) (direction : Direction) (type : TypeId) (signal : Option SignalId) :
    Build PortId :=
  modifyGet fun builder =>
    let id : PortId := ⟨lowWord builder.ports.length⟩
    (id, { builder with
      ports := builder.ports ++ [⟨id, name, direction, type, signal⟩]
      taken := name :: builder.taken })

def valueOf (signal : SignalId) : Build Value := do
  (← get).valueOf signal

def input (name : String) (type : TypeId) : Build Value := do
  let ident ← intern name
  let signal ← addSignal ident type .port
  let _ ← addPort ident .input type (some signal)
  valueOf signal

def output (name : String) (type : TypeId) : Build PortId := do
  let ident ← intern name
  addPort ident .output type none

/-- Connects a value to an output port. Only the widths have to agree. -/
def drive (port : PortId) (value : Value) : Build Unit := do
  let builder ← get
  match builder.ports[port.index]? with
  | none => throw (.refused (.notAnOutput port.text))
  | some entry =>
    match entry.direction with
    | .input => throw (.refused (.notAnOutput (← builder.names.text entry.name)))
    | .output =>
      let expected ← builder.types.bitWidth entry.type
      let name ← builder.names.text entry.name
      -- an output that is driven already says so before widths are compared
      if entry.signal.isSome then
        throw (.refused (.alreadyDriven name))
      if value.width ≠ expected then
        throw (.refused (.outputWidth name expected value.width))
      let driven := { entry with signal := some value.signal }
      set { builder with ports := builder.ports.set port.index driven }

/-- Makes the input pins `I0`, `I1`, … of a cell, numbered from `number` on. -/
def inputPins (number : Nat) : List SignalId → Build (List Pin)
  | [] => pure []
  | signal :: signals => do
    let name ← intern s!"I{number}"
    return ⟨name, .input, signal⟩ :: (← inputPins (number + 1) signals)

def enterCell (name : Ident) (operation : Operation) (inputs : List Pin) (output : Pin) :
    Build Unit :=
  modify fun builder =>
    let (cell, cells) := builder.cells.alloc fun id =>
      ⟨id, name, operation, inputs ++ [output]⟩
    { builder with cells := cells, drivers := (output.signal, cell) :: builder.drivers }

/-- Adds a cell that drives a new signal. The signal has the name `name`, or that of the cell if it is
given none. -/
def addCell (operation : Operation) (inputs : List SignalId) (type : TypeId)
    (name : Option Ident) : Build Value := do
  -- the cell takes its name also where the signal has one of its own
  let cellName ← fresh s!"_{operation.mnemonic}"
  let signal ← addSignal (name.getD cellName) type .wire
  let pins ← inputPins 0 inputs
  enterCell cellName operation pins ⟨← intern "Y", .output, signal⟩
  valueOf signal

def constant (pattern : Pattern) : Build Value := do
  if pattern.width = 0 then
    throw (.refused (.zeroWidth .constant))
  addCell (.constant pattern) [] (← bitsType pattern.width) none

/-- Cuts the bits `[low, low + width)` out of a value. -/
def slice (value : Value) (low width : Nat) : Build Value := do
  if width = 0 then
    throw (.refused (.zeroWidth .slice))
  if value.width < low + width then
    throw (.refused (.sliceOutOfRange low width value.width))
  addCell (.slice low width) [value.signal] (← bitsType width) none

/-- The sum of bit widths, added up from the first to the last. -/
def totalWidth (start : Nat) : List Value → Checked Nat
  | [] => .ok start
  | value :: values => do totalWidth (← word (start + value.width)) values

/-- Joins values; the first one becomes the high end. -/
def concat (values : List Value) : Build Value := do
  let width ← totalWidth 0 values
  if width = 0 then
    throw (.refused (.zeroWidth .concatenation))
  addCell .concat (values.map (·.signal)) (← bitsType width) none

def wire (name : Ident) (value : Value) : Build Value :=
  addCell .buffer [value.signal] value.type (some name)

/-- Passes a value on under another type of the same width. -/
def bitcast (value : Value) (type : TypeId) : Build Value := do
  let width ← (← get).types.bitWidth type
  if width ≠ value.width then
    throw (.refused (.bitcastWidth value.width width))
  addCell .bitcast [value.signal] type none

/-- A name that no port or signal of the netlist holds: `name` itself if it is free, otherwise a fresh
one made of it. -/
def uniqueName (name : String) : Build Ident := do
  -- a name that only cells or the netlist itself hold is free
  let ident ← intern name
  if (← get).taken.contains ident then
    fresh name
  else
    return ident

end Build

end NetArray
