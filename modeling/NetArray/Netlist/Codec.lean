import NetArray.Json
import NetArray.Netlist.Builder

/-!
# Storing netlists as JSON

Ids and names are numbers, an alternative is its name or an object with one member, a structure is an
object with one member per field. Reading accepts what writing produces; beyond that a structure may be
the list of its fields, an object may have members that are not fields, and an alternative without
content may have `null` for it.

* `toJson` in the namespace of a type writes, `ofJson?` reads.
* `Netlist.toJson` and `Netlist.ofJson?` store and load a netlist. The table of a type table that
  remembers earlier answers is not stored.
-/

namespace NetArray

/-- Reads a field that must be there. -/
def field {α : Type} (read : Json → Option α) (json : Option Json) : Option α :=
  json.bind read

/-! ### Ids -/

def Ident.toJson (ident : Ident) : Json := .ofNat ident.index

def Ident.ofJson? (json : Json) : Option Ident := json.word?.map Ident.mk

def SignalId.toJson (id : SignalId) : Json := .ofNat id.index

def SignalId.ofJson? (json : Json) : Option SignalId := json.word?.map SignalId.mk

def CellId.toJson (id : CellId) : Json := .ofNat id.index

def CellId.ofJson? (json : Json) : Option CellId := json.word?.map CellId.mk

def PortId.toJson (id : PortId) : Json := .ofNat id.index

def PortId.ofJson? (json : Json) : Option PortId := json.word?.map PortId.mk

def TypeId.toJson (id : TypeId) : Json := .ofNat id.index

def TypeId.ofJson? (json : Json) : Option TypeId := json.word?.map TypeId.mk

/-! ### Tables -/

def Table.toJson {ι α : Type} (write : α → Json) (table : Table ι α) : Json :=
  .array (table.items.toList.map write)

def Table.ofJson? {ι α : Type} (read : Json → Option α) (json : Json) : Option (Table ι α) := do
  return ⟨(← json.list? read).toArray⟩

/-! ### Bits -/

def Logic.toJson : Logic → Json
  | .zero => .string "Zero"
  | .one => .string "One"
  | .unknown => .string "X"
  | .floating => .string "Z"

def Logic.ofJson? (json : Json) : Option Logic :=
  match json.variant? with
  | some ("Zero", .null) => some .zero
  | some ("One", .null) => some .one
  | some ("X", .null) => some .unknown
  | some ("Z", .null) => some .floating
  | _ => none

/-- Writes a pattern, the least significant bit first. -/
def Pattern.toJson (pattern : Pattern) : Json :=
  .array (pattern.bits.map Logic.toJson)

def Pattern.ofJson? (json : Json) : Option Pattern :=
  (json.list? Logic.ofJson?).map Pattern.mk

def BitOrigin.toJson : BitOrigin → Json
  | .input signal bit =>
    .object [("Input", .object [("signal", signal.toJson), ("bit", .ofNat bit)])]
  | .constant value => .object [("Const", value.toJson)]

def BitOrigin.ofJson? (json : Json) : Option BitOrigin := do
  match ← json.variant? with
  | ("Input", content) =>
    match ← content.members? ["signal", "bit"] with
    | [signal, bit] => return .input (← field SignalId.ofJson? signal) (← field Json.word? bit)
    | _ => none
  | ("Const", content) => return .constant (← Logic.ofJson? content)
  | _ => none

/-! ### Types -/

def DataType.toJson : DataType → Json
  | .bits width => .object [("Bits", .object [("width", .ofNat width)])]
  | .array element size =>
    .object [("Array", .object [("element", element.toJson), ("size", .ofNat size)])]

def DataType.ofJson? (json : Json) : Option DataType := do
  match ← json.variant? with
  | ("Bits", content) =>
    match ← content.members? ["width"] with
    | [width] => return .bits (← field Json.word? width)
    | _ => none
  | ("Array", content) =>
    match ← content.members? ["element", "size"] with
    | [element, size] =>
      return .array (← field TypeId.ofJson? element) (← field Json.word? size)
    | _ => none
  | _ => none

def TypeTable.toJson (table : TypeTable) : Json :=
  .object [("types", .array (table.types.toList.map DataType.toJson))]

/-- Reads a type table, which knows no earlier answers. -/
def TypeTable.ofJson? (json : Json) : Option TypeTable := do
  match ← json.record? ["types"] with
  | [types] =>
    let types ← field (Json.list? DataType.ofJson?) types
    return { types := types.toArray }
  | _ => none

/-! ### Signals and ports -/

def Direction.toJson : Direction → Json
  | .input => .string "Input"
  | .output => .string "Output"

def Direction.ofJson? (json : Json) : Option Direction :=
  match json.variant? with
  | some ("Input", .null) => some .input
  | some ("Output", .null) => some .output
  | _ => none

def SignalKind.toJson : SignalKind → Json
  | .port => .string "Port"
  | .wire => .string "Wire"

def SignalKind.ofJson? (json : Json) : Option SignalKind :=
  match json.variant? with
  | some ("Port", .null) => some .port
  | some ("Wire", .null) => some .wire
  | _ => none

def Signal.toJson (signal : Signal) : Json :=
  .object [("id", signal.id.toJson), ("name", signal.name.toJson), ("ty", signal.type.toJson),
    ("kind", signal.kind.toJson)]

def Signal.ofJson? (json : Json) : Option Signal := do
  match ← json.record? ["id", "name", "ty", "kind"] with
  | [id, name, type, kind] =>
    return ⟨← field SignalId.ofJson? id, ← field Ident.ofJson? name,
      ← field TypeId.ofJson? type, ← field SignalKind.ofJson? kind⟩
  | _ => none

def Value.toJson (value : Value) : Json :=
  .object [("signal", value.signal.toJson), ("ty", value.type.toJson),
    ("width", .ofNat value.width)]

def Value.ofJson? (json : Json) : Option Value := do
  match ← json.record? ["signal", "ty", "width"] with
  | [signal, type, width] =>
    return ⟨← field SignalId.ofJson? signal, ← field TypeId.ofJson? type,
      ← field Json.word? width⟩
  | _ => none

/-- Writes the signal behind a port. -/
def Port.signalToJson : Option SignalId → Json
  | some signal => signal.toJson
  | none => .null

def Port.toJson (port : Port) : Json :=
  .object [("id", port.id.toJson), ("name", port.name.toJson),
    ("direction", port.direction.toJson), ("ty", port.type.toJson),
    ("signal", Port.signalToJson port.signal)]

/-- Reads the signal behind a port; where nothing is written there is none. -/
def Port.signalOfJson? : Option Json → Option (Option SignalId)
  | some json => json.nullable? SignalId.ofJson?
  | none => some none

def Port.ofJson? (json : Json) : Option Port := do
  match ← json.record? ["id", "name", "direction", "ty", "signal"] with
  | [id, name, direction, type, signal] =>
    return ⟨← field PortId.ofJson? id, ← field Ident.ofJson? name,
      ← field Direction.ofJson? direction, ← field TypeId.ofJson? type,
      ← Port.signalOfJson? signal⟩
  | _ => none

/-! ### Cells -/

def Operation.toJson : Operation → Json
  | .constant pattern => .object [("Const", .object [("value", pattern.toJson)])]
  | .slice offset width =>
    .object [("Slice", .object [("offset", .ofNat offset), ("width", .ofNat width)])]
  | .concat => .string "Concat"
  | .buffer => .string "Buf"
  | .bitcast => .string "Bitcast"

def Operation.ofJson? (json : Json) : Option Operation := do
  match ← json.variant? with
  | ("Const", content) =>
    match ← content.members? ["value"] with
    | [value] => return .constant (← field Pattern.ofJson? value)
    | _ => none
  | ("Slice", content) =>
    match ← content.members? ["offset", "width"] with
    | [offset, width] => return .slice (← field Json.word? offset) (← field Json.word? width)
    | _ => none
  | ("Concat", .null) => return .concat
  | ("Buf", .null) => return .buffer
  | ("Bitcast", .null) => return .bitcast
  | _ => none

def Pin.toJson (pin : Pin) : Json :=
  .object [("port_name", pin.name.toJson), ("direction", pin.direction.toJson),
    ("signal", pin.signal.toJson)]

def Pin.ofJson? (json : Json) : Option Pin := do
  match ← json.record? ["port_name", "direction", "signal"] with
  | [name, direction, signal] =>
    return ⟨← field Ident.ofJson? name, ← field Direction.ofJson? direction,
      ← field SignalId.ofJson? signal⟩
  | _ => none

def Cell.toJson (cell : Cell) : Json :=
  .object [("id", cell.id.toJson), ("name", cell.name.toJson),
    ("kind", cell.operation.toJson), ("connections", .array (cell.pins.map Pin.toJson))]

def Cell.ofJson? (json : Json) : Option Cell := do
  match ← json.record? ["id", "name", "kind", "connections"] with
  | [id, name, kind, connections] =>
    return ⟨← field CellId.ofJson? id, ← field Ident.ofJson? name,
      ← field Operation.ofJson? kind, ← field (Json.list? Pin.ofJson?) connections⟩
  | _ => none

/-! ### Netlists -/

def Netlist.toJson (netlist : Netlist) : Json :=
  .object [("name", netlist.name.toJson), ("ports", .array (netlist.ports.map Port.toJson)),
    ("signals", netlist.signals.toJson Signal.toJson),
    ("cells", netlist.cells.toJson Cell.toJson), ("types", netlist.types.toJson)]

def Netlist.ofJson? (json : Json) : Option Netlist := do
  match ← json.record? ["name", "ports", "signals", "cells", "types"] with
  | [name, ports, signals, cells, types] =>
    return ⟨← field Ident.ofJson? name, ← field (Json.list? Port.ofJson?) ports,
      ← field (Table.ofJson? Signal.ofJson?) signals, ← field (Table.ofJson? Cell.ofJson?) cells,
      ← field TypeTable.ofJson? types⟩
  | _ => none

/-- Stores a netlist and loads it again. -/
def Netlist.reload? (netlist : Netlist) : Option Netlist :=
  Netlist.ofJson? netlist.toJson

end NetArray
