import NetArray.Netlist.Basic

/-!
# The text of a netlist

A netlist is written one line per input port, cell and output port, in this order, between a line that
names it and a closing brace:

    module demo {
      input %0 a : i4
      %1 _const_0 = const 4'b1010 : i4
      %2 _concat_0 = concat %1, %0 : i8
      output out : i8 = %2
    }

An input without a signal and a cell without an output are left out.

* `Netlist.lines` and `Netlist.text` write a netlist.
-/

namespace NetArray

/-- What an operation shows behind its mnemonic. -/
def Operation.attributes : Operation → String
  | .constant pattern => " " ++ pattern.literal
  | .slice offset width => s!"[{offset} +: {width}]"
  | _ => ""

/-- The operands of a cell with a blank in front, or nothing if there are none. -/
def operandText (inputs : List SignalId) : String :=
  if inputs.isEmpty then
    ""
  else
    " " ++ ", ".intercalate (inputs.map SignalId.text)

namespace Netlist

/-- The line of an input port, if a signal is behind it. -/
def inputLine (netlist : Netlist) (names : Names) (port : Port) : Checked (Option String) :=
  match port.signal with
  | none => .ok none
  | some signal => do
    let name ← names.text port.name
    let type ← netlist.types.text port.type
    return some s!"  input {signal.text} {name} : {type}"

/-- The line of a cell, if it drives a signal. -/
def cellLine (netlist : Netlist) (names : Names) (cell : Cell) : Checked (Option String) :=
  match cell.output? with
  | none => .ok none
  | some output => do
    let signal ← netlist.signals.get output
    let name ← names.text signal.name
    let type ← netlist.types.text signal.type
    let operation := cell.operation.mnemonic ++ cell.operation.attributes
    return some s!"  {output.text} {name} = {operation}{operandText cell.inputs} : {type}"

/-- The line of an output port. -/
def outputLine (netlist : Netlist) (names : Names) (port : Port) : Checked String := do
  let name ← names.text port.name
  let type ← netlist.types.text port.type
  let driver := match port.signal with
    | some signal => signal.text
    | none => "<undriven>"
  return s!"  output {name} : {type} = {driver}"

/-- The lines of a netlist. -/
def lines (netlist : Netlist) (names : Names) : Checked (List String) := do
  let name ← names.text netlist.name
  let inputs ← (netlist.ports.filter (·.direction = .input)).mapM (netlist.inputLine names)
  let cells ← netlist.cells.items.toList.mapM (netlist.cellLine names)
  let outputs ← (netlist.ports.filter (·.direction = .output)).mapM (netlist.outputLine names)
  return s!"module {name} \x7b" ::
    (inputs.filterMap id ++ cells.filterMap id ++ outputs ++ ["\x7d"])

/-- The text of a netlist, without a newline at its end. -/
def text (netlist : Netlist) (names : Names) : Checked String := do
  return "\n".intercalate (← netlist.lines names)

end Netlist

end NetArray
