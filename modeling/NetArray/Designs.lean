import NetArray.Array.Lowering

/-!
# Reference designs

Small netlists that show what arrays can do. Each has inputs, one output, and drives the output with a
lowered array.

* `Design` is a design, `Design.all` lists them, `Design.find?` looks one up by name.
* `Design.build` makes the netlist of a design under given settings.
-/

namespace NetArray

/-- A named netlist that is built with array operations. -/
structure Design where
  name : String
  description : String
  /-- Declares the ports and connects them. -/
  construct : Settings → Session Unit

namespace Design

/-! ### Steps that designs share -/

/-- The type of arrays of `width`-bit elements, the outermost size first. -/
def arrayType (width : Nat) (dims : List Nat) : Session TypeId :=
  Session.build do Build.arrayType (← Build.bitsType width) dims

def input (name : String) (type : TypeId) : Session Value :=
  Session.build (Build.input name type)

def output (name : String) (type : TypeId) : Session PortId :=
  Session.build (Build.output name type)

def drive (port : PortId) (value : Value) : Session Unit :=
  Session.build (Build.drive port value)

def lower (view : ArrayView) (settings : Settings) : Session Value := do
  let (value, _) ← view.lower settings
  return value

/-- Indices from `start` up to `stop`. -/
def slice (start stop : Nat) : Selector :=
  .range { start := some start, stop := some stop }

/-! ### The designs -/

/-- The axes of a 4x8 input exchanged. -/
def transpose (settings : Settings) : Session Unit := do
  let inType ← arrayType 32 [4, 8]
  let outType ← arrayType 32 [8, 4]
  let in1 ← input "in1" inType
  let out ← output "out" outType
  let array ← ArrayView.ofValue in1
  let array ← (array.transpose [1, 0] : Attempt ShapeError ArrayView)
  drive out (← lower array settings)

/-- The axes of a 4x8 input exchanged, the result as 16x2. -/
def transposeReshape (settings : Settings) : Session Unit := do
  let inType ← arrayType 32 [4, 8]
  let outType ← arrayType 32 [2, 16]
  let in1 ← input "in1" inType
  let out ← output "out" outType
  let array ← ArrayView.ofValue in1
  let array ← (array.transpose [1, 0] : Attempt ShapeError ArrayView)
  let array ← (array.reshape [16, 2] : Attempt ShapeError ArrayView)
  drive out (← lower array settings)

/-- One half of an array filled with copies of an element, the other with an array. -/
def broadcastReshape (settings : Settings) : Session Unit := do
  let in0Type ← arrayType 32 [16]
  let in1Type ← arrayType 32 []
  let outType ← arrayType 32 [8, 4]
  let in0 ← input "in0" in0Type
  let in1 ← input "in1" in1Type
  let out ← output "c" outType
  let array := (← ArrayView.create [32] .i32).named "m2"
  (List.range 16).forM fun i => array.set [i] (.whole in1)
  array.assign [slice 16 32] (.whole in0)
  let array ← (array.reshape [4, 8] : Attempt ShapeError ArrayView)
  drive out (← lower array settings)

/-- An array of bits filled bit by bit, row by row and by half, and reinterpreted as words. -/
def bitBlast (settings : Settings) : Session Unit := do
  let in0Type ← arrayType 32 [16]
  let in1Type ← arrayType 32 []
  let outType ← arrayType 32 [32]
  let in0 ← input "in0" in0Type
  let in1 ← input "in1" in1Type
  let out ← output "c" outType
  let array := (← ArrayView.create [32, 32] .i1).named "m1"
  let one ← Session.build (Build.constant (.ofBool true))
  (List.range 32).forM fun i => array.set [0, i] (.whole one)
  (List.range' 1 15).forM fun i => array.assign [.index i] (.whole in1)
  array.assign [slice 16 32] (.whole in0)
  let flat ← lower array settings
  drive out (← Session.build (Build.bitcast flat outType))

/-- A 10x10 input behind a named wire. -/
def fromValue (settings : Settings) : Session Unit := do
  let type ← arrayType 32 [10, 10]
  let in1 ← input "in1" type
  let out ← output "out" type
  let array := (← ArrayView.ofValue in1).named "m1"
  drive out (← lower array settings)

/-- An input passed through without a wire, whatever the settings say about wires. -/
def fromValueNoWire (settings : Settings) : Session Unit := do
  let type ← arrayType 32 [10]
  let in1 ← input "in1" type
  let out ← output "out" type
  let array := (← ArrayView.ofValue in1).named "m1"
  drive out (← lower array { settings with createWire := false })

/-- An input, an array and another input in a row. -/
def concatMixed (settings : Settings) : Session Unit := do
  let type ← arrayType 32 [10]
  let outType ← arrayType 32 [30]
  let in1 ← input "in1" type
  let in2 ← input "in2" type
  let in3 ← input "in3" type
  let out ← output "out" outType
  let middle := (← ArrayView.ofValue in1).named "m1"
  let array ← (← ArrayView.ofValue in2).concatenate [.array middle, .value in3]
  drive out (← lower array settings)

/-- The elements of an input moved up by three, around the end. -/
def roll (settings : Settings) : Session Unit := do
  let type ← arrayType 32 [10]
  let in1 ← input "in1" type
  let out ← output "out" type
  let array ← ArrayView.ofValue in1
  let array ← (array.roll 3 none : Attempt IndexError ArrayView)
  drive out (← lower array settings)

def all : List Design :=
  [⟨"transpose", "4x8 i32 input transposed to 8x4", transpose⟩,
    ⟨"transpose_reshape", "transpose followed by a reshape to 16x2", transposeReshape⟩,
    ⟨"broadcast_reshape",
      "32 x i32 array filled by broadcast and a range write, reshaped to 4x8", broadcastReshape⟩,
    ⟨"bit_blast",
      "32x32 i1 array filled from constants and i32 values, bitcast to 32 x i32", bitBlast⟩,
    ⟨"from_value", "10x10 i32 input imported and lowered behind a named wire", fromValue⟩,
    ⟨"from_value_no_wire", "10 x i32 input imported and lowered without a wire",
      fromValueNoWire⟩,
    ⟨"concat_mixed", "concatenation of an input, an array, and another input", concatMixed⟩,
    ⟨"roll", "10 x i32 input rolled by 3", roll⟩]

def find? (name : String) : Option Design :=
  all.find? (·.name = name)

/-- The finished netlist of a design, and the names of the session after it was built. -/
def build (design : Design) (names : Names) (settings : Settings) :
    Attempt ArrayError (Netlist × Names) :=
  match design.construct settings { builder := .start names design.name } with
  | .ok () workspace => .ok (workspace.builder.finish, workspace.builder.names)
  | .error failure _ => .error failure

end Design

end NetArray
