import NetArray.Netlist.Id

/-!
# Data types of signals

A signal carries bits of a `DataType`: a bit vector, or an array of a smaller type. The bits of an
array are those of its elements, element 0 in the low end. Types are interned in a `TypeTable`, so that
two signals have the same type just when they have the same `TypeId`, the position of the type in the
table, whatever the size of the table.

* `TypeTable.intern`, `TypeTable.bits` and `TypeTable.array` give the id of a type.
* `TypeTable.layout` unfolds a type into the dimensions of its nested arrays and the bit vector inside;
  `TypeTable.bitWidth`, `TypeTable.arrayShape` and `TypeTable.text` are read off it.
-/

namespace NetArray

/-- A hardware data type. -/
inductive DataType where
  | bits (width : Nat)
  | array (element : TypeId) (size : Nat)
  deriving DecidableEq, Repr

/-- Interned data types. -/
structure TypeTable where
  types : Array DataType := #[]
  /-- The ids of types that were asked for, so that they need not be searched again. A table that was
  read from a file has none yet. -/
  known : List (DataType × TypeId) := []
  deriving DecidableEq, Repr

/-- The shape of a data type: nested arrays around a bit vector. -/
structure Layout where
  /-- The sizes of the nested arrays, the outermost first. -/
  dims : List Nat
  element : TypeId
  width : Nat
  deriving DecidableEq, Repr

/-- Multiplies a width by the sizes of nested arrays, from the innermost outward. -/
def Layout.widthOf (width : Nat) : List Nat → Checked Nat
  | [] => .ok width
  | size :: dims => do word ((← Layout.widthOf width dims) * size)

/-- How a type is written: `i32`, or `array<4 x array<8 x i32>>`. -/
def Layout.textOf (width : Nat) : List Nat → String
  | [] => s!"i{width}"
  | size :: dims => s!"array<{size} x {Layout.textOf width dims}>"

namespace TypeTable

def size (table : TypeTable) : Nat :=
  table.types.size

/-- The id of a type, which is added to the table if it is new. -/
def intern (table : TypeTable) (type : DataType) : TypeId × TypeTable :=
  match table.known.lookup type with
  | some id => (id, table)
  | none =>
    match table.types.idxOf? type with
    | some position => (⟨position⟩, { table with known := (type, ⟨position⟩) :: table.known })
    | none =>
      let id : TypeId := ⟨table.size⟩
      (id, { types := table.types.push type, known := (type, id) :: table.known })

/-- The id of a bit vector type. -/
def bits (table : TypeTable) (width : Nat) : TypeId × TypeTable :=
  table.intern (.bits width)

/-- The id of the nested array type with the sizes `dims`, the outermost first. -/
def array (table : TypeTable) (element : TypeId) : List Nat → TypeId × TypeTable
  | [] => (element, table)
  | size :: dims =>
    -- the inner arrays are interned before the outer ones
    let (inner, table) := table.array element dims
    table.intern (.array inner size)

def get (table : TypeTable) (id : TypeId) : Checked DataType :=
  match table.types[id.index]? with
  | some type => .ok type
  | none => .error .unknownId

/-- Unfolds a type into its layout, through at most `depth` types. -/
def unfold (table : TypeTable) : (depth : Nat) → TypeId → Checked Layout
  | 0, _ => .error .endless
  | depth + 1, id => do
    match ← table.get id with
    | .bits width => return ⟨[], id, width⟩
    | .array element size =>
      let layout ← table.unfold depth element
      return { layout with dims := size :: layout.dims }

/-- The layout of a type. A chain of elements that is longer than the table runs in a circle. -/
def layout (table : TypeTable) (id : TypeId) : Checked Layout :=
  table.unfold (table.size + 1) id

/-- The number of bits of a type. -/
def bitWidth (table : TypeTable) (id : TypeId) : Checked Nat := do
  let layout ← table.layout id
  Layout.widthOf layout.width layout.dims

/-- The dimensions of an array type and the type of its innermost elements; nothing for a bit
vector. -/
def arrayShape (table : TypeTable) (id : TypeId) : Checked (Option (List Nat × TypeId)) := do
  let layout ← table.layout id
  return if layout.dims.isEmpty then none else some (layout.dims, layout.element)

/-- How a type is written. -/
def text (table : TypeTable) (id : TypeId) : Checked String := do
  let layout ← table.layout id
  return Layout.textOf layout.width layout.dims

end TypeTable

end NetArray
