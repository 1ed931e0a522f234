import NetArray.Netlist.Builder

/-!
# Element types

The elements of an array are bit vectors of one width, which is at least one.

* `ElemType` is the type of the elements, `ElemType.ofWidth?` makes one of a width.
* `WriteMode.classify` says how a value of some width is written into elements of a type.
-/

namespace NetArray

/-- The type of the elements of an array. -/
structure ElemType where
  width : Nat
  width_pos : 0 < width
  deriving DecidableEq, Repr

namespace ElemType

/-- The element type of a width; there is none for zero. -/
def ofWidth? (width : Nat) : Option ElemType :=
  if h : 0 < width then some ⟨width, h⟩ else none

def i1 : ElemType := ⟨1, by decide⟩

def i8 : ElemType := ⟨8, by decide⟩

def i16 : ElemType := ⟨16, by decide⟩

def i32 : ElemType := ⟨32, by decide⟩

def i64 : ElemType := ⟨64, by decide⟩

/-- The element types that have a name. -/
def named : List ElemType :=
  [i1, i8, i16, i32, i64]

/-- How an element type is written: `i8`. -/
def text (elemType : ElemType) : String :=
  s!"i{elemType.width}"

/-- The data type of signals that carry one element. -/
def dataType (elemType : ElemType) : Build TypeId :=
  Build.bitsType elemType.width

end ElemType

/-- How a value is written into elements. -/
inductive WriteMode where
  | whole
  /-- The elements are single bits, and the value fills several of them in a row. -/
  | bitwise
  | mismatch
  deriving DecidableEq, Repr

/-- How a value of `width` bits is written into elements of a type. -/
def WriteMode.classify (width : Nat) (elemType : ElemType) : WriteMode :=
  if width = elemType.width then
    .whole
  else if elemType.width = 1 ∧ 1 < width then
    .bitwise
  else
    .mismatch

end NetArray
