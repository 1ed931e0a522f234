import NetArray.Fault

/-!
# Four-state bits and bit patterns

A constant bit is low, high, unknown or floating. A `Pattern` is a list of such bits, the least
significant first, and is written with the most significant first, as in `4'b10XZ`.

* `Logic` is the bit, `Logic.char` its character.
* `Pattern.zeros`, `Pattern.ofBool` and `Pattern.ofNat` make patterns, `Pattern.text` and
  `Pattern.literal` write them.
-/

namespace NetArray

/-- One bit of a constant. -/
inductive Logic where
  | zero
  | one
  /-- Neither known to be low nor high. -/
  | unknown
  | floating
  deriving DecidableEq, Repr

namespace Logic

/-- High for `true`, low for `false`. -/
def ofBool : Bool → Logic
  | true => one
  | false => zero

/-- How a bit is written. -/
def char : Logic → Char
  | zero => '0'
  | one => '1'
  | unknown => 'X'
  | floating => 'Z'

/-- Reads what `char` writes. -/
def ofChar? : Char → Option Logic
  | '0' => some zero
  | '1' => some one
  | 'X' => some unknown
  | 'Z' => some floating
  | _ => none

end Logic

/-- A constant bit pattern. -/
structure Pattern where
  /-- The bits, the least significant first. -/
  bits : List Logic
  deriving DecidableEq, Repr

namespace Pattern

/-- The number of bits, as far as a bit width can hold it. -/
def width (pattern : Pattern) : Nat :=
  lowWord pattern.bits.length

/-- A pattern of low bits. -/
def zeros (width : Nat) : Pattern :=
  ⟨List.replicate width .zero⟩

/-- A pattern of one bit. -/
def ofBool (value : Bool) : Pattern :=
  ⟨[.ofBool value]⟩

/-- The low `width` bits of a number. -/
def ofNat (value width : Nat) : Pattern :=
  ⟨(List.range width).map fun position => .ofBool (value.testBit position)⟩

/-- The bits, the most significant first. -/
def text (pattern : Pattern) : String :=
  String.ofList (pattern.bits.reverse.map Logic.char)

/-- The bits with their number in front, as a sized binary literal. -/
def literal (pattern : Pattern) : String :=
  s!"{pattern.width}'b{pattern.text}"

end Pattern

end NetArray
