import NetArray.Fault

/-!
# Refusals of netlist construction

A builder refuses what cannot be part of a netlist: bits beyond a value, signals without bits, types of
the wrong width, outputs that are not there or taken.

* `BuildError` is the cause, `BuildError.message` its text. Writing the end of a slice is arithmetic on
  bit widths like any other, so the text of an absurd slice is a fault.
-/

namespace NetArray

/-- What was asked for without a single bit. -/
inductive Construct where
  | constant
  | slice
  | concatenation
  deriving DecidableEq, Repr

def Construct.noun : Construct → String
  | .constant => "constant"
  | .slice => "slice"
  | .concatenation => "concatenation"

/-- Why a builder refuses. -/
inductive BuildError where
  /-- A slice reaches past the end of its source. -/
  | sliceOutOfRange (low width sourceWidth : Nat)
  | zeroWidth (construct : Construct)
  | bitcastWidth (source target : Nat)
  | outputWidth (port : String) (expected found : Nat)
  | alreadyDriven (port : String)
  | notAnOutput (port : String)
  deriving DecidableEq, Repr

def BuildError.message : BuildError → Checked String
  | .sliceOutOfRange low width sourceWidth => do
    let stop ← word (low + width)
    return s!"slice [{low}, {stop}) out of range for a {sourceWidth}-bit value"
  | .zeroWidth construct => .ok s!"zero-width {construct.noun} is not representable"
  | .bitcastWidth source target => .ok s!"cannot bitcast a {source}-bit value to {target} bits"
  | .outputWidth port expected found =>
    .ok s!"output '{port}' expects {expected} bits, got {found}"
  | .alreadyDriven port => .ok s!"output '{port}' is already driven"
  | .notAnOutput port => .ok s!"'{port}' is not an output port"

end NetArray
