/-!
# Faults, refusals and machine-sized numbers

Every operation of this library has three outcomes. It answers; or it refuses, with a cause that the
caller can act on; or it hits a *fault*, a state that no caller is meant to reach, such as a number
that does not fit its machine word or an id that names nothing. The three are kept apart so that
statements about them can be told apart too.

* `Fault` lists the faults, `Failure ε` is a fault or a refusal with a cause in `ε`.
* `Checked α` may fault, `Attempt ε α` may also refuse, `Change σ ε α` may also change a state `σ`,
  and says what became of the state when it fails.
* `sized` and `word` are the two machine sizes: counts and offsets have 64 bits, bit widths have 32.
  What is computed with them is checked. Where a number of items is stored in a word as it is, as the
  width of a pattern or the id of a port, `lowWord` is what the word keeps of it.
* `addressable` bounds what is kept in memory at once.

The ids of signals, cells and types, the numbers of names and the suffixes of fresh names are natural
numbers without a bound: nothing here is computed with them, they only count what has been added.
-/

namespace NetArray

/-- A state that no caller is meant to reach. -/
inductive Fault where
  /-- A number outgrew its machine word. -/
  | overflow
  /-- More items at once than memory can address. -/
  | capacity
  | outOfBounds
  | divisionByZero
  | unknownId
  /-- A chain of references that never ends. -/
  | endless
  /-- Bits `[low, low + width)` asked of a range of only `available` bits. -/
  | subRange (low width available : Nat)
  deriving DecidableEq, Repr

/-- The text of a fault, for the faults that have one. -/
def Fault.message? : Fault → Option String
  | .subRange low width available =>
    some s!"sub-view [{low}, {low + width}) of a {available}-bit view"
  | _ => none

/-- Why an operation gave no answer. -/
inductive Failure (ε : Type) where
  | refused (cause : ε)
  | fault (kind : Fault)
  deriving DecidableEq, Repr

/-- Restates the cause of a refusal; a fault stays what it is. -/
def Failure.map {ε ε' : Type} (f : ε → ε') : Failure ε → Failure ε'
  | .refused cause => .refused (f cause)
  | .fault kind => .fault kind

/-- A computation that answers or faults. -/
abbrev Checked := Except Fault

/-- A computation that answers, refuses or faults. -/
abbrev Attempt (ε : Type) := Except (Failure ε)

/-- A computation on a state. A failure comes with the state in which it left things. -/
abbrev Change (σ ε : Type) := EStateM (Failure ε) σ

instance {ε : Type} : MonadLift Checked (Attempt ε) where
  monadLift
    | .ok a => .ok a
    | .error kind => .error (.fault kind)

instance {σ ε : Type} : MonadLift (Attempt ε) (Change σ ε) where
  monadLift x state := match x with
    -- an attempt does not touch the state, also when it fails
    | .ok a => .ok a state
    | .error failure => .error failure state

/-- Numbers from here on, from 2 to the power of 64, do not fit a count or an offset. -/
def sizeBound : Nat := 18446744073709551616

/-- Numbers from here on, from 2 to the power of 32, do not fit a word, which is what bit widths are stored in. -/
def wordBound : Nat := 4294967296

/-- Signed numbers of 64 bits lie between minus this number, 2 to the power of 63, and this number; only
the lower end is one of them. -/
def signedBound : Nat := 9223372036854775808

/-- A count or offset, if it fits. -/
def sized (n : Nat) : Checked Nat :=
  if n < sizeBound then .ok n else .error .overflow

/-- A bit width, if it fits. -/
def word (n : Nat) : Checked Nat :=
  if n < wordBound then .ok n else .error .overflow

/-- What a word of 32 bits keeps of a number that is stored in it unchecked. -/
def lowWord (n : Nat) : Nat :=
  n % wordBound

/-- A number of items of `bytes` bytes each, if memory can address all of them at once: its addresses
are signed. -/
def addressable (bytes count : Nat) : Checked Nat :=
  if count * bytes < signedBound then .ok count else .error .capacity

/-- A number of offsets, of eight bytes each, if memory can address a list of so many. -/
def listed (count : Nat) : Checked Nat :=
  addressable 8 count

/-- What a list holds at a position. -/
def itemAt {α : Type} (items : List α) (position : Nat) : Checked α :=
  match items[position]? with
  | some item => .ok item
  | none => .error .outOfBounds

end NetArray
