import Mathlib
import NetArray.Proofs.Netlist.Growth

/-!
# Driving a port

A port takes a value if it is an output of that width which nothing drives yet (`Builder.Takes`), and otherwise says
why not (`Builder.Refuses`). Which of the two it is, is known before the port is written, so a port that refuses
has changed nothing (`drive_outcome`). Signals, cells and types stay in any case (`keeps_drive`).
-/

namespace NetArray

namespace Builder

variable {builder : Builder} {port : PortId} {value : Value}

/-- Why a port does not take a value. -/
inductive Refuses (builder : Builder) (port : PortId) (value : Value) : BuildError → Prop where
  /-- There is no such port. -/
  | missing (hentry : builder.ports[port.index]? = none) : Refuses builder port value (.notAnOutput port.text)
  /-- The port is an input. -/
  | input {entry : Port} {name : String} (hentry : builder.ports[port.index]? = some entry)
      (hdirection : entry.direction = .input) (hname : builder.names.text entry.name = .ok name) :
      Refuses builder port value (.notAnOutput name)
  /-- Something drives the port already. -/
  | driven {entry : Port} {name : String} (hentry : builder.ports[port.index]? = some entry)
      (hdirection : entry.direction = .output) (hname : builder.names.text entry.name = .ok name)
      (hsignal : entry.signal ≠ none) : Refuses builder port value (.alreadyDriven name)
  /-- The port has another width. -/
  | width {entry : Port} {name : String} {expected : Nat} (hentry : builder.ports[port.index]? = some entry)
      (hdirection : entry.direction = .output) (hname : builder.names.text entry.name = .ok name)
      (hfree : entry.signal = none) (hwidth : builder.types.bitWidth entry.type = .ok expected)
      (hne : value.width ≠ expected) : Refuses builder port value (.outputWidth name expected value.width)

/-- The port is an output that nothing drives yet, of the width of the value. -/
structure Takes (builder : Builder) (port : PortId) (value : Value) (entry : Port) : Prop where
  found : builder.ports[port.index]? = some entry
  direction : entry.direction = .output
  free : entry.signal = none
  width : builder.types.bitWidth entry.type = .ok value.width

/-- The netlist with a value at a port. -/
def withDriven (builder : Builder) (port : PortId) (value : Value) (entry : Port) : Builder :=
  { builder with ports := builder.ports.set port.index { entry with signal := some value.signal } }

/-- What it comes to that a port is given a value. -/
inductive DriveOutcome (builder : Builder) (port : PortId) (value : Value) :
    EStateM.Result (Failure BuildError) Builder Unit → Prop where
  | taken {entry : Port} (htakes : builder.Takes port value entry) :
      DriveOutcome builder port value (.ok () (builder.withDriven port value entry))
  | refused {cause : BuildError} (hrefuses : builder.Refuses port value cause) :
      DriveOutcome builder port value (.error (.refused cause) builder)
  /-- The port has no known type or no known name. -/
  | fault (kind : Fault) : DriveOutcome builder port value (.error (.fault kind) builder)

/-- **One port.** All checks come before the port is written. -/
theorem drive_outcome (builder : Builder) (port : PortId) (value : Value) :
    builder.DriveOutcome port value (Build.drive port value builder) := by
  rw [Build.drive, change_get_bind]
  cases hentry : builder.ports[port.index]? with
  | none => exact .refused (.missing hentry)
  | some entry =>
    cases hdirection : entry.direction with
    | input =>
      simp only [hdirection]
      cases hname : builder.names.text entry.name with
      | error kind => exact .fault kind
      | ok name => exact .refused (.input hentry hdirection hname)
    | output =>
      simp only [hdirection]
      cases hwidth : builder.types.bitWidth entry.type with
      | error kind => exact .fault kind
      | ok expected =>
        cases hname : builder.names.text entry.name with
        | error kind => exact .fault kind
        | ok name =>
          cases hsignal : entry.signal with
          | some signal =>
            have hdriven : entry.signal ≠ none := by simp [hsignal]
            exact .refused (.driven hentry hdirection hname hdriven)
          | none =>
            by_cases hsame : value.width = expected
            · have htakes : builder.Takes port value entry := ⟨hentry, hdirection, hsignal, by rwa [hsame]⟩
              have hdriven := DriveOutcome.taken htakes
              simpa [change_bind, hsame, hsignal, hdirection, withDriven] using hdriven
            · have hrefused := DriveOutcome.refused (.width hentry hdirection hname hsignal hwidth hsame)
              simpa [change_bind, hsame] using hrefused

/-- A port with a known name that takes a value is driven by it. -/
theorem Takes.drive {entry : Port} {name : String} (h : builder.Takes port value entry)
    (hname : builder.names.text entry.name = .ok name) :
    Build.drive port value builder = .ok () (builder.withDriven port value entry) := by
  rw [Build.drive, change_get_bind, h.found]
  simp [h.direction, h.width, hname, h.free, change_bind, withDriven]

end Builder

theorem keeps_drive (port : PortId) (value : Value) : Keeps Builder.Grows (Build.drive port value) := by
  intro builder
  have houtcome := builder.drive_outcome port value
  generalize Build.drive port value builder = result at houtcome ⊢
  cases houtcome with
  | taken => exact .of_eq rfl rfl rfl rfl
  | refused | fault => exact .refl builder

end NetArray
