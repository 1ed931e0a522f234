import Mathlib
import NetArray.Proofs.Netlist.Runs

/-!
# What a call does to a netlist

A call of the builder that answers has done one of five things: entered names and types, declared an input port,
declared an output port, driven one, or added a cell. `Builder.Edit` lists them together with the checks that the
call had passed by then, and `Call.edit_of_perform` finds the one that a call has done. An invariant of the
builder is proved by cases on the edit, and the text of the operations is not read again.

A call that refuses has done nothing at all (`Call.eq_of_refused`). The checks of an operation come before
everything else that it does, and once they are passed it can only answer or fault.
-/

namespace NetArray

/-! ### Refusals -/

/-- Once the checks of an operation are passed, adding its cell can only fault. -/
theorem neverRefuses_addCell (operation : Operation) (inputs : List SignalId) (type : TypeId)
    (name : Option Ident) : NeverRefuses (Build.addCell operation inputs type name) := by
  intro builder cause builder' hrun
  obtain ⟨names, cellName, outName, pins, hcell, -⟩ := addCell_run operation inputs type name builder
  rw [hcell, build_valueOf] at hrun
  exact NeverRefuses.lift_checked _ _ _ _ hrun

theorem neverRefuses_typedCell (operation : Operation) (inputs : List SignalId) (width : Nat) :
    NeverRefuses (do Build.addCell operation inputs (← Build.bitsType width) none) :=
  .bind (.of_ok fun _ => ⟨_, _, rfl⟩) fun _ => neverRefuses_addCell _ _ _ _

theorem neverRefuses_input (name : String) (type : TypeId) : NeverRefuses (Build.input name type) := by
  intro builder cause builder' hrun
  rw [input_run, build_valueOf] at hrun
  exact NeverRefuses.lift_checked _ _ _ _ hrun

theorem neverRefuses_uniqueName (name : String) : NeverRefuses (Build.uniqueName name) := by
  refine .of_ok fun builder => ?_
  obtain ⟨ident, names, hrun⟩ := uniqueName_run name builder
  exact ⟨ident, _, hrun⟩

theorem spares_drive (port : PortId) (value : Value) : Spares (Build.drive port value) := by
  intro builder cause builder' hrun
  have houtcome := builder.drive_outcome port value
  rw [hrun] at houtcome
  cases houtcome with
  | refused => rfl

theorem spares_constant (pattern : Pattern) : Spares (Build.constant pattern) :=
  .guard (.of_never (neverRefuses_typedCell _ _ _))

theorem spares_slice (source : Value) (low width : Nat) : Spares (Build.slice source low width) :=
  .guard (.guard (.of_never (neverRefuses_typedCell _ _ _)))

theorem spares_concat (values : List Value) : Spares (Build.concat values) :=
  .lift_checked_bind fun _ => .guard (.of_never (neverRefuses_typedCell _ _ _))

theorem spares_bitcast (source : Value) (type : TypeId) : Spares (Build.bitcast source type) :=
  .get_bind fun _ => .lift_checked_bind fun _ => .guard (.of_never (neverRefuses_addCell _ _ _ _))

namespace Call

private theorem spares_some {x : Build Value} (hx : Spares x) :
    Spares (some <$> x : Build (Option Value)) := by
  rw [map_eq_pure_bind]
  exact .bind hx fun _ => .of_ok fun _ => ⟨_, _, rfl⟩

private theorem neverRefuses_none {α : Type} {x : Build α} (hx : NeverRefuses x) :
    NeverRefuses (do let _ ← x; return none : Build (Option Value)) :=
  .bind hx fun _ => .of_ok fun _ => ⟨_, _, rfl⟩

theorem spares_perform (call : Call) : Spares call.perform := by
  cases call with
  | input name type => exact spares_some (.of_never (neverRefuses_input name type))
  | output name type => exact .of_never (neverRefuses_none (.of_ok fun _ => ⟨_, _, rfl⟩))
  | drive port value => exact .bind (spares_drive port value) fun _ => .of_ok fun _ => ⟨_, _, rfl⟩
  | constant pattern => exact spares_some (spares_constant pattern)
  | slice source low width => exact spares_some (spares_slice source low width)
  | concat operands => exact spares_some (spares_concat operands)
  | wire name source => exact spares_some (.of_never (neverRefuses_addCell _ _ _ _))
  | bitcast source type => exact spares_some (spares_bitcast source type)
  | internType type => exact .of_never (.of_ok fun _ => ⟨_, _, rfl⟩)
  | internArray element dims => exact .of_never (neverRefuses_none (.of_ok fun _ => ⟨_, _, rfl⟩))
  | intern text => exact .of_never (neverRefuses_none (.of_ok fun _ => ⟨_, _, rfl⟩))
  | fresh stem => exact .of_never (neverRefuses_none (.of_ok fun _ => ⟨_, _, rfl⟩))
  | uniqueName name => exact .of_never (neverRefuses_none (neverRefuses_uniqueName name))

/-- **Refusals.** A call that refuses leaves the builder exactly as it was. -/
theorem eq_of_refused {call : Call} {builder builder' : Builder} {cause : BuildError}
    (hrun : call.perform builder = .error (.refused cause) builder') : builder' = builder :=
  spares_perform call builder cause builder' hrun

end Call

/-! ### Edits -/

/-- The widths of the operands that an operation takes, and that of its result. -/
def Operation.Sizes : Operation → List Nat → Nat → Prop
  | .constant pattern, operands, width => operands = [] ∧ width = pattern.width
  | .slice offset count, operands, width =>
    ∃ source, operands = [source] ∧ offset + count ≤ source ∧ width = count
  | .concat, operands, width => width = operands.sum
  | .buffer, operands, width => operands = [width]
  | .bitcast, operands, width => operands = [width]

namespace Builder

/-- One change that a call makes, with what the checks of the call have found out about it. -/
inductive Edit (builder : Builder) : Builder → Prop where
  /-- Names and types are entered. -/
  | enter (names : Names) {types : TypeTable}
      (hgrows : builder.Grows { builder with names := names, types := types }) :
      Edit builder { builder with names := names, types := types }
  /-- An input port is declared, with the signal behind it. -/
  | input (names : Names) (name : Ident) {type : TypeId} {width : Nat}
      (htype : builder.types.bitWidth type = .ok width) :
      Edit builder (builder.withPort names name type)
  /-- An output port is declared, which nothing drives. -/
  | output (names : Names) (name : Ident) (type : TypeId) :
      Edit builder { builder with
        names := names
        ports := builder.ports ++ [⟨⟨lowWord builder.ports.length⟩, name, .output, type, none⟩]
        taken := name :: builder.taken }
  /-- An output port that nothing drove is driven by a value of its width. -/
  | drive {place : Nat} {entry : Port} {value : Value} (hentry : builder.ports[place]? = some entry)
      (hdirection : entry.direction = .output) (hfree : entry.signal = none)
      (hvalue : builder.valueOf value.signal = .ok value)
      (hwidth : builder.types.bitWidth entry.type = .ok value.width) :
      Edit builder { builder with
        ports := builder.ports.set place { entry with signal := some value.signal } }
  /-- A cell is added that suits its operands, maybe after a type for it. -/
  | cell (names : Names) {types : TypeTable} (signalName cellName outName : Ident) {type : TypeId}
      {operation : Operation} {pins : List Pin} {operands : List Value} {width : Nat}
      (hgrows : builder.Grows { builder with types := types })
      (hpins : pins.map (·.signal) = operands.map (·.signal))
      (hinput : ∀ pin ∈ pins, pin.direction = .input)
      (hoperands : ∀ operand ∈ operands, builder.valueOf operand.signal = .ok operand)
      (htype : types.bitWidth type = .ok width)
      (hsizes : operation.Sizes (operands.map (·.width)) width) :
      Edit builder
        ({ builder with types := types }.withCell names signalName cellName outName type operation pins)

end Builder

/-! ### The edit of a call -/

section Operations

open Builder

variable {builder builder' : Builder} {value source : Value} {type : TypeId} {width : Nat}

theorem edit_input {name : String} (hrun : Build.input name type builder = .ok value builder') :
    builder.Edit builder' := by
  obtain ⟨width, hwidth, -, rfl⟩ := input_eq_ok.mp hrun
  exact .input _ _ hwidth

theorem edit_drive {port : PortId} (hvalue : builder.valueOf value.signal = .ok value)
    (hrun : Build.drive port value builder = .ok () builder') : builder.Edit builder' := by
  have houtcome := builder.drive_outcome port value
  rw [hrun] at houtcome
  cases houtcome with
  | taken htakes => exact .drive htakes.found htakes.direction htakes.free hvalue htakes.width

/-- Adding a cell that suits its operands is an edit, also where a type was entered for it. -/
theorem edit_addCell {types : TypeTable} (operation : Operation) (operands : List Value)
    {name : Option Ident} (hgrows : builder.Grows { builder with types := types })
    (hoperands : ∀ operand ∈ operands, builder.valueOf operand.signal = .ok operand)
    (htype : types.bitWidth type = .ok width)
    (hsizes : operation.Sizes (operands.map (·.width)) width)
    (hrun : Build.addCell operation (operands.map (·.signal)) type name { builder with types := types }
      = .ok value builder') : builder.Edit builder' := by
  obtain ⟨names, cellName, outName, pins, hcell, hpins, hinput, -⟩ :=
    addCell_run operation (operands.map (·.signal)) type name { builder with types := types }
  rw [hcell, build_valueOf, change_lift_checked_eq_ok] at hrun
  obtain ⟨-, rfl⟩ := hrun
  exact .cell names (name.getD cellName) cellName outName hgrows hpins hinput hoperands htype hsizes

/-- A cell of a new type. -/
theorem edit_typedCell (operation : Operation) (operands : List Value) (hsound : builder.Sound)
    (hword : width < wordBound)
    (hoperands : ∀ operand ∈ operands, builder.valueOf operand.signal = .ok operand)
    (hsizes : operation.Sizes (operands.map (·.width)) width)
    (hrun : (do Build.addCell operation (operands.map Value.signal) (← Build.bitsType width) none)
      builder = .ok value builder') : builder.Edit builder' := by
  obtain ⟨_, _, htyped, hrun⟩ := change_bind_eq_ok.mp hrun
  cases htyped
  exact edit_addCell operation operands ((keeps_bitsType hword).ok rfl) hoperands
    (hsound.types.bitWidth_bits hword) hsizes hrun

theorem edit_constant {pattern : Pattern} (hsound : builder.Sound)
    (hrun : Build.constant pattern builder = .ok value builder') : builder.Edit builder' := by
  obtain ⟨-, hcell⟩ := constant_eq_ok.mp hrun
  refine edit_typedCell (.constant pattern) [] hsound pattern.width_lt ?_ ⟨rfl, rfl⟩ hcell
  exact fun _ hmem => nomatch hmem

theorem edit_slice {low : Nat} (hsound : builder.Sound) (hword : width < wordBound)
    (hsource : builder.valueOf source.signal = .ok source)
    (hrun : Build.slice source low width builder = .ok value builder') : builder.Edit builder' := by
  obtain ⟨-, hrange, hcell⟩ := slice_eq_ok.mp hrun
  have hsizes : (Operation.slice low width).Sizes [source.width] width := ⟨source.width, rfl, hrange, rfl⟩
  exact edit_typedCell (.slice low width) [source] hsound hword (List.forall_mem_singleton.mpr hsource)
    hsizes hcell

theorem edit_concat {operands : List Value} (hsound : builder.Sound)
    (hoperands : ∀ operand ∈ operands, builder.valueOf operand.signal = .ok operand)
    (hrun : Build.concat operands builder = .ok value builder') : builder.Edit builder' := by
  obtain ⟨-, hword, hcell⟩ := concat_eq_ok.mp hrun
  exact edit_typedCell .concat operands hsound hword hoperands rfl hcell

theorem edit_wire {name : Ident} (hsource : builder.valueOf source.signal = .ok source)
    (hrun : Build.wire name source builder = .ok value builder') : builder.Edit builder' :=
  edit_addCell .buffer [source] (.refl _)
    (List.forall_mem_singleton.mpr hsource) (bitWidth_of_valueOf hsource) rfl hrun

theorem edit_bitcast (hsource : builder.valueOf source.signal = .ok source)
    (hrun : Build.bitcast source type builder = .ok value builder') : builder.Edit builder' := by
  obtain ⟨hwidth, hcell⟩ := bitcast_eq_ok.mp hrun
  exact edit_addCell .bitcast [source] (.refl _)
    (List.forall_mem_singleton.mpr hsource) hwidth rfl hcell

end Operations

namespace Call

variable {call : Call} {builder builder' : Builder} {made : Option Value}

private theorem edit_of_some {x : Build Value}
    (hx : ∀ {value}, x builder = .ok value builder' → builder.Edit builder')
    (hrun : (some <$> x : Build (Option Value)) builder = .ok made builder') :
    builder.Edit builder' := by
  rw [map_eq_pure_bind, change_bind_eq_ok] at hrun
  obtain ⟨value, middle, hvalue, hpure⟩ := hrun
  obtain ⟨-, rfl⟩ := change_pure_eq_ok.mp hpure
  exact hx hvalue

private theorem edit_of_none {α : Type} {x : Build α}
    (hx : ∀ {answer}, x builder = .ok answer builder' → builder.Edit builder')
    (hrun : (do let _ ← x; return none : Build (Option Value)) builder = .ok made builder') :
    builder.Edit builder' := by
  obtain ⟨answer, middle, hanswer, hpure⟩ := change_bind_eq_ok.mp hrun
  obtain ⟨-, rfl⟩ := change_pure_eq_ok.mp hpure
  exact hx hanswer

/-- Names are entered by an operation that touches nothing else. -/
private theorem edit_names (builder : Builder) (names : Names) :
    builder.Edit { builder with names := names } :=
  .enter names (.of_eq rfl rfl rfl rfl)

private theorem edit_uniqueName {name : String} {ident : Ident}
    (hrun : Build.uniqueName name builder = .ok ident builder') : builder.Edit builder' := by
  obtain ⟨_, names, hname⟩ := uniqueName_run name builder
  obtain ⟨-, rfl⟩ := EStateM.Result.ok.inj (hname.symm.trans hrun)
  exact edit_names builder names

/-- **One call.** A call that answers has edited the builder, if the values that it was given are the
builder's own. -/
theorem edit_of_perform (hsound : builder.Sound) (hwords : call.Words)
    (hoperands : ∀ value ∈ call.operands, builder.valueOf value.signal = .ok value)
    (hrun : call.perform builder = .ok made builder') : builder.Edit builder' := by
  cases call with
  | input name type => exact edit_of_some edit_input hrun
  | constant pattern => exact edit_of_some (edit_constant hsound) hrun
  | slice source low width =>
    exact edit_of_some (edit_slice hsound hwords (hoperands source (List.mem_singleton_self _))) hrun
  | concat operands => exact edit_of_some (edit_concat hsound hoperands) hrun
  | wire name source =>
    exact edit_of_some (edit_wire (hoperands source (List.mem_singleton_self _))) hrun
  | bitcast source type =>
    exact edit_of_some (edit_bitcast (hoperands source (List.mem_singleton_self _))) hrun
  | drive port value =>
    exact edit_of_none (edit_drive (hoperands value (List.mem_singleton_self _))) hrun
  -- what is left enters a port that nothing drives, types or names
  | output name type =>
    refine edit_of_none (fun hrun => ?_) hrun
    cases hrun
    exact .output _ _ _
  | internType type =>
    have hgrows := (keeps_perform hwords).ok hrun
    cases hrun
    exact .enter _ hgrows
  | internArray element dims =>
    refine edit_of_none (fun hrun => ?_) hrun
    have hgrows := (keeps_arrayType element dims).ok hrun
    cases hrun
    exact .enter _ hgrows
  | intern text =>
    refine edit_of_none (fun hrun => ?_) hrun
    cases hrun
    exact edit_names builder _
  | fresh stem =>
    refine edit_of_none (fun hrun => ?_) hrun
    cases hrun
    exact edit_names builder _
  | uniqueName name => exact edit_of_none edit_uniqueName hrun

end Call

end NetArray
