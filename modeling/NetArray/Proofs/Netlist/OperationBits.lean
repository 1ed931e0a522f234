import Mathlib
import NetArray.Proofs.Netlist.Carries

/-!
# What each operation of the builder makes

One lemma for each operation that makes a value: given operands that carry bits, the result carries the bits
that the operation is meant to give.

* `carries_input` — a new port carries its own bits;
* `carries_constant`, `carries_slice`, `carries_concat`, `carries_wire`, `carries_bitcast` — a new cell moves
  the bits of its operands.

All cells go through `resolves_addCell`, which is the only place that looks at what a cell adds to the netlist.
That the operands carry bits is not lost on the way: the builder only grows.

A constant may have more bits than a width can count, and then the values made of it have more bits than they are
wide. What is left to say of them is `Builder.Shows`, in `shows_of_constant` and the lemmas after it.
-/

namespace NetArray

open Builder

variable {builder builder' : Builder} {value source : Value} {bits : List BitOrigin}

/-- A run of a lookup answers with the value that is there. -/
private theorem build_valueOf_ok {signal : SignalId} (h : builder.valueOf signal = .ok value) :
    Build.valueOf signal builder = .ok value builder := by
  rw [build_valueOf, h]
  rfl

/-- The inputs of a new cell are the signals at its input pins. -/
theorem inputs_of_pins (pins : List Pin) (hinput : ∀ pin ∈ pins, pin.direction = .input)
    (id : CellId) (name outName : Ident) (operation : Operation) (output : SignalId) :
    Cell.inputs ⟨id, name, operation, pins ++ [⟨outName, .output, output⟩]⟩ = pins.map (·.signal) := by
  have hpins : pins.filter (·.direction = .input) = pins :=
    List.filter_eq_self.mpr fun pin hpin => decide_eq_true (hinput pin hpin)
  change ((pins ++ [_]).filter _).map _ = _
  rw [List.filter_append, hpins]
  simp

/-- The output of a new cell has the bits that the operation makes of those of the operands. -/
theorem resolves_withCell {names : Names} {signalName cellName outName : Ident} {type : TypeId} {width : Nat}
    {operation : Operation} {pins : List Pin} {operands : List Value} {inputs : List (List BitOrigin)}
    (hpins : pins.map (·.signal) = operands.map (·.signal))
    (hinput : ∀ pin ∈ pins, pin.direction = .input)
    (hoperands : List.Forall₂ builder.Resolves operands inputs)
    (hbits : operation.outputBits inputs = .ok bits)
    (htype : builder.types.bitWidth type = .ok width) :
    (builder.withCell names signalName cellName outName type operation pins).Resolves
      ⟨⟨builder.signals.size⟩, type, width⟩ bits := by
  have hgrows := grows_withCell builder names signalName cellName outName type operation pins
  have hnew := find?_push_signal builder.signals ⟨⟨builder.signals.size⟩, signalName, type, .wire⟩
  refine ⟨valueOf_eq_ok.mpr ⟨rfl, _, hnew, rfl, htype⟩, ?_⟩
  -- the new cell is one step above its operands
  change Wiring.Traces _ (Table.size (Table.push _ _) + 1) _ _
  rw [Table.size_push]
  have hdriver := lookup_withCell builder names signalName cellName outName type operation pins
  refine Wiring.traces_cell hnew htype hdriver (find?_push_cell _ _) ?_ hbits
  -- the operands were traced below the old number of cells
  rw [inputs_of_pins pins hinput, hpins, List.forall₂_map_left_iff]
  exact hoperands.imp fun _ _ h => hgrows.traces le_rfl h.traces

/-- **A new cell.** Its output has the bits that the operation makes of those of the operands, and everything
that was there before is there still. -/
theorem resolves_addCell {operation : Operation} {operands : List Value}
    {inputs : List (List BitOrigin)} {type : TypeId} {width : Nat} (name : Option Ident)
    (hoperands : List.Forall₂ builder.Resolves operands inputs)
    (hbits : operation.outputBits inputs = .ok bits)
    (htype : builder.types.bitWidth type = .ok width) :
    ∃ value builder',
      Build.addCell operation (operands.map (·.signal)) type name builder = .ok value builder' ∧
        value.width = width ∧ builder'.Resolves value bits := by
  obtain ⟨names, cellName, outName, pins, hrun, hsignals, hinput, -⟩ :=
    addCell_run operation (operands.map (·.signal)) type name builder
  have hresolves : (builder.withCell names (name.getD cellName) cellName outName type operation pins).Resolves
      ⟨⟨builder.signals.size⟩, type, width⟩ bits :=
    resolves_withCell hsignals hinput hoperands hbits htype
  exact ⟨_, _, hrun.trans (build_valueOf_ok hresolves.handle), rfl, hresolves⟩

/-- The type that a cell of a known width is given. -/
private theorem bitsType_run {width : Nat} (hsound : builder.Sound) (hword : width < wordBound) :
    ∃ type middle, Build.bitsType width builder = .ok type middle ∧ builder.Grows middle ∧
      middle.types.bitWidth type = .ok width :=
  ⟨_, _, rfl, (keeps_bitsType hword).ok rfl, hsound.types.bitWidth_bits hword⟩

/-- A new cell of a new type. -/
private theorem resolves_typedCell (operation : Operation) {operands : List Value} {width : Nat}
    {inputs : List (List BitOrigin)} (hsound : builder.Sound)
    (hoperands : List.Forall₂ builder.Resolves operands inputs)
    (hbits : operation.outputBits inputs = .ok bits) (hword : width < wordBound) :
    ∃ value builder',
      (do Build.addCell operation (operands.map Value.signal) (← Build.bitsType width) none)
        builder = .ok value builder' ∧ value.width = width ∧ builder'.Resolves value bits := by
  obtain ⟨type, middle, hrun, hgrows, htype⟩ := bitsType_run hsound hword
  obtain ⟨value, builder', hcell, hresolves⟩ := resolves_addCell none
    (hoperands.imp fun _ _ h => h.mono hgrows) hbits htype
  exact ⟨value, builder', change_bind_eq_ok.mpr ⟨type, middle, hrun, hcell⟩, hresolves⟩

/-- What carries bits has them. -/
theorem forall₂_resolves {values : List Value} {inputs : List (List BitOrigin)}
    (h : List.Forall₂ builder.Carries values inputs) : List.Forall₂ builder.Resolves values inputs :=
  h.imp fun _ _ h => h.toResolves

/-- A new cell of a new type, as wide as there are bits. -/
private theorem carries_typedCell (operation : Operation) {operands : List Value}
    {inputs : List (List BitOrigin)} (hsound : builder.Sound)
    (hoperands : List.Forall₂ builder.Carries operands inputs)
    (hbits : operation.outputBits inputs = .ok bits) (hword : bits.length < wordBound) :
    ∃ value builder',
      (do Build.addCell operation (operands.map Value.signal) (← Build.bitsType bits.length) none)
        builder = .ok value builder' ∧ builder'.Carries value bits := by
  obtain ⟨value, builder', hrun, hwidth, hresolves⟩ :=
    resolves_typedCell operation hsound (forall₂_resolves hoperands) hbits hword
  exact ⟨value, builder', hrun, hresolves, hwidth.symm⟩

/-! ### The operations -/

/-- A signal that is not there yet has no driver. -/
theorem lookup_next (hsound : builder.Sound) :
    builder.drivers.lookup ⟨builder.signals.size⟩ = none := by
  rw [List.lookup_eq_none_iff]
  intro entry hmem
  have hlt := hsound.driven hmem
  have hne : (⟨builder.signals.size⟩ : SignalId) ≠ entry.1 := fun heq => by
    rw [← heq] at hlt
    exact lt_irrefl _ hlt
  exact bne_iff_ne.mpr hne

/-- The signal behind a new port carries its own bits. -/
theorem carries_withPort {names : Names} {name : Ident} {type : TypeId} {width : Nat}
    (hsound : builder.Sound) (htype : builder.types.bitWidth type = .ok width) :
    (builder.withPort names name type).Carries ⟨⟨builder.signals.size⟩, type, width⟩
      ((List.range width).map (.input ⟨builder.signals.size⟩)) := by
  have hnew := find?_push_signal builder.signals ⟨⟨builder.signals.size⟩, name, type, .port⟩
  refine ⟨⟨valueOf_eq_ok.mpr ⟨rfl, _, hnew, rfl, htype⟩, ?_⟩, ?_⟩
  · -- no cell drives a port
    exact Wiring.traces_port hnew htype rfl (lookup_next hsound)
  · rw [List.length_map, List.length_range]

/-- A new port carries its own bits. -/
theorem carries_input {name : String} {type : TypeId} (hsound : builder.Sound)
    (hrun : Build.input name type builder = .ok value builder') :
    builder'.Carries value ((List.range value.width).map (.input value.signal)) := by
  obtain ⟨width, hwidth, rfl, rfl⟩ := input_eq_ok.mp hrun
  exact carries_withPort hsound hwidth

/-- A constant shows the bits of its pattern, however many they are. -/
theorem shows_constant {pattern : Pattern} (hsound : builder.Sound) (hwidth : pattern.width ≠ 0) :
    ∃ value builder', Build.constant pattern builder = .ok value builder' ∧
      builder'.Shows value (pattern.bits.map .constant) := by
  obtain ⟨value, builder', hrun, hvalue, hresolves⟩ :=
    resolves_typedCell (.constant pattern) hsound .nil rfl pattern.width_lt
  refine ⟨value, builder', constant_eq_ok.mpr ⟨hwidth, hrun⟩, hresolves, ?_⟩
  rw [hvalue, List.length_map]
  rfl

/-- A constant carries the bits of its pattern, if they are not too many for a width. -/
theorem carries_constant {pattern : Pattern} (hsound : builder.Sound) (hpos : 0 < pattern.bits.length)
    (hword : pattern.bits.length < wordBound) :
    ∃ value builder', Build.constant pattern builder = .ok value builder' ∧
      builder'.Carries value (pattern.bits.map .constant) := by
  have hwidth : pattern.width ≠ 0 := by
    rw [Pattern.width_eq hword]
    exact hpos.ne'
  obtain ⟨value, builder', hrun, hshows⟩ := shows_constant hsound hwidth
  exact ⟨value, builder', hrun, hshows.carries (by rwa [List.length_map])⟩

/-- A cut that ends within a list has its own length. -/
theorem length_cut {α : Type} {items : List α} {low width : Nat} (hrange : low + width ≤ items.length) :
    ((items.drop low).take width).length = width := by
  rw [List.length_take, List.length_drop]
  omega

/-- A slice carries the bits that it cuts out. -/
theorem carries_slice {low width : Nat} (hsound : builder.Sound) (h : builder.Carries source bits)
    (hpos : 0 < width) (hrange : low + width ≤ source.width) :
    ∃ value builder', Build.slice source low width builder = .ok value builder' ∧
      builder'.Carries value ((bits.drop low).take width) := by
  have hword := h.width_lt hsound
  have hbits := h.length
  -- the type that the slice is given is that of the bits that are cut out
  have hlength : ((bits.drop low).take width).length = width := length_cut (by omega)
  obtain ⟨value, builder', hrun, hcarries⟩ := carries_typedCell (.slice low width) hsound (.cons h .nil)
    (Wiring.outputBits_slice (by omega) (by omega)) (by omega)
  rw [hlength] at hrun
  exact ⟨value, builder', slice_eq_ok.mpr ⟨hpos.ne', hrange, hrun⟩, hcarries⟩

/-- Values are as wide as they have bits. -/
theorem widths_of_carries {values : List Value} {inputs : List (List BitOrigin)}
    (h : List.Forall₂ builder.Carries values inputs) : values.map (·.width) = inputs.map List.length := by
  induction h with
  | nil => rfl
  | cons hcarries _ ih => rw [List.map_cons, List.map_cons, ih, hcarries.length]

/-- The widths of values add up to the number of their bits. -/
theorem sum_width {values : List Value} {inputs : List (List BitOrigin)}
    (h : List.Forall₂ builder.Carries values inputs) :
    (values.map (·.width)).sum = inputs.flatten.length := by
  rw [widths_of_carries h, List.length_flatten]

/-- The order of lists does not matter for how many items they have together. -/
theorem length_flatten_reverse {α : Type} (lists : List (List α)) :
    lists.reverse.flatten.length = lists.flatten.length := by
  rw [List.length_flatten, List.length_flatten, List.map_reverse, List.sum_reverse]

/-- A concatenation carries the bits of its operands, those of the last operand in the low end. -/
theorem carries_concat {values : List Value} {inputs : List (List BitOrigin)}
    (hsound : builder.Sound) (h : List.Forall₂ builder.Carries values inputs)
    (hpos : 0 < inputs.flatten.length) (hword : inputs.flatten.length < wordBound) :
    ∃ value builder', Build.concat values builder = .ok value builder' ∧
      builder'.Carries value inputs.reverse.flatten := by
  -- the order of the operands does not matter for the width
  have hlength := length_flatten_reverse inputs
  obtain ⟨value, builder', hrun, hcarries⟩ :=
    carries_typedCell .concat hsound h rfl (by rwa [hlength])
  refine ⟨value, builder', concat_eq_ok.mpr ?_, hcarries⟩
  rw [sum_width h]
  rw [hlength] at hrun
  exact ⟨hpos.ne', hword, hrun⟩

/-- A wire carries the bits of its operand. -/
theorem carries_wire {name : Ident} (h : builder.Carries source bits) :
    ∃ value builder', Build.wire name source builder = .ok value builder' ∧
      builder'.Carries value bits := by
  obtain ⟨value, builder', hrun, hwidth, hresolves⟩ :=
    resolves_addCell (some name) (.cons h.toResolves .nil) (Wiring.outputBits_buffer bits) h.bitWidth
  exact ⟨value, builder', hrun, hresolves, h.length.trans hwidth.symm⟩

/-- A value keeps its bits under another type of its width. -/
theorem carries_bitcast {type : TypeId} (h : builder.Carries source bits)
    (htype : builder.types.bitWidth type = .ok source.width) :
    ∃ value builder', Build.bitcast source type builder = .ok value builder' ∧
      builder'.Carries value bits := by
  obtain ⟨value, builder', hrun, hwidth, hresolves⟩ :=
    resolves_addCell none (.cons h.toResolves .nil) (Wiring.outputBits_bitcast bits) htype
  exact ⟨value, builder', bitcast_eq_ok.mpr ⟨htype, hrun⟩, hresolves, h.length.trans hwidth.symm⟩

/-! ### Runs that answered -/

/-- An operation that has a certain answer gives no other. -/
theorem carries_of_run {operation : Build Value}
    (h : ∃ value builder', operation builder = .ok value builder' ∧ builder'.Carries value bits)
    (hrun : operation builder = .ok value builder') : builder'.Carries value bits := by
  obtain ⟨value', builder'', hrun', hcarries⟩ := h
  cases hrun.symm.trans hrun'
  exact hcarries

theorem carries_of_constant {pattern : Pattern} (hsound : builder.Sound)
    (hword : pattern.bits.length < wordBound)
    (hrun : Build.constant pattern builder = .ok value builder') :
    builder'.Carries value (pattern.bits.map .constant) := by
  obtain ⟨hzero, -⟩ := constant_eq_ok.mp hrun
  rw [Pattern.width_eq hword] at hzero
  exact carries_of_run (carries_constant hsound (Nat.pos_of_ne_zero hzero) hword) hrun

theorem carries_of_slice {low width : Nat} (hsound : builder.Sound) (h : builder.Carries source bits)
    (hrun : Build.slice source low width builder = .ok value builder') :
    builder'.Carries value ((bits.drop low).take width) := by
  obtain ⟨hzero, hrange, -⟩ := slice_eq_ok.mp hrun
  exact carries_of_run (carries_slice hsound h (Nat.pos_of_ne_zero hzero) hrange) hrun

theorem carries_of_concat {values : List Value} {inputs : List (List BitOrigin)}
    (hsound : builder.Sound) (h : List.Forall₂ builder.Carries values inputs)
    (hrun : Build.concat values builder = .ok value builder') :
    builder'.Carries value inputs.reverse.flatten := by
  obtain ⟨hzero, hword, -⟩ := concat_eq_ok.mp hrun
  rw [sum_width h] at hzero hword
  exact carries_of_run (carries_concat hsound h (Nat.pos_of_ne_zero hzero) hword) hrun

theorem carries_of_bitcast {type : TypeId} (h : builder.Carries source bits)
    (hrun : Build.bitcast source type builder = .ok value builder') :
    builder'.Carries value bits := by
  obtain ⟨hwidth, -⟩ := bitcast_eq_ok.mp hrun
  exact carries_of_run (carries_bitcast h hwidth) hrun

/-! ### Constants of any length -/

theorem shows_of_constant {pattern : Pattern} (hsound : builder.Sound)
    (hrun : Build.constant pattern builder = .ok value builder') :
    builder'.Shows value (pattern.bits.map .constant) := by
  obtain ⟨_, _, hrun', hshows⟩ := shows_constant hsound (constant_eq_ok.mp hrun).1
  obtain ⟨rfl, rfl⟩ := EStateM.Result.ok.inj (hrun'.symm.trans hrun)
  exact hshows

theorem shows_of_slice {low width : Nat} (hsound : builder.Sound) (h : builder.Shows source bits)
    (hrun : Build.slice source low width builder = .ok value builder') :
    builder'.Shows value ((bits.drop low).take width) := by
  obtain ⟨-, hrange, hcell⟩ := slice_eq_ok.mp hrun
  have hword := h.width_lt hsound
  -- the cut lies within the width, and so within the bits, of which there may be more
  have hbits := h.width_le
  have hsource : List.Forall₂ builder.Resolves [source] [bits] := .cons h.toResolves .nil
  obtain ⟨_, _, hcell', hwidth, hresolves⟩ := resolves_typedCell (.slice low width) hsound hsource
    (Wiring.outputBits_slice (by omega) (by omega)) (by omega : width < wordBound)
  obtain ⟨rfl, rfl⟩ := EStateM.Result.ok.inj (hcell'.symm.trans hcell)
  refine ⟨hresolves, ?_⟩
  rw [hwidth, length_cut (by omega), lowWord_of_lt (by omega)]

/-- The widths of values add up to what a word can count of their bits. -/
theorem lowWord_sum_width {values : List Value} {inputs : List (List BitOrigin)}
    (h : List.Forall₂ builder.Shows values inputs) :
    lowWord (values.map (·.width)).sum = lowWord inputs.flatten.length := by
  induction h with
  | nil => rfl
  | @cons value bits values inputs hshows _ ih =>
    rw [List.map_cons, List.sum_cons, List.flatten_cons, List.length_append, hshows.width]
    unfold lowWord at ih ⊢
    rw [Nat.mod_add_mod, Nat.add_mod, ih, ← Nat.add_mod]

theorem shows_of_concat {values : List Value} {inputs : List (List BitOrigin)}
    (hsound : builder.Sound) (h : List.Forall₂ builder.Shows values inputs)
    (hrun : Build.concat values builder = .ok value builder') :
    builder'.Shows value inputs.reverse.flatten := by
  obtain ⟨-, hword, hcell⟩ := concat_eq_ok.mp hrun
  obtain ⟨_, _, hcell', hwidth, hresolves⟩ :=
    resolves_typedCell .concat hsound (h.imp fun _ _ h => h.toResolves) rfl hword
  obtain ⟨rfl, rfl⟩ := EStateM.Result.ok.inj (hcell'.symm.trans hcell)
  refine ⟨hresolves, ?_⟩
  rw [hwidth, length_flatten_reverse, ← lowWord_sum_width h, lowWord_of_lt hword]

theorem shows_of_wire {name : Ident} (h : builder.Shows source bits)
    (hrun : Build.wire name source builder = .ok value builder') : builder'.Shows value bits := by
  obtain ⟨_, _, hrun', hwidth, hresolves⟩ :=
    resolves_addCell (some name) (.cons h.toResolves .nil) (Wiring.outputBits_buffer bits) h.bitWidth
  obtain ⟨rfl, rfl⟩ := EStateM.Result.ok.inj (hrun'.symm.trans hrun)
  exact ⟨hresolves, hwidth.trans h.width⟩

theorem shows_of_bitcast {type : TypeId} (h : builder.Shows source bits)
    (hrun : Build.bitcast source type builder = .ok value builder') : builder'.Shows value bits := by
  obtain ⟨htype, hcell⟩ := bitcast_eq_ok.mp hrun
  obtain ⟨_, _, hcell', hwidth, hresolves⟩ :=
    resolves_addCell none (.cons h.toResolves .nil) (Wiring.outputBits_bitcast bits) htype
  obtain ⟨rfl, rfl⟩ := EStateM.Result.ok.inj (hcell'.symm.trans hcell)
  exact ⟨hresolves, hwidth.trans h.width⟩

/-- A new port is no wider than a word can count. -/
theorem shows_of_input {name : String} {type : TypeId} (hsound : builder.Sound) (hsound' : builder'.Sound)
    (hrun : Build.input name type builder = .ok value builder') :
    builder'.Shows value ((List.range value.width).map (.input value.signal)) :=
  (carries_input hsound hrun).shows hsound'

end NetArray
