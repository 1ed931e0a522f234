import Mathlib
import NetArray.Proofs.Netlist.Runs

/-!
# Signals that have bits

A caller who knows the id of a signal can ask the builder for its value, whichever operation made the signal.
Such a value carries bits too, because every signal is an input port or the output of a cell whose inputs have
bits (`Builder.Grounded`, `Grounded.carries`).

An operation keeps this whatever its outcome, as long as its operands carry bits: what it adds before it fails is
nothing, or a port, or a whole cell. There is one lemma for each operation that adds a signal, and
`Call.grounded_perform` for a call of any of them.
-/

namespace NetArray

namespace Builder

/-- Every signal is a port that nothing drives, or has bits. -/
def Grounded (builder : Builder) : Prop :=
  ∀ (id : SignalId) (entry : Signal), builder.signals.find? id = some entry →
    (entry.kind = .port ∧ builder.drivers.lookup id = none) ∨
      ∃ value bits, value.signal = id ∧ builder.Carries value bits

theorem grounded_start (names : Names) (name : String) : (start names name).Grounded :=
  fun _ _ h => absurd (Table.find?_lt h) (Nat.not_lt_zero _)

namespace Grounded

variable {builder builder' : Builder}

/-- A handle of the builder's own carries bits. -/
theorem carries (h : builder.Grounded) {signal : SignalId} {value : Value}
    (hvalue : builder.valueOf signal = .ok value) : ∃ bits, builder.Carries value bits := by
  obtain ⟨rfl, entry, hentry, -, hwidth⟩ := valueOf_eq_ok.mp hvalue
  rcases h _ _ hentry with ⟨hkind, hdriver⟩ | ⟨value', bits, hsignal, hcarries⟩
  · -- a port has bits of its own, as many as its type says
    exact ⟨_, ⟨hvalue, Wiring.traces_port hentry hwidth hkind hdriver⟩, by simp⟩
  · rw [← hsignal, hcarries.handle] at hvalue
    obtain rfl := Except.ok.inj hvalue
    exact ⟨bits, hcarries⟩

/-- Signals that were there stay as they are. -/
theorem of_grows (h : builder.Grounded) (hgrows : builder.Grows builder') {id : SignalId} {entry : Signal}
    (hentry : builder.signals.find? id = some entry) :
    (entry.kind = .port ∧ builder'.drivers.lookup id = none) ∨
      ∃ value bits, value.signal = id ∧ builder'.Carries value bits := by
  rcases h _ _ hentry with ⟨hkind, hdriver⟩ | ⟨value, bits, hsignal, hcarries⟩
  · exact .inl ⟨hkind, (hgrows.drivers hentry).trans hdriver⟩
  · exact .inr ⟨value, bits, hsignal, hcarries.mono hgrows⟩

theorem of_signals_eq (h : builder.Grounded) (hgrows : builder.Grows builder')
    (hsignals : builder'.signals = builder.signals) : builder'.Grounded := by
  intro id entry hentry
  rw [hsignals] at hentry
  exact h.of_grows hgrows hentry

/-- One more signal, which is a port or has bits. -/
theorem of_push (h : builder.Grounded) (hgrows : builder.Grows builder') {new : Signal}
    (hsignals : builder'.signals = builder.signals.push new)
    (hnew : (new.kind = .port ∧ builder'.drivers.lookup ⟨builder.signals.size⟩ = none) ∨
      ∃ value bits, value.signal = ⟨builder.signals.size⟩ ∧ builder'.Carries value bits) :
    builder'.Grounded := by
  intro id entry hentry
  rw [hsignals] at hentry
  rcases Table.of_find?_push hentry with hold | ⟨hslot, rfl⟩
  · exact h.of_grows hgrows hold
  · have hid : id = ⟨builder.signals.size⟩ := congrArg SignalId.mk hslot
    rw [hid]
    exact hnew

end Grounded

end Builder

/-! ### One operation -/

open Builder

namespace Builder.Grounded

variable {builder : Builder} {inputs : List (List BitOrigin)} {bits : List BitOrigin} {source : Value}

/-- **A new cell.** Its output has bits, for its operands have. -/
theorem addCell (h : builder.Grounded) {operation : Operation} {type : TypeId} (operands : List Value)
    (name : Option Ident) (hoperands : List.Forall₂ builder.Carries operands inputs)
    (hbits : operation.outputBits inputs = .ok bits) (htype : builder.types.bitWidth type = .ok bits.length) :
    (finalState (Build.addCell operation (operands.map (·.signal)) type name builder)).Grounded := by
  obtain ⟨value, builder', hrun, hwidth, hresolves⟩ :=
    resolves_addCell name (forall₂_resolves hoperands) hbits htype
  have hgrows := (keeps_addCell operation (operands.map (·.signal)) type name).ok hrun
  rw [hrun]
  obtain ⟨names, cellName, outName, pins, hcell, -⟩ :=
    addCell_run operation (operands.map (·.signal)) type name builder
  rw [hcell, build_valueOf, change_lift_checked_eq_ok] at hrun
  obtain ⟨hvalue, rfl⟩ := hrun
  have hsignal := (valueOf_eq_ok.mp hvalue).1
  exact h.of_push hgrows rfl (.inr ⟨value, bits, hsignal, hresolves, hwidth.symm⟩)

/-- A new cell of a new type. -/
theorem typedCell (h : builder.Grounded) (hsound : builder.Sound) {operation : Operation} {width : Nat}
    (operands : List Value) (hoperands : List.Forall₂ builder.Carries operands inputs)
    (hbits : operation.outputBits inputs = .ok bits) (hlength : bits.length = width) (hword : width < wordBound) :
    (finalState ((do Build.addCell operation (operands.map Value.signal) (← Build.bitsType width) none :
      Build Value) builder)).Grounded := by
  have hgrows := keeps_bitsType hword builder
  refine finalState_bind (h.of_signals_eq hgrows rfl) fun type middle hrun => ?_
  cases hrun
  have hmiddle : Grounded (finalState (Build.bitsType width builder)) := h.of_signals_eq hgrows rfl
  refine hmiddle.addCell operands none (hoperands.imp fun _ _ h => h.mono hgrows) hbits ?_
  rw [hlength]
  exact hsound.types.bitWidth_bits hword

/-- A port is there even if it has no width. -/
theorem input (h : builder.Grounded) (hsound : builder.Sound) (name : String) (type : TypeId) :
    (finalState (Build.input name type builder)).Grounded := by
  have hgrows := keeps_input name type builder
  rw [input_run, valueOf_final] at hgrows ⊢
  exact h.of_push hgrows rfl (.inl ⟨rfl, lookup_next hsound⟩)

theorem constant (h : builder.Grounded) (hsound : builder.Sound) {pattern : Pattern}
    (hword : pattern.bits.length < wordBound) : (finalState (Build.constant pattern builder)).Grounded := by
  refine finalState_guard h fun _ => ?_
  refine h.typedCell hsound [] .nil rfl ?_ pattern.width_lt
  rw [List.length_map, Pattern.width_eq hword]

theorem slice (h : builder.Grounded) (hsound : builder.Sound) {low width : Nat}
    (hsource : builder.Carries source bits) : (finalState (Build.slice source low width builder)).Grounded := by
  refine finalState_guard h fun _ => finalState_guard h fun hrange => ?_
  have hword := hsource.width_lt hsound
  have hlength := hsource.length
  exact h.typedCell hsound [source] (.cons hsource .nil) (Wiring.outputBits_slice (by omega) (by omega))
    (length_cut (by omega)) (by omega)

theorem concat (h : builder.Grounded) (hsound : builder.Sound) {operands : List Value}
    (hoperands : List.Forall₂ builder.Carries operands inputs) :
    (finalState (Build.concat operands builder)).Grounded := by
  refine finalState_lift_checked_bind h fun width hwidth => finalState_guard h fun _ => ?_
  obtain ⟨rfl, hword⟩ := totalWidth_eq_ok (by decide) hwidth
  refine h.typedCell hsound operands hoperands rfl ?_ hword
  rw [length_flatten_reverse, Nat.zero_add, sum_width hoperands]

theorem wire (h : builder.Grounded) {name : Ident} (hsource : builder.Carries source bits) :
    (finalState (Build.wire name source builder)).Grounded := by
  refine h.addCell [source] (some name) (.cons hsource .nil) (Wiring.outputBits_buffer bits) ?_
  rw [hsource.length]
  exact hsource.bitWidth

theorem bitcast (h : builder.Grounded) {type : TypeId} (hsource : builder.Carries source bits) :
    (finalState (Build.bitcast source type builder)).Grounded := by
  refine finalState_lift_checked_bind h fun width hwidth => finalState_guard h fun heq => ?_
  refine h.addCell [source] none (.cons hsource .nil) (Wiring.outputBits_bitcast bits) ?_
  rw [hsource.length, hwidth, not_not.mp heq]

/-- Driving a port adds no signal. -/
theorem drive (h : builder.Grounded) (port : PortId) (value : Value) :
    (finalState (Build.drive port value builder)).Grounded := by
  have hgrows := keeps_drive port value builder
  refine h.of_signals_eq hgrows ?_
  have houtcome := builder.drive_outcome port value
  cases hrun : Build.drive port value builder with
  | ok u builder' =>
    rw [hrun] at houtcome
    cases houtcome
    rfl
  | error failure builder' =>
    rw [hrun] at houtcome
    cases houtcome <;> rfl

end Builder.Grounded

/-! ### One call -/

namespace Call

/-- **One call.** Whatever its outcome, every signal is a port or has bits. -/
theorem grounded_perform {call : Call} {builder : Builder} (h : builder.Grounded) (hsound : builder.Sound)
    (hfits : call.Fits) (hoperands : ∀ value ∈ call.operands, ∃ bits, builder.Carries value bits) :
    (finalState (call.perform builder)).Grounded := by
  -- what a call does with its answer leaves the builder alone
  cases call with
  | input name type =>
    rw [perform, finalState_map]
    exact h.input hsound name type
  | constant pattern =>
    rw [perform, finalState_map]
    exact h.constant hsound hfits
  | slice source low width =>
    obtain ⟨bits, hsource⟩ := hoperands source (List.mem_singleton_self _)
    rw [perform, finalState_map]
    exact h.slice hsound hsource
  | concat operands =>
    obtain ⟨inputs, hinputs⟩ := exists_forall₂ hoperands
    rw [perform, finalState_map]
    exact h.concat hsound hinputs
  | wire name source =>
    obtain ⟨bits, hsource⟩ := hoperands source (List.mem_singleton_self _)
    rw [perform, finalState_map]
    exact h.wire hsource
  | bitcast source type =>
    obtain ⟨bits, hsource⟩ := hoperands source (List.mem_singleton_self _)
    rw [perform, finalState_map]
    exact h.bitcast hsource
  | drive port value =>
    rw [perform, finalState_bind_pure]
    exact h.drive port value
  -- the other calls add no signal
  | output | internType | internArray | intern | fresh =>
    exact h.of_signals_eq (keeps_perform hfits.words builder) rfl
  | uniqueName name =>
    obtain ⟨ident, names, hrun⟩ := uniqueName_run name builder
    refine h.of_signals_eq (keeps_perform hfits.words builder) ?_
    rw [perform, finalState_bind_pure, hrun]
    rfl

end Call

end NetArray
