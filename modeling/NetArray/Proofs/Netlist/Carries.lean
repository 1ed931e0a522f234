import Mathlib
import NetArray.Proofs.Netlist.Growth

/-!
# The bits that a value carries

`Wiring.trace` follows a signal through the cells behind it, with a memo table and a bound on the depth.
`Wiring.Traces` says the same without the table: the bits of a signal, found through at most so many cells.
Both come together in three steps:

* `Traces.det` — a signal has at most one list of bits, so it does not matter which of several entries of a
  memo table is found;
* `Grows.traces` — a signal keeps its bits while the netlist grows, because the cells behind it stay;
* `finds_trace` — tracing with a table whose entries are right finds the bits, and leaves such a table.

`Builder.Carries builder value bits` adds what a caller can see of a value: it is the builder's own handle of
its signal, and it has one bit per unit of its width. The last part of the file gives, for each operation of
the builder, the bits that its result carries in terms of those of its operands.
-/

namespace NetArray

/-! ### Bits of a signal -/

/-- The bits of a signal, found through at most `depth` cells. A signal without a driver is a port. -/
def Wiring.Traces (wiring : Wiring) : (depth : Nat) → SignalId → List BitOrigin → Prop
  | 0, _, _ => False
  | depth + 1, signal, bits => ∃ entry width,
      wiring.signals.find? signal = some entry ∧ wiring.types.bitWidth entry.type = .ok width ∧
      match wiring.drivers.lookup signal with
      | none => entry.kind = .port ∧ bits = (List.range width).map (.input signal)
      | some id => ∃ cell inputs, wiring.cells.find? id = some cell ∧
          List.Forall₂ (Wiring.Traces wiring depth) cell.inputs inputs ∧
          cell.operation.outputBits inputs = .ok bits

namespace Wiring

variable {wiring : Wiring} {depth depth' : Nat} {signal : SignalId} {bits bits' : List BitOrigin}

/-- A port has bits of its own. -/
theorem traces_port {entry : Signal} {width : Nat} (hentry : wiring.signals.find? signal = some entry)
    (hwidth : wiring.types.bitWidth entry.type = .ok width) (hkind : entry.kind = .port)
    (hdriver : wiring.drivers.lookup signal = none) :
    wiring.Traces (depth + 1) signal ((List.range width).map (.input signal)) := by
  refine ⟨entry, width, hentry, hwidth, ?_⟩
  rw [hdriver]
  exact ⟨hkind, rfl⟩

/-- The output of a cell has the bits that the operation makes of those of the inputs. -/
theorem traces_cell {entry : Signal} {width : Nat} {id : CellId} {cell : Cell} {inputs : List (List BitOrigin)}
    (hentry : wiring.signals.find? signal = some entry) (hwidth : wiring.types.bitWidth entry.type = .ok width)
    (hdriver : wiring.drivers.lookup signal = some id) (hcell : wiring.cells.find? id = some cell)
    (hinputs : List.Forall₂ (wiring.Traces depth) cell.inputs inputs)
    (hbits : cell.operation.outputBits inputs = .ok bits) : wiring.Traces (depth + 1) signal bits := by
  refine ⟨entry, width, hentry, hwidth, ?_⟩
  rw [hdriver]
  exact ⟨cell, inputs, hcell, hinputs, hbits⟩

/-- A signal has at most one list of bits. -/
theorem Traces.det (h : wiring.Traces depth signal bits) (h' : wiring.Traces depth' signal bits') :
    bits = bits' := by
  induction depth generalizing depth' signal bits bits' with
  | zero => exact h.elim
  | succ depth ih =>
    cases depth' with
    | zero => exact h'.elim
    | succ depth' =>
      obtain ⟨entry, width, hentry, hwidth, h⟩ := h
      obtain ⟨entry', width', hentry', hwidth', h'⟩ := h'
      -- both look at the same signal, of the same width and with the same driver
      obtain rfl : entry = entry' := Option.some.inj (hentry.symm.trans hentry')
      obtain rfl : width = width' := Except.ok.inj (hwidth.symm.trans hwidth')
      cases hdriver : wiring.drivers.lookup signal with
      | none =>
        rw [hdriver] at h h'
        rw [h.2, h'.2]
      | some id =>
        rw [hdriver] at h h'
        obtain ⟨cell, inputs, hcell, hinputs, hbits⟩ := h
        obtain ⟨cell', inputs', hcell', hinputs', hbits'⟩ := h'
        obtain rfl : cell = cell' := Option.some.inj (hcell.symm.trans hcell')
        have heq : inputs = inputs' := forall₂_det hinputs hinputs' fun _ _ _ => ih
        rw [heq] at hbits
        exact Except.ok.inj (hbits.symm.trans hbits')

end Wiring

/-- A signal keeps its bits while the netlist grows. -/
theorem Builder.Grows.traces {builder builder' : Builder} (hgrows : builder.Grows builder')
    {depth depth' : Nat} (hdepth : depth ≤ depth') {signal : SignalId} {bits : List BitOrigin}
    (h : builder.wiring.Traces depth signal bits) : builder'.wiring.Traces depth' signal bits := by
  induction depth generalizing depth' signal bits with
  | zero => exact h.elim
  | succ depth ih =>
    obtain ⟨depth', rfl⟩ := Nat.exists_eq_add_one_of_ne_zero (n := depth') (by omega)
    obtain ⟨entry, width, hentry, hwidth, h⟩ := h
    refine ⟨entry, width, hgrows.signals hentry, hgrows.types.bitWidth hwidth, ?_⟩
    have hdriver : builder'.wiring.drivers.lookup signal = builder.wiring.drivers.lookup signal :=
      hgrows.drivers hentry
    rw [hdriver]
    cases hlookup : builder.wiring.drivers.lookup signal with
    | none =>
      rw [hlookup] at h
      exact h
    | some id =>
      rw [hlookup] at h
      obtain ⟨cell, inputs, hcell, hinputs, hbits⟩ := h
      exact ⟨cell, inputs, hgrows.cells hcell, hinputs.imp fun _ _ => ih (by omega), hbits⟩

/-! ### Tracing with a memo table -/

/-- Every entry of a memo table holds the bits of its signal. -/
def Traced.Right (wiring : Wiring) (traced : Traced) : Prop :=
  ∀ {signal bits}, (signal, bits) ∈ traced → ∃ depth, wiring.Traces depth signal bits

theorem Traced.Right.lookup {wiring : Wiring} {traced : Traced} (hright : traced.Right wiring)
    {depth : Nat} {signal : SignalId} {bits found : List BitOrigin}
    (h : wiring.Traces depth signal bits) (hfound : List.lookup signal traced = some found) :
    found = bits := by
  obtain ⟨earlier, later, heq, -⟩ := List.lookup_eq_some_iff.mp hfound
  have hmem : (signal, found) ∈ traced := by
    rw [heq]
    exact List.mem_append_right _ List.mem_cons_self
  obtain ⟨depth', h'⟩ := hright hmem
  exact h'.det h

namespace Wiring

variable {wiring : Wiring}

/-- What is to be shown of tracing: it finds the bits and leaves a right table. -/
private abbrev Finds {α : Type} (wiring : Wiring) (computation : StateT Traced Checked α) (a : α) :
    Prop :=
  ∀ traced : Traced, traced.Right wiring →
    ∃ traced' : Traced, computation traced = .ok (a, traced') ∧ traced'.Right wiring

private theorem get_bind_run {α : Type} {f : Traced → StateT Traced Checked α} {traced : Traced} :
    (get >>= f) traced = f traced traced := rfl

private theorem Finds.bind {α β : Type} {x : StateT Traced Checked α}
    {f : α → StateT Traced Checked β} {a : α} {b : β} (hx : Finds wiring x a)
    (hf : Finds wiring (f a) b) : Finds wiring (x >>= f) b := by
  intro traced hright
  obtain ⟨traced', hrun, hright'⟩ := hx traced hright
  obtain ⟨traced'', hrest, hright''⟩ := hf traced' hright'
  refine ⟨traced'', ?_, hright''⟩
  change (x traced >>= fun found => f found.1 found.2) = _
  rw [hrun]
  exact hrest

private theorem Finds.pure {α : Type} (a : α) : Finds wiring (pure a) a :=
  fun traced hright => ⟨traced, rfl, hright⟩

private theorem Finds.lift {α : Type} {x : Checked α} {a : α} (h : x = .ok a) :
    Finds wiring (liftM x) a := by
  rw [h]
  exact fun traced hright => ⟨traced, rfl, hright⟩

private theorem Finds.note {depth : Nat} {signal : SignalId} {bits : List BitOrigin}
    (h : wiring.Traces depth signal bits) : Finds wiring (modify ((signal, bits) :: ·)) .unit := by
  refine fun traced hright => ⟨(signal, bits) :: traced, rfl, fun hmem => ?_⟩
  rcases List.mem_cons.mp hmem with hnew | hold
  · cases hnew
    exact ⟨depth, h⟩
  · exact hright hold

private theorem finds_traceEach {R : SignalId → List BitOrigin → Prop}
    {trace : SignalId → StateT Traced Checked (List BitOrigin)}
    {signals : List SignalId} {inputs : List (List BitOrigin)} (h : List.Forall₂ R signals inputs)
    (htrace : ∀ signal bits, R signal bits → Finds wiring (trace signal) bits) :
    Finds wiring (traceEach trace signals) inputs := by
  induction h with
  | nil => exact .pure _
  | cons hbits _ ih => exact .bind (htrace _ _ hbits) (.bind ih (.pure _))

/-- **Tracing with a memo table.** As long as the entries of the table are right, tracing finds the bits
of the signal, and the table that it leaves is right again. -/
theorem finds_trace {depth : Nat} {signal : SignalId} {bits : List BitOrigin}
    (h : wiring.Traces depth signal bits) : Finds wiring (wiring.trace depth signal) bits := by
  induction depth generalizing signal bits with
  | zero => exact h.elim
  | succ depth ih =>
    intro traced hright
    rw [trace]
    cases hlookup : List.lookup signal traced with
    | some found =>
      refine ⟨traced, ?_, hright⟩
      rw [← hright.lookup h hlookup]
      rw [get_bind_run, hlookup]
      rfl
    | none =>
      have hnote := Finds.note h
      obtain ⟨entry, width, hentry, hwidth, h⟩ := h
      -- from here on the operation is followed line by line
      rw [get_bind_run, hlookup]
      refine Finds.bind (.lift (Table.get_eq_ok.mpr hentry)) ?_ traced hright
      refine Finds.bind (.lift hwidth) ?_
      cases hdriver : wiring.drivers.lookup signal with
      | none =>
        rw [hdriver] at h
        obtain ⟨-, rfl⟩ := h
        exact .bind (.pure _) (.bind hnote (.pure _))
      | some id =>
        rw [hdriver] at h
        obtain ⟨cell, inputs, hcell, hinputs, hbits⟩ := h
        refine Finds.bind (.lift (Table.get_eq_ok.mpr hcell)) ?_
        have hrest : Finds wiring (do
            let bits ← cell.operation.outputBits inputs
            modify ((signal, bits) :: ·)
            return bits) bits := .bind (.lift hbits) (.bind hnote (.pure _))
        have heach := finds_traceEach hinputs fun _ _ => ih
        cases hoperation : cell.operation with
        | constant pattern =>
          -- a constant has no use for its inputs
          rw [hoperation] at hrest
          exact .bind (.pure []) hrest
        | slice offset width => rw [hoperation] at hrest; exact .bind heach hrest
        | concat => rw [hoperation] at hrest; exact .bind heach hrest
        | buffer => rw [hoperation] at hrest; exact .bind heach hrest
        | bitcast => rw [hoperation] at hrest; exact .bind heach hrest

/-- The bits of a signal that is behind no more cells than there are. -/
theorem origins_eq {signal : SignalId} {bits : List BitOrigin}
    (h : wiring.Traces (wiring.cells.size + 1) signal bits) : wiring.origins signal = .ok bits := by
  obtain ⟨traced, hrun, -⟩ := finds_trace h [] fun hmem => nomatch hmem
  change (Prod.fst <$> wiring.trace (wiring.cells.size + 1) signal []) = _
  rw [hrun]
  rfl

/-! ### Where the bits come from -/

theorem cutOut_eq_ok {α : Type} {items cut : List α} {low width : Nat} :
    cutOut items low width = .ok cut ↔
      low + width < wordBound ∧ low + width ≤ items.length ∧ cut = (items.drop low).take width := by
  simp only [cutOut, bind_eq_ok, word_eq_ok]
  constructor
  · rintro ⟨_, ⟨hword, rfl⟩, h⟩
    split at h
    · next hstop => exact ⟨hword, hstop, (pure_eq_ok.mp h).symm⟩
    · exact (throw_eq_ok.mp h).elim
  · rintro ⟨hword, hstop, rfl⟩
    refine ⟨_, ⟨hword, rfl⟩, ?_⟩
    rw [if_pos hstop, pure_eq_ok]

/-- A cell of one operand hands its bits on, or cuts some of them out. -/
theorem outputBits_buffer (bits : List BitOrigin) : Operation.outputBits [bits] .buffer = .ok bits := by
  rw [Operation.outputBits, List.flatten_singleton]

theorem outputBits_bitcast (bits : List BitOrigin) : Operation.outputBits [bits] .bitcast = .ok bits := by
  rw [Operation.outputBits, List.flatten_singleton]

theorem outputBits_slice {bits : List BitOrigin} {low width : Nat} (hword : low + width < wordBound)
    (hrange : low + width ≤ bits.length) :
    Operation.outputBits [bits] (.slice low width) = .ok ((bits.drop low).take width) := by
  rw [Operation.outputBits, List.flatten_singleton]
  exact cutOut_eq_ok.mpr ⟨hword, hrange, rfl⟩

/-- A cell makes no input bits of its own. -/
theorem mem_of_outputBits {operation : Operation} {inputs : List (List BitOrigin)}
    {bits : List BitOrigin} (h : operation.outputBits inputs = .ok bits) {signal : SignalId} {bit : Nat}
    (hmem : .input signal bit ∈ bits) : ∃ part ∈ inputs, .input signal bit ∈ part := by
  cases operation with
  | constant pattern =>
    cases h
    obtain ⟨value, -, heq⟩ := List.mem_map.mp hmem
    cases heq
  | slice offset width =>
    obtain ⟨-, -, rfl⟩ := cutOut_eq_ok.mp h
    exact List.mem_flatten.mp (List.mem_of_mem_drop (List.mem_of_mem_take hmem))
  | concat =>
    cases h
    obtain ⟨part, hpart, hbit⟩ := List.mem_flatten.mp hmem
    exact ⟨part, List.mem_reverse.mp hpart, hbit⟩
  | buffer => cases h; exact List.mem_flatten.mp hmem
  | bitcast => cases h; exact List.mem_flatten.mp hmem

/-- An input bit is a bit of a port, within its width. -/
theorem Traces.port {depth : Nat} {signal : SignalId} {bits : List BitOrigin}
    (h : wiring.Traces depth signal bits) {port : SignalId} {bit : Nat}
    (hmem : .input port bit ∈ bits) :
    ∃ entry width, wiring.signals.find? port = some entry ∧ entry.kind = .port ∧
      wiring.types.bitWidth entry.type = .ok width ∧ bit < width := by
  induction depth generalizing signal bits with
  | zero => exact h.elim
  | succ depth ih =>
    obtain ⟨entry, width, hentry, hwidth, h⟩ := h
    cases hdriver : wiring.drivers.lookup signal with
    | none =>
      -- the signal is the port itself
      rw [hdriver] at h
      obtain ⟨hkind, rfl⟩ := h
      obtain ⟨number, hnumber, heq⟩ := List.mem_map.mp hmem
      cases heq
      exact ⟨entry, width, hentry, hkind, hwidth, List.mem_range.mp hnumber⟩
    | some id =>
      -- the bit comes from an input of the cell
      rw [hdriver] at h
      obtain ⟨cell, inputs, -, hinputs, hbits⟩ := h
      obtain ⟨part, hpart, hbit⟩ := mem_of_outputBits hbits hmem
      obtain ⟨place, hplace, rfl⟩ := List.mem_iff_getElem.mp hpart
      have hcell : place < cell.inputs.length := by rwa [hinputs.length_eq]
      exact ih (List.forall₂_iff_get.mp hinputs |>.2 place hcell hplace) hbit

end Wiring

/-! ### The bits of a value -/

namespace Builder

/-- The value is the builder's own handle of its signal, and the signal has these bits. -/
structure Resolves (builder : Builder) (value : Value) (bits : List BitOrigin) : Prop where
  /-- The handle has the type and the width of the signal. -/
  handle : builder.valueOf value.signal = .ok value
  /-- The cells behind the signal lead to these bits. -/
  traces : builder.wiring.Traces (builder.cells.size + 1) value.signal bits

/-- The value has these bits, and its width counts them as far as a word can count. -/
structure Shows (builder : Builder) (value : Value) (bits : List BitOrigin) : Prop
    extends builder.Resolves value bits where
  /-- Only of a constant that is too long can there be more bits than this. -/
  width : value.width = lowWord bits.length

/-- The value has these bits, one for each unit of its width. -/
structure Carries (builder : Builder) (value : Value) (bits : List BitOrigin) : Prop
    extends builder.Resolves value bits where
  /-- There is a bit for each unit of the width. -/
  length : bits.length = value.width

variable {builder builder' : Builder} {value : Value} {bits : List BitOrigin}

/-- A value has the same bits for good. -/
theorem Resolves.mono (h : builder.Resolves value bits) (hgrows : builder.Grows builder') :
    builder'.Resolves value bits :=
  ⟨hgrows.valueOf h.handle, hgrows.traces (Nat.succ_le_succ hgrows.cells_size) h.traces⟩

theorem Resolves.det {bits' : List BitOrigin} (h : builder.Resolves value bits)
    (h' : builder.Resolves value bits') : bits = bits' :=
  h.traces.det h'.traces

/-- The resolver finds the bits that a value has. -/
theorem Resolves.origins (h : builder.Resolves value bits) : builder.origins value = .ok bits :=
  Wiring.origins_eq h.traces

/-- The width of a value is a machine word. -/
theorem Resolves.width_lt (hsound : builder.Sound) (h : builder.Resolves value bits) :
    value.width < wordBound := by
  obtain ⟨-, entry, -, -, hwidth⟩ := valueOf_eq_ok.mp h.handle
  exact hsound.types.bitWidth_lt hwidth

/-- The type of a value has its width. -/
theorem Resolves.bitWidth (h : builder.Resolves value bits) :
    builder.types.bitWidth value.type = .ok value.width :=
  bitWidth_of_valueOf h.handle

theorem Shows.mono (h : builder.Shows value bits) (hgrows : builder.Grows builder') :
    builder'.Shows value bits :=
  ⟨h.toResolves.mono hgrows, h.width⟩

/-- Bits that are not too many for a width are counted by it. -/
theorem Shows.carries (h : builder.Shows value bits) (hword : bits.length < wordBound) :
    builder.Carries value bits := by
  refine ⟨h.toResolves, ?_⟩
  rw [h.width, lowWord_of_lt hword]

/-- Bits that are counted by a width are not too many for it. -/
theorem Carries.shows (hsound : builder.Sound) (h : builder.Carries value bits) : builder.Shows value bits := by
  have hword := h.width_lt hsound
  refine ⟨h.toResolves, ?_⟩
  rw [h.length, lowWord_of_lt hword]

/-- There are at least as many bits as the width says. -/
theorem Shows.width_le (h : builder.Shows value bits) : value.width ≤ bits.length := by
  rw [h.width]
  exact Nat.mod_le _ _

theorem Carries.mono (h : builder.Carries value bits) (hgrows : builder.Grows builder') :
    builder'.Carries value bits :=
  ⟨h.toResolves.mono hgrows, h.length⟩

theorem Carries.det {bits' : List BitOrigin} (h : builder.Carries value bits)
    (h' : builder.Carries value bits') : bits = bits' :=
  h.toResolves.det h'.toResolves

/-- Two values of one signal are the same value. -/
theorem Carries.eq_of_signal {value' : Value} {bits' : List BitOrigin}
    (h : builder.Carries value bits) (h' : builder.Carries value' bits')
    (hsignal : value.signal = value'.signal) : value = value' := by
  have := h.handle
  rw [hsignal, h'.handle] at this
  exact (Except.ok.inj this).symm

end Builder

end NetArray
