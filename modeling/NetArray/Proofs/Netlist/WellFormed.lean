import Mathlib
import NetArray.Proofs.Netlist.Edits

/-!
# Well-formed netlists

A builder keeps five tables that refer to one another: types, signals, cells, ports and drivers. Whoever reads a
netlist looks things up in them without asking, so what one table says of another has to be true.

`Builder.WellFormed` says what holds of the tables together:

* ids are positions, as far as they can count them;
* a signal of kind port comes from one input port and from no cell, a signal of kind wire from one cell and from
  no port (`Builder.sources`);
* a cell has one output, listed last, its inputs are older than its output, and the widths suit its operation
  (`Builder.Drives`);
* an output port that is driven has a signal of its width;
* the drivers are those that the cells say they are.

One edit keeps all this (`WellFormed.edit`, by cases on the edit), and so does every run of calls of which none
faults (`Draft.wellFormed_of_runs`). An edit also leaves alone every port that has a signal already
(`Builder.Settles`), so what drives an output port never changes.

The ids of ports are words: they tell the ports apart only while a netlist has no more of them than words can
number (`Builder.IdsSuffice`), and the next port has the id of the first one (`Draft.port_id_of_manyOutputs`).
-/

namespace NetArray

/-! ### What the tables say of one another -/

/-- The port is where the signal enters the netlist. -/
def Port.feeds (port : Port) (signal : SignalId) : Bool :=
  port.direction = .input && port.signal = some signal

/-- The number of input ports and the number of cells that a signal of a kind comes from. -/
def SignalKind.sources : SignalKind → Nat × Nat
  | .port => (1, 0)
  | .wire => (0, 1)

/-- The pins of the cell are any number of inputs and then one output, which is at the signal. -/
def Cell.EndsAt (cell : Cell) (signal : SignalId) : Prop :=
  ∃ inputs output, cell.pins = inputs ++ [output] ∧ (∀ pin ∈ inputs, pin.direction = .input) ∧
    output.direction = .output ∧ output.signal = signal

theorem Cell.EndsAt.output? {cell : Cell} {signal : SignalId} (h : cell.EndsAt signal) :
    cell.output? = some signal := by
  obtain ⟨inputs, output, hpins, hinput, houtput, rfl⟩ := h
  have hnone : inputs.find? (·.direction = .output) = none := by
    rw [List.find?_eq_none]
    intro pin hpin
    rw [hinput pin hpin]
    decide
  rw [Cell.output?, hpins, List.find?_append, hnone]
  simp [houtput]

namespace Builder

/-- How many input ports and how many cells a signal comes from. -/
def sources (builder : Builder) (signal : SignalId) : Nat × Nat :=
  (builder.ports.countP (·.feeds signal),
    builder.cells.items.countP fun cell => cell.output? = some signal)

/-- What holds of a cell and the value that it drives. -/
structure Drives (builder : Builder) (cell : Cell) (output : Value) : Prop where
  /-- The one output pin of the cell is its last pin. -/
  pins : cell.EndsAt output.signal
  /-- The value is the builder's own. -/
  handle : builder.valueOf output.signal = .ok output
  /-- The inputs are older signals, of widths that suit the operation. -/
  operands : ∃ operands : List Value,
    List.Forall₂ (fun signal operand => builder.valueOf signal = .ok operand ∧
      signal.index < output.signal.index) cell.inputs operands ∧
    cell.operation.Sizes (operands.map (·.width)) output.width

/-- What holds of the tables of a builder together. -/
structure WellFormed (builder : Builder) : Prop where
  signal_id : ∀ {id : SignalId} {signal : Signal}, builder.signals.find? id = some signal →
    signal.id = id
  cell_id : ∀ {id : CellId} {cell : Cell}, builder.cells.find? id = some cell → cell.id = id
  /-- A port is stored under what a word keeps of its place. -/
  port_id : ∀ {place : Nat} {port : Port}, builder.ports[place]? = some port → port.id = ⟨lowWord place⟩
  /-- A signal comes from one input port or from one cell, as its kind says. -/
  sources : ∀ {id : SignalId} {signal : Signal}, builder.signals.find? id = some signal →
    builder.sources id = signal.kind.sources
  /-- Behind an input port there is a signal of kind port, with the name and the type of the port. -/
  inputs : ∀ {port : Port}, port ∈ builder.ports → port.direction = .input →
    ∃ id signal, port.signal = some id ∧ builder.signals.find? id = some signal ∧
      signal.kind = .port ∧ signal.name = port.name ∧ signal.type = port.type
  /-- An output port that is driven has a signal of its width. -/
  outputs : ∀ {port : Port} {id : SignalId}, port ∈ builder.ports → port.direction = .output →
    port.signal = some id →
    ∃ value, builder.valueOf id = .ok value ∧ builder.types.bitWidth port.type = .ok value.width
  /-- Every cell drives a value that suits it. -/
  cells : ∀ {id : CellId} {cell : Cell}, builder.cells.find? id = some cell →
    ∃ output, builder.Drives cell output
  /-- A cell is listed as the driver of a signal just when the signal is its output. -/
  drivers : ∀ {signal : SignalId} {id : CellId}, builder.drivers.lookup signal = some id ↔
    ∃ cell, builder.cells.find? id = some cell ∧ cell.output? = some signal

/-- Words can number the signals, the cells and the ports. -/
structure IdsSuffice (builder : Builder) : Prop where
  signals : builder.signals.size ≤ wordBound
  cells : builder.cells.size ≤ wordBound
  ports : builder.ports.length ≤ wordBound

instance (builder : Builder) : Decidable builder.IdsSuffice :=
  decidable_of_iff (_ ∧ _ ∧ _) ⟨fun h => ⟨h.1, h.2.1, h.2.2⟩, fun h => ⟨h.signals, h.cells, h.ports⟩⟩

/-- The ids of signals, cells and ports are their places, and words. -/
structure NumbersParts (builder : Builder) : Prop where
  signal : ∀ {place : Nat} {signal : Signal}, builder.signals.items[place]? = some signal →
    signal.id = ⟨place⟩ ∧ place < wordBound
  cell : ∀ {place : Nat} {cell : Cell}, builder.cells.items[place]? = some cell →
    cell.id = ⟨place⟩ ∧ place < wordBound
  port : ∀ {place : Nat} {port : Port}, builder.ports[place]? = some port →
    port.id = ⟨place⟩ ∧ place < wordBound

/-- Ports that have a signal are left as they are. -/
def Settles (builder builder' : Builder) : Prop :=
  ∀ (place : Nat) (port : Port), builder.ports[place]? = some port → port.signal.isSome →
    builder'.ports[place]? = some port

variable {builder builder' builder'' : Builder} {cell : Cell} {output : Value}

theorem Drives.mono (h : builder.Drives cell output) (hgrows : builder.Grows builder') :
    builder'.Drives cell output := by
  obtain ⟨operands, hoperands, hsizes⟩ := h.operands
  refine ⟨h.pins, hgrows.valueOf h.handle, operands, ?_, hsizes⟩
  exact hoperands.imp fun _ _ ⟨hvalue, hlt⟩ => ⟨hgrows.valueOf hvalue, hlt⟩

/-- A signal of a builder is not the next one. -/
theorem ne_next {id : SignalId} {signal : Signal} (h : builder.signals.find? id = some signal) :
    id ≠ ⟨builder.signals.size⟩ := by
  rintro rfl
  exact lt_irrefl _ (Table.find?_lt h)

theorem lt_of_valueOf {signal : SignalId} {value : Value} (h : builder.valueOf signal = .ok value) :
    signal.index < builder.signals.size := by
  obtain ⟨-, entry, hentry, -, -⟩ := valueOf_eq_ok.mp h
  exact Table.find?_lt hentry

/-- What the output of a cell is, is a signal of the builder. -/
theorem WellFormed.output_lt (h : builder.WellFormed) {id : CellId} {signal : SignalId}
    (hcell : builder.cells.find? id = some cell) (houtput : cell.output? = some signal) :
    signal.index < builder.signals.size := by
  obtain ⟨output, hdrives⟩ := h.cells hcell
  obtain rfl := Option.some.inj (hdrives.pins.output?.symm.trans houtput)
  exact lt_of_valueOf hdrives.handle

/-- A signal that is not there yet comes from nowhere. -/
theorem WellFormed.sources_next (h : builder.WellFormed) :
    builder.sources ⟨builder.signals.size⟩ = (0, 0) := by
  have hports : builder.ports.countP (·.feeds ⟨builder.signals.size⟩) = 0 := by
    rw [List.countP_eq_zero]
    intro port hport hfeeds
    obtain ⟨hdirection, hsignal⟩ := Bool.and_eq_true_iff.mp hfeeds
    obtain ⟨id, signal, hid, hfind, -⟩ := h.inputs hport (of_decide_eq_true hdirection)
    rw [hid] at hsignal
    obtain rfl := Option.some.inj (of_decide_eq_true hsignal)
    exact lt_irrefl _ (Table.find?_lt hfind)
  have hcells : builder.cells.items.countP
      (fun cell => cell.output? = some ⟨builder.signals.size⟩) = 0 := by
    rw [Array.countP_eq_zero]
    intro cell hcell houtput
    obtain ⟨place, hplace⟩ := Array.mem_iff_getElem?.mp hcell
    have hfind : builder.cells.find? ⟨place⟩ = some cell := hplace
    exact lt_irrefl _ (h.output_lt hfind (of_decide_eq_true houtput))
  rw [Builder.sources, hports, hcells]

/-- While words suffice, every id is a place. -/
theorem WellFormed.numbersParts (h : builder.WellFormed) (hids : builder.IdsSuffice) :
    builder.NumbersParts where
  signal {place signal} hsignal := by
    have hfind : builder.signals.find? ⟨place⟩ = some signal := hsignal
    exact ⟨h.signal_id hfind, (Table.find?_lt hfind).trans_le hids.signals⟩
  cell {place cell} hcell := by
    have hfind : builder.cells.find? ⟨place⟩ = some cell := hcell
    exact ⟨h.cell_id hfind, (Table.find?_lt hfind).trans_le hids.cells⟩
  port {place port} hport := by
    obtain ⟨hplace, -⟩ := List.getElem?_eq_some_iff.mp hport
    have hword := hplace.trans_le hids.ports
    refine ⟨?_, hword⟩
    rw [h.port_id hport, lowWord_of_lt hword]

/-! ### Edits -/

theorem wellFormed_start (names : Names) (name : String) : (start names name).WellFormed where
  signal_id h := absurd (Table.find?_lt h) (Nat.not_lt_zero _)
  cell_id h := absurd (Table.find?_lt h) (Nat.not_lt_zero _)
  port_id h := nomatch h
  sources h := absurd (Table.find?_lt h) (Nat.not_lt_zero _)
  inputs h := nomatch h
  outputs h := nomatch h
  cells h := absurd (Table.find?_lt h) (Nat.not_lt_zero _)
  drivers := ⟨nofun, fun ⟨_, h, _⟩ => absurd (Table.find?_lt h) (Nat.not_lt_zero _)⟩

/-- What is found in a list with one more item was there before or is that item. -/
private theorem of_getElem?_concat {α : Type} {items : List α} {new item : α} {place : Nat}
    (h : (items ++ [new])[place]? = some item) :
    items[place]? = some item ∨ place = items.length ∧ item = new := by
  rw [List.getElem?_append] at h
  split at h
  · exact .inl h
  · -- the only place after the last item is the first of the rest
    next hlength =>
    obtain ⟨hlt, heq⟩ := List.getElem?_eq_some_iff.mp h
    rw [List.length_singleton] at hlt
    refine .inr ⟨by omega, ?_⟩
    rw [← heq, List.getElem_singleton]

theorem feeds_of_output (port : Port) (h : port.direction = .output) (signal : SignalId) :
    port.feeds signal = false := by
  rw [Port.feeds, h]
  rfl

section Sources

variable (builder) (names : Names) (name signalName cellName outName : Ident) (type : TypeId)
  (operation : Operation)

/-- A new input port is one more source of the new signal. -/
theorem sources_withPort (id : SignalId) : (builder.withPort names name type).sources id
    = ((builder.sources id).1 + if id = ⟨builder.signals.size⟩ then 1 else 0, (builder.sources id).2) := by
  have hfeeds : Port.feeds ⟨⟨lowWord builder.ports.length⟩, name, .input, type, some ⟨builder.signals.size⟩⟩ id
      = decide (id = ⟨builder.signals.size⟩) := by
    simp [Port.feeds, eq_comm]
  change (List.countP (·.feeds id) (builder.ports ++ [_]), (builder.sources id).2) = _
  rw [List.countP_append, List.countP_singleton, hfeeds]
  simp [sources]

/-- A new cell is one more source of the new signal. -/
theorem sources_withCell {pins : List Pin} (hinput : ∀ pin ∈ pins, pin.direction = .input)
    (id : SignalId) :
    (builder.withCell names signalName cellName outName type operation pins).sources id
      = ((builder.sources id).1, (builder.sources id).2 + if id = ⟨builder.signals.size⟩ then 1 else 0) := by
  have hpins : Cell.EndsAt ⟨⟨builder.cells.size⟩, cellName, operation,
      pins ++ [⟨outName, .output, ⟨builder.signals.size⟩⟩]⟩ ⟨builder.signals.size⟩ :=
    ⟨pins, _, rfl, hinput, rfl, rfl⟩
  change ((builder.sources id).1, Array.countP _ (builder.cells.items.push _)) = _
  rw [Array.countP_push, hpins.output?]
  simp [sources, eq_comm]

end Sources

namespace WellFormed

variable {names : Names} {types : TypeTable} {name signalName cellName outName : Ident} {type : TypeId}
  {operation : Operation} {pins : List Pin} {operands : List Value} {width : Nat}

/-! What is known of the cells and ports that were there stays known while the builder grows. -/

theorem drives_of_grows (h : builder.WellFormed) (hgrows : builder.Grows builder') {id : CellId}
    (hcell : builder.cells.find? id = some cell) : ∃ output, builder'.Drives cell output := by
  obtain ⟨output, hdrives⟩ := h.cells hcell
  exact ⟨output, hdrives.mono hgrows⟩

theorem inputs_of_grows (h : builder.WellFormed) (hgrows : builder.Grows builder') {port : Port}
    (hport : port ∈ builder.ports) (hdirection : port.direction = .input) :
    ∃ id signal, port.signal = some id ∧ builder'.signals.find? id = some signal ∧
      signal.kind = .port ∧ signal.name = port.name ∧ signal.type = port.type := by
  obtain ⟨id, signal, hid, hfind, hsignal⟩ := h.inputs hport hdirection
  exact ⟨id, signal, hid, hgrows.signals hfind, hsignal⟩

theorem outputs_of_grows (h : builder.WellFormed) (hgrows : builder.Grows builder') {port : Port}
    {id : SignalId} (hport : port ∈ builder.ports) (hdirection : port.direction = .output)
    (hsignal : port.signal = some id) :
    ∃ value, builder'.valueOf id = .ok value ∧ builder'.types.bitWidth port.type = .ok value.width := by
  obtain ⟨value, hvalue, hwidth⟩ := h.outputs hport hdirection hsignal
  exact ⟨value, hgrows.valueOf hvalue, hgrows.types.bitWidth hwidth⟩

/-- One more signal, with the sources that its kind says, where the others keep theirs. -/
theorem sources_of_push (h : builder.WellFormed) {new : Signal} {sources' : SignalId → Nat × Nat}
    (hold : ∀ id ≠ ⟨builder.signals.size⟩, sources' id = builder.sources id)
    (hnew : sources' ⟨builder.signals.size⟩ = new.kind.sources) {id : SignalId} {signal : Signal}
    (hsignal : (builder.signals.push new).find? id = some signal) :
    sources' id = signal.kind.sources := by
  rcases Table.of_find?_push hsignal with hfind | ⟨hslot, rfl⟩
  · rw [hold id (ne_next hfind)]
    exact h.sources hfind
  · have hid : id = ⟨builder.signals.size⟩ := congrArg SignalId.mk hslot
    rw [hid]
    exact hnew

theorem signal_id_of_push (h : builder.WellFormed) {new : Signal} (hnew : new.id = ⟨builder.signals.size⟩)
    {id : SignalId} {signal : Signal} (hsignal : (builder.signals.push new).find? id = some signal) :
    signal.id = id := by
  rcases Table.of_find?_push hsignal with hfind | ⟨hslot, rfl⟩
  · exact h.signal_id hfind
  · rw [hnew]
    exact congrArg SignalId.mk hslot.symm

theorem port_id_of_concat (h : builder.WellFormed) {new : Port} (hnew : new.id = ⟨lowWord builder.ports.length⟩)
    {place : Nat} {port : Port} (hport : (builder.ports ++ [new])[place]? = some port) :
    port.id = ⟨lowWord place⟩ := by
  rcases of_getElem?_concat hport with hold | ⟨rfl, rfl⟩
  · exact h.port_id hold
  · exact hnew

/-- Names and types say nothing of the other tables. -/
theorem enter (h : builder.WellFormed)
    (hgrows : builder.Grows { builder with names := names, types := types }) :
    WellFormed { builder with names := names, types := types } where
  signal_id := h.signal_id
  cell_id := h.cell_id
  port_id := h.port_id
  sources := h.sources
  inputs := h.inputs
  outputs := h.outputs_of_grows hgrows
  cells := h.drives_of_grows hgrows
  drivers := h.drivers

/-- An input port comes with a signal that nothing else is a source of. -/
theorem withPort (h : builder.WellFormed) (hgrows : builder.Grows (builder.withPort names name type)) :
    (builder.withPort names name type).WellFormed where
  signal_id := h.signal_id_of_push rfl
  cell_id := h.cell_id
  port_id := h.port_id_of_concat rfl
  sources := by
    refine h.sources_of_push (fun id hne => ?_) ?_
    · rw [sources_withPort, if_neg hne, Nat.add_zero]
    · rw [sources_withPort, if_pos rfl, h.sources_next]
      rfl
  inputs {port} hport hdirection := by
    rcases List.mem_append.mp hport with hold | hnew
    · exact h.inputs_of_grows hgrows hold hdirection
    · obtain rfl := List.mem_singleton.mp hnew
      exact ⟨_, _, rfl, find?_push_signal _ _, rfl, rfl, rfl⟩
  outputs {port id} hport hdirection hsignal := by
    rcases List.mem_append.mp hport with hold | hnew
    · exact h.outputs_of_grows hgrows hold hdirection hsignal
    · obtain rfl := List.mem_singleton.mp hnew
      cases hdirection
  cells := h.drives_of_grows hgrows
  drivers := h.drivers

/-- An output port is declared before anything drives it. -/
theorem withOutput (h : builder.WellFormed)
    (hgrows : builder.Grows { builder with
      names := names
      ports := builder.ports ++ [⟨⟨lowWord builder.ports.length⟩, name, .output, type, none⟩]
      taken := name :: builder.taken }) :
    WellFormed { builder with
      names := names
      ports := builder.ports ++ [⟨⟨lowWord builder.ports.length⟩, name, .output, type, none⟩]
      taken := name :: builder.taken } where
  signal_id := h.signal_id
  cell_id := h.cell_id
  port_id := h.port_id_of_concat rfl
  sources {id signal} hsignal := by
    rw [← h.sources hsignal]
    change (List.countP (·.feeds id) (builder.ports ++ [_]), (builder.sources id).2) = _
    rw [List.countP_append, List.countP_singleton, feeds_of_output _ rfl]
    rfl
  inputs {port} hport hdirection := by
    rcases List.mem_append.mp hport with hold | hnew
    · exact h.inputs hold hdirection
    · obtain rfl := List.mem_singleton.mp hnew
      cases hdirection
  outputs {port id} hport hdirection hsignal := by
    rcases List.mem_append.mp hport with hold | hnew
    · exact h.outputs hold hdirection hsignal
    · obtain rfl := List.mem_singleton.mp hnew
      cases hsignal
  cells := h.drives_of_grows hgrows
  drivers := h.drivers

/-- Driving a port gives it a signal of its width and is no source of any. -/
theorem drive (h : builder.WellFormed) {place : Nat} {entry : Port} {value : Value}
    (hentry : builder.ports[place]? = some entry) (hdirection : entry.direction = .output)
    (hvalue : builder.valueOf value.signal = .ok value)
    (hwidth : builder.types.bitWidth entry.type = .ok value.width)
    (hgrows : builder.Grows { builder with
      ports := builder.ports.set place { entry with signal := some value.signal } }) :
    WellFormed { builder with
      ports := builder.ports.set place { entry with signal := some value.signal } } where
  signal_id := h.signal_id
  cell_id := h.cell_id
  port_id {other port} hport := by
    rw [List.getElem?_set] at hport
    split at hport
    · next heq =>
      split at hport
      · cases hport
        rw [← heq]
        exact (h.port_id hentry : entry.id = ⟨lowWord place⟩)
      · cases hport
    · exact h.port_id hport
  sources {id signal} hsignal := by
    obtain ⟨hplace, hget⟩ := List.getElem?_eq_some_iff.mp hentry
    -- neither the old entry nor the new one is an input
    have hold : entry.feeds id = false := feeds_of_output _ hdirection id
    have hnew : Port.feeds { entry with signal := some value.signal } id = false :=
      feeds_of_output { entry with signal := some value.signal } hdirection id
    rw [← h.sources hsignal]
    change (List.countP (·.feeds id) (builder.ports.set _ _), (builder.sources id).2) = _
    rw [List.countP_set hplace, hget, hold, hnew]
    rfl
  inputs {port} hport hinput := by
    rcases List.mem_or_eq_of_mem_set hport with hold | rfl
    · exact h.inputs hold hinput
    · cases hdirection.symm.trans hinput
  outputs {port id} hport houtput hsignal := by
    rcases List.mem_or_eq_of_mem_set hport with hold | rfl
    · exact h.outputs hold houtput hsignal
    · cases hsignal
      exact ⟨value, hvalue, hwidth⟩
  cells := h.drives_of_grows hgrows
  drivers := h.drivers

/-- A new cell drives a new signal, and its inputs were there before. -/
theorem withCell (h : builder.WellFormed)
    (hgrows : builder.Grows
      (builder.withCell names signalName cellName outName type operation pins))
    (hpins : pins.map (·.signal) = operands.map (·.signal))
    (hinput : ∀ pin ∈ pins, pin.direction = .input)
    (hoperands : ∀ operand ∈ operands, builder.valueOf operand.signal = .ok operand)
    (htype : builder.types.bitWidth type = .ok width)
    (hsizes : operation.Sizes (operands.map (·.width)) width) :
    (builder.withCell names signalName cellName outName type operation pins).WellFormed where
  signal_id := h.signal_id_of_push rfl
  cell_id hcell := by
    rcases Table.of_find?_push hcell with hold | ⟨hslot, rfl⟩
    · exact h.cell_id hold
    · exact congrArg CellId.mk hslot.symm
  port_id := h.port_id
  sources := by
    refine h.sources_of_push (fun id hne => ?_) ?_
    · rw [sources_withCell _ _ _ _ _ _ _ hinput, if_neg hne, Nat.add_zero]
    · rw [sources_withCell _ _ _ _ _ _ _ hinput, if_pos rfl, h.sources_next]
      rfl
  inputs := h.inputs_of_grows hgrows
  outputs := h.outputs_of_grows hgrows
  cells hcell := by
    rcases Table.of_find?_push hcell with hold | ⟨-, rfl⟩
    · exact h.drives_of_grows hgrows hold
    · have hvalue : (builder.withCell names signalName cellName outName type operation pins).valueOf
          ⟨builder.signals.size⟩ = .ok ⟨⟨builder.signals.size⟩, type, width⟩ :=
        valueOf_eq_ok.mpr ⟨rfl, _, find?_push_signal _ _, rfl, htype⟩
      refine ⟨⟨⟨builder.signals.size⟩, type, width⟩, ⟨pins, _, rfl, hinput, rfl, rfl⟩, hvalue, operands,
        ?_, hsizes⟩
      rw [inputs_of_pins pins hinput, hpins, List.forall₂_map_left_iff, List.forall₂_same]
      -- an operand was a signal when the output was not one yet
      intro operand hoperand
      exact ⟨hgrows.valueOf (hoperands operand hoperand), lt_of_valueOf (hoperands operand hoperand)⟩
  drivers {signal id} := by
    have houtput : Cell.output? ⟨⟨builder.cells.size⟩, cellName, operation,
        pins ++ [⟨outName, .output, ⟨builder.signals.size⟩⟩]⟩ = some ⟨builder.signals.size⟩ :=
      Cell.EndsAt.output? ⟨pins, _, rfl, hinput, rfl, rfl⟩
    change List.lookup signal (_ :: builder.drivers) = _ ↔ _
    by_cases hsignal : signal = ⟨builder.signals.size⟩
    · -- the new signal is the output of the new cell and of no other
      rw [hsignal, List.lookup_cons_self]
      constructor
      · intro hid
        obtain rfl := Option.some.inj hid
        exact ⟨_, find?_push_cell _ _, houtput⟩
      · rintro ⟨cell, hcell, hdriven⟩
        rcases Table.of_find?_push hcell with hold | ⟨hslot, -⟩
        · exact absurd (h.output_lt hold hdriven) (lt_irrefl _)
        · exact congrArg (some ∘ CellId.mk) hslot.symm
    · rw [List.lookup_cons, beq_false_of_ne hsignal, h.drivers]
      constructor
      · rintro ⟨cell, hcell, hdriven⟩
        exact ⟨cell, hgrows.cells hcell, hdriven⟩
      · rintro ⟨cell, hcell, hdriven⟩
        rcases Table.of_find?_push hcell with hold | ⟨-, rfl⟩
        · exact ⟨cell, hold, hdriven⟩
        · exact absurd (Option.some.inj (hdriven.symm.trans houtput)) hsignal

/-- **One edit.** An edit keeps the tables true of one another. -/
theorem edit (h : builder.WellFormed) (hedit : builder.Edit builder')
    (hgrows : builder.Grows builder') : builder'.WellFormed := by
  cases hedit with
  | enter names hgrows => exact h.enter hgrows
  | input names name _ => exact h.withPort hgrows
  | output names name type => exact h.withOutput hgrows
  | drive hentry hdirection _ hvalue hwidth => exact h.drive hentry hdirection hvalue hwidth hgrows
  | cell names signalName cellName outName htypes hpins hinput hoperands htype hsizes =>
    -- the type of the cell is entered before the cell is
    refine (h.enter htypes).withCell ?_ hpins hinput ?_ htype hsizes
    · exact grows_withCell _ _ _ _ _ _ _ _
    · exact fun operand hoperand => htypes.valueOf (hoperands operand hoperand)

end WellFormed

namespace Settles

theorem refl (builder : Builder) : builder.Settles builder := fun _ _ hport _ => hport

theorem trans (h : builder.Settles builder') (h' : builder'.Settles builder'') :
    builder.Settles builder'' :=
  fun place port hport hsome => h' place port (h place port hport hsome) hsome

/-- Only an output port that has no signal is ever written. -/
theorem of_edit (hedit : builder.Edit builder') : builder.Settles builder' := by
  intro place port hport hsome
  have happend : ∀ new, (builder.ports ++ [new])[place]? = some port := by
    intro new
    obtain ⟨hplace, -⟩ := List.getElem?_eq_some_iff.mp hport
    rw [List.getElem?_append_left hplace]
    exact hport
  cases hedit with
  | enter => exact hport
  | cell => exact hport
  | input => exact happend _
  | output => exact happend _
  | @drive driven entry value hentry hdirection hfree hvalue hwidth =>
    have hne : driven ≠ place := by
      rintro rfl
      obtain rfl := Option.some.inj (hentry.symm.trans hport)
      rw [hfree] at hsome
      cases hsome
    change (builder.ports.set driven _)[place]? = _
    rw [List.getElem?_set_ne hne]
    exact hport

end Settles

end Builder

/-! ### Runs -/

namespace Draft

open Builder

variable {draft later : Draft} {call : Call}

/-- Some calls, of which none faults, lead from the one draft to the other. -/
def Proceeds (draft later : Draft) : Prop :=
  NetArray.Reaches (fun draft call => draft.Admits call ∧ Faultless (call.perform draft.builder)) step draft later

theorem Proceeds.reaches (hrun : draft.Proceeds later) : draft.Reaches later :=
  NetArray.Reaches.mono hrun fun hpermits => hpermits.1

/-- The call is about values that were made, a constant has a width of its own, and the call does not fault. -/
def Permits (draft : Draft) (call : Call) : Prop :=
  draft.Allows call ∧ Faultless (call.perform draft.builder)

instance (draft : Draft) (call : Call) : Decidable (draft.Permits call) :=
  inferInstanceAs (Decidable (_ ∧ _))

/-- The same with constants that have a width of their own. -/
def Runs (draft later : Draft) : Prop :=
  NetArray.Reaches Permits step draft later

/-- A call that does not fault edits the builder or leaves it as it is. -/
theorem Tracked.edit_step (h : draft.Tracked) (hadmits : draft.Admits call)
    (hfaultless : Faultless (call.perform draft.builder)) :
    (draft.step call).builder = draft.builder ∨ draft.builder.Edit (draft.step call).builder := by
  have hedit : ∀ {made builder'}, call.perform draft.builder = .ok made builder' →
      draft.builder.Edit builder' :=
    Call.edit_of_perform h.builder hadmits.1 fun value hvalue => (h.shows (hadmits.noted h value hvalue)).handle
  unfold Draft.step
  cases hrun : call.perform draft.builder with
  | ok made builder => cases made <;> exact .inr (hedit hrun)
  | error failure builder =>
    cases failure with
    | refused cause => exact .inl (Call.eq_of_refused hrun)
    | fault kind =>
      rw [hrun] at hfaultless
      exact hfaultless.elim

/-- **One step.** What one call keeps of a well-formed builder, and of the ports that have a signal. -/
theorem Tracked.keeps_step (h : draft.Tracked) (hformed : draft.builder.WellFormed)
    (hadmits : draft.Admits call) (hfaultless : Faultless (call.perform draft.builder)) :
    (draft.step call).builder.WellFormed ∧ draft.builder.Settles (draft.step call).builder := by
  rcases h.edit_step hadmits hfaultless with heq | hedit
  · rw [heq]
    exact ⟨hformed, .refl _⟩
  · exact ⟨hformed.edit hedit (grows_step hadmits), .of_edit hedit⟩

/-- **A whole run.** Calls keep a builder well-formed and leave the ports that have a signal alone. -/
theorem Tracked.keeps_proceeds (h : draft.Tracked) (hformed : draft.builder.WellFormed)
    (hrun : draft.Proceeds later) :
    later.Tracked ∧ later.builder.WellFormed ∧ draft.builder.Settles later.builder := by
  refine NetArray.Reaches.keeps
    (P := fun later => later.Tracked ∧ later.builder.WellFormed ∧ draft.builder.Settles later.builder)
    hrun (fun hpermits hlater => ?_) ⟨h, hformed, .refl _⟩
  obtain ⟨hadmits, hfaultless⟩ := hpermits
  obtain ⟨htracked, hformed, hsettles⟩ := hlater
  obtain ⟨hformed', hsettles'⟩ := htracked.keeps_step hformed hadmits hfaultless
  exact ⟨htracked.step hadmits, hformed', hsettles.trans hsettles'⟩

/-- What a new netlist becomes. -/
theorem wellFormed_of_proceeds {names : Names} {name : String} (hrun : (start names name).Proceeds draft) :
    draft.Tracked ∧ draft.builder.WellFormed := by
  obtain ⟨htracked, hformed, -⟩ :=
    (sound_start names name).toTracked.keeps_proceeds (wellFormed_start names name) hrun
  exact ⟨htracked, hformed⟩

/-- **Well-formed netlists.** After any calls of which none faults, and while words suffice to number what there is,
the tables of the builder are true of one another and its ids are places. Later calls do not change what drives a
port, a value that was made stays the builder's own handle of its signal, and a call that refuses changes nothing at
all. Constants may be of any length; the output of one is as wide as `Pattern.width` says. -/
theorem wellFormed_of_runs {names : Names} {name : String} (hrun : (start names name).Proceeds draft)
    (hlater : draft.Proceeds later) (hids : later.builder.IdsSuffice) :
    later.builder.WellFormed ∧ later.builder.NumbersParts ∧ draft.builder.Settles later.builder ∧
      (∀ value ∈ draft.made.map Prod.fst, later.builder.valueOf value.signal = .ok value) ∧
      ∀ (call : Call) (cause : BuildError) (builder' : Builder),
        call.perform later.builder = .error (.refused cause) builder' → builder' = later.builder := by
  obtain ⟨htracked, hformed⟩ := wellFormed_of_proceeds hrun
  obtain ⟨-, hformed', hsettles⟩ := htracked.keeps_proceeds hformed hlater
  obtain ⟨-, hgrows⟩ := htracked.reaches hlater.reaches
  refine ⟨hformed', hformed'.numbersParts hids, hsettles, fun value hvalue => ?_, fun _ _ _ => Call.eq_of_refused⟩
  obtain ⟨⟨_, bits⟩, hmade, rfl⟩ := List.mem_map.mp hvalue
  exact hgrows.valueOf (htracked.shows hmade).handle

/-- Calls that join a constant and a part of an input, and drive an output with both. -/
def driveJoined : List Call :=
  [.internType (.bits 4), .input "a" ⟨0⟩, .output "y" ⟨0⟩, .constant ⟨[.one, .zero]⟩,
    .slice ⟨⟨0⟩, ⟨0⟩, 4⟩ 1 2, .concat [⟨⟨1⟩, ⟨1⟩, 2⟩, ⟨⟨2⟩, ⟨1⟩, 2⟩], .drive ⟨1⟩ ⟨⟨3⟩, ⟨0⟩, 4⟩]

/-- Calls about the same netlist after that, the first of which is refused. -/
def driveAgain : List Call :=
  [.drive ⟨1⟩ ⟨⟨0⟩, ⟨0⟩, 4⟩, .wire ⟨0⟩ ⟨⟨3⟩, ⟨0⟩, 4⟩, .bitcast ⟨⟨4⟩, ⟨0⟩, 4⟩ ⟨0⟩]

/-- A driven output stays driven by the value that it was driven with first. -/
theorem wellFormed_driveAgain :
    let driven := driveJoined.foldl step (start {} "m")
    let later := driveAgain.foldl step driven
    later.builder.WellFormed ∧ later.builder.NumbersParts ∧
      later.builder.ports[1]? = some ⟨⟨1⟩, ⟨2⟩, .output, ⟨0⟩, some ⟨3⟩⟩ ∧
      later.builder.valueOf ⟨3⟩ = .ok ⟨⟨3⟩, ⟨0⟩, 4⟩ ∧
      ∃ builder', (Call.drive ⟨1⟩ ⟨⟨0⟩, ⟨0⟩, 4⟩).perform later.builder
        = .error (.refused (.alreadyDriven "y")) builder' ∧ builder' = later.builder := by
  intro driven later
  have hrun : (start {} "m").Proceeds driven := reaches_foldl (by decide +kernel)
  have hlater : driven.Proceeds later := reaches_foldl (by decide +kernel)
  obtain ⟨hformed, hnumbers, hsettles, hhandle, hrefused⟩ :=
    wellFormed_of_runs hrun hlater (by decide +kernel)
  have hport : later.builder.ports[1]? = some ⟨⟨1⟩, ⟨2⟩, .output, ⟨0⟩, some ⟨3⟩⟩ :=
    hsettles 1 _ (by decide +kernel) rfl
  have hvalue : later.builder.valueOf ⟨3⟩ = .ok ⟨⟨3⟩, ⟨0⟩, 4⟩ :=
    hhandle ⟨⟨3⟩, ⟨0⟩, 4⟩ (by decide +kernel)
  have hdrive : (Call.drive ⟨1⟩ ⟨⟨0⟩, ⟨0⟩, 4⟩).perform later.builder
      = .error (.refused (.alreadyDriven "y")) later.builder := by decide +kernel
  exact ⟨hformed, hnumbers, hport, hvalue, _, hdrive, hrefused _ _ _ hdrive⟩

/-- Output ports can be declared without end. -/
theorem proceeds_outputs (draft : Draft) (name : String) (type : TypeId) (count : Nat) :
    ∃ later, draft.Proceeds later ∧ later.builder.ports.length = draft.builder.ports.length + count := by
  induction count with
  | zero => exact ⟨draft, .refl, rfl⟩
  | succ count ih =>
    obtain ⟨later, hrun, hlength⟩ := ih
    have hadmits : later.Admits (.output name type) := ⟨trivial, fun _ hmem => nomatch hmem⟩
    have hports : (later.step (.output name type)).builder.ports.length = later.builder.ports.length + 1 :=
      List.length_append
    exact ⟨_, Reaches.tail hrun ⟨hadmits, trivial⟩, by rw [hports, hlength, Nat.add_assoc]⟩

/-- One output port more than words can number has the id of the first port, not of its place. -/
theorem port_id_of_manyOutputs :
    ∃ draft port, (start {} "m").Proceeds draft ∧ draft.builder.ports[wordBound]? = some port ∧
      port.id = ⟨0⟩ ∧ port.id ≠ ⟨wordBound⟩ := by
  have hfirst : (start {} "m").Proceeds ((start {} "m").step (.internType (.bits 1))) :=
    Reaches.tail .refl (by decide)
  obtain ⟨draft, hrun, hlength⟩ :=
    proceeds_outputs ((start {} "m").step (.internType (.bits 1))) "y" ⟨0⟩ (wordBound + 1)
  obtain ⟨-, hformed⟩ := wellFormed_of_proceeds (hfirst.trans hrun)
  have hplace : wordBound < draft.builder.ports.length := by omega
  have hport := List.getElem?_eq_getElem hplace
  have hid := hformed.port_id hport
  refine ⟨draft, _, hfirst.trans hrun, hport, hid, ?_⟩
  rw [hid]
  decide

end Draft

end NetArray
