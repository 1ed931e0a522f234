import Mathlib
import NetArray.Proofs.Netlist.FreshNames
import NetArray.Netlist.Builder

/-!
# Growing netlists

No operation of a builder ever takes anything back. `Builder.Grows` says so: every signal, cell and type
of the one builder is in the other as it was, and the drivers of the signals that were there are the same.
What is true of a signal because of the cells behind it therefore stays true.

The file proves that every operation of `Build` grows its builder, whatever its outcome
(`keeps_input`, `keeps_slice`, …), and says what an input port and a cell add (`input_run`,
`addCell_run`): exactly one signal each, with the port in `Builder.withPort` and the cell in
`Builder.withCell`. An operation that answers has passed its checks, and is then the making of a cell
(`constant_eq_ok`, `slice_eq_ok`, `concat_eq_ok`, `bitcast_eq_ok`) or of an input (`input_eq_ok`).

A single step of an operation need not grow the builder, as `Build.enterCell` shows, which would change
the driver of a signal that is already there. Adding a cell is therefore taken as a whole.
-/

namespace NetArray

namespace Table

variable {ι α : Type}

@[simp] theorem size_push (table : Table ι α) (item : α) :
    (table.push item).size = table.size + 1 := Array.size_push ..

variable [SlotId ι]

theorem find?_push {table : Table ι α} {id : ι} {item : α} (new : α)
    (h : table.find? id = some item) : (table.push new).find? id = some item := by
  obtain ⟨hlt, -⟩ := Array.getElem?_eq_some_iff.mp h
  change (table.items.push new)[SlotId.slot id]? = _
  rw [Array.getElem?_push_lt hlt, ← h]
  exact (Array.getElem?_eq_getElem hlt).symm

/-- What is found in a table with one more item was there before or is that item. -/
theorem of_find?_push {table : Table ι α} {id : ι} {new item : α}
    (h : (table.push new).find? id = some item) :
    table.find? id = some item ∨ SlotId.slot id = table.size ∧ item = new := by
  change (table.items.push new)[SlotId.slot id]? = _ at h
  rw [Array.getElem?_push] at h
  split at h
  · next hslot => exact .inr ⟨hslot, (Option.some.inj h).symm⟩
  · exact .inl h

theorem find?_lt {table : Table ι α} {id : ι} {item : α} (h : table.find? id = some item) :
    SlotId.slot id < table.size :=
  (Array.getElem?_eq_some_iff.mp h).1

theorem get_eq_ok {table : Table ι α} {id : ι} {item : α} :
    table.get id = .ok item ↔ table.find? id = some item := by
  unfold Table.get
  split <;> simp [*]

end Table

theorem find?_push_signal (table : Table SignalId Signal) (signal : Signal) :
    (table.push signal).find? ⟨table.size⟩ = some signal := Array.getElem?_push_size

theorem find?_push_cell (table : Table CellId Cell) (cell : Cell) :
    (table.push cell).find? ⟨table.size⟩ = some cell := Array.getElem?_push_size

namespace Builder

/-- What every builder satisfies. -/
structure Sound (builder : Builder) : Prop where
  /-- Its type table is sound. -/
  types : builder.types.Sound
  /-- Only signals that are there have a driver. -/
  driven : ∀ {signal cell}, (signal, cell) ∈ builder.drivers → signal.index < builder.signals.size

theorem sound_start (names : Names) (name : String) : (start names name).Sound :=
  ⟨TypeTable.sound_empty, fun hmem => nomatch hmem⟩

/-- Everything in the one builder is in the other, as it was. -/
structure Grows (builder builder' : Builder) : Prop where
  /-- Signals stay. -/
  signals : ∀ {id signal}, builder.signals.find? id = some signal →
    builder'.signals.find? id = some signal
  /-- Cells stay. -/
  cells : ∀ {id cell}, builder.cells.find? id = some cell → builder'.cells.find? id = some cell
  /-- There are at least as many cells. -/
  cells_size : builder.cells.size ≤ builder'.cells.size
  /-- Types stay. -/
  types : builder.types.Grows builder'.types
  /-- The builder stays sound. -/
  sound : builder.Sound → builder'.Sound
  /-- Signals keep the cell that drives them. -/
  drivers : ∀ {id signal}, builder.signals.find? id = some signal →
    builder'.drivers.lookup id = builder.drivers.lookup id

variable {builder builder' builder'' : Builder}

theorem Grows.refl (builder : Builder) : builder.Grows builder :=
  ⟨id, id, le_rfl, .refl _, id, fun _ => rfl⟩

theorem Grows.trans (h : builder.Grows builder') (h' : builder'.Grows builder'') :
    builder.Grows builder'' where
  signals hid := h'.signals (h.signals hid)
  cells hid := h'.cells (h.cells hid)
  cells_size := h.cells_size.trans h'.cells_size
  types := h.types.trans h'.types
  sound hsound := h'.sound (h.sound hsound)
  drivers hid := (h'.drivers (h.signals hid)).trans (h.drivers hid)

instance : Std.Refl Grows := ⟨Grows.refl⟩

instance : IsTrans Builder Grows := ⟨fun _ _ _ => Grows.trans⟩

/-- Builders with the same signals, cells, drivers and types. -/
theorem Grows.of_eq (hsignals : builder'.signals = builder.signals)
    (hcells : builder'.cells = builder.cells) (hdrivers : builder'.drivers = builder.drivers)
    (htypes : builder'.types = builder.types) : builder.Grows builder' where
  signals h := by rwa [hsignals]
  cells h := by rwa [hcells]
  cells_size := by rw [hcells]
  types := by rw [htypes]; exact .refl _
  sound h := ⟨by rw [htypes]; exact h.types, by rw [hdrivers, hsignals]; exact h.driven⟩
  drivers _ := by rw [hdrivers]

/-- Builders that differ in their types only. -/
theorem Grows.of_types {types : TypeTable} (hgrows : builder.types.Grows types)
    (hsound : builder.types.Sound → types.Sound) : builder.Grows { builder with types := types } where
  signals := id
  cells := id
  cells_size := le_rfl
  types := hgrows
  sound h := ⟨hsound h.types, h.driven⟩
  drivers _ := rfl

/-- The builder with one more cell and the signal that it drives. -/
def withCell (builder : Builder) (names : Names) (signalName cellName outName : Ident)
    (type : TypeId) (operation : Operation) (pins : List Pin) : Builder :=
  { builder with
    names := names
    signals := builder.signals.push ⟨⟨builder.signals.size⟩, signalName, type, .wire⟩
    cells := builder.cells.push ⟨⟨builder.cells.size⟩, cellName, operation,
      pins ++ [⟨outName, .output, ⟨builder.signals.size⟩⟩]⟩
    drivers := (⟨builder.signals.size⟩, ⟨builder.cells.size⟩) :: builder.drivers
    taken := signalName :: builder.taken }

/-- The builder with one more input port and the signal behind it. -/
def withPort (builder : Builder) (names : Names) (name : Ident) (type : TypeId) : Builder :=
  { builder with
    names := names
    signals := builder.signals.push ⟨⟨builder.signals.size⟩, name, type, .port⟩
    ports := builder.ports ++
      [⟨⟨lowWord builder.ports.length⟩, name, .input, type, some ⟨builder.signals.size⟩⟩]
    taken := name :: name :: builder.taken }

/-- A new cell drives a new signal, so the drivers of all others are the same. -/
theorem grows_withCell (builder : Builder) (names : Names) (signalName cellName outName : Ident)
    (type : TypeId) (operation : Operation) (pins : List Pin) :
    builder.Grows (builder.withCell names signalName cellName outName type operation pins) where
  signals h := Table.find?_push _ h
  cells h := Table.find?_push _ h
  cells_size := by
    change _ ≤ (builder.cells.push _).size
    rw [Table.size_push]
    exact Nat.le_succ _
  types := .refl _
  sound h := by
    refine ⟨h.types, fun {signal cell} hmem => ?_⟩
    change signal.index < (builder.signals.push _).size
    rw [Table.size_push]
    rcases List.mem_cons.mp hmem with hnew | hold
    · cases hnew
      exact Nat.lt_succ_self _
    · exact Nat.lt_succ_of_lt (h.driven hold)
  drivers {id signal} h := by
    have hlt : id.index < builder.signals.size := Table.find?_lt h
    -- the new driver is listed first, but for a signal that was not there
    have hne : id ≠ ⟨builder.signals.size⟩ := by
      intro heq
      rw [heq] at hlt
      exact lt_irrefl _ hlt
    change List.lookup id (_ :: _) = _
    rw [List.lookup_cons, beq_false_of_ne hne]

/-- The new cell drives the new signal. -/
theorem lookup_withCell (builder : Builder) (names : Names) (signalName cellName outName : Ident)
    (type : TypeId) (operation : Operation) (pins : List Pin) :
    (builder.withCell names signalName cellName outName type operation pins).drivers.lookup
      ⟨builder.signals.size⟩ = some ⟨builder.cells.size⟩ :=
  List.lookup_cons_self

/-- The value of a signal. -/
theorem valueOf_eq_ok {signal : SignalId} {value : Value} :
    builder.valueOf signal = .ok value ↔ value.signal = signal ∧
      ∃ entry, builder.signals.find? signal = some entry ∧ value.type = entry.type ∧
        builder.types.bitWidth entry.type = .ok value.width := by
  simp only [valueOf, bind_eq_ok, pure_eq_ok, Table.get_eq_ok]
  constructor
  · rintro ⟨entry, hentry, width, hwidth, rfl⟩
    exact ⟨rfl, entry, hentry, rfl, hwidth⟩
  · rintro ⟨rfl, entry, hentry, htype, hwidth⟩
    exact ⟨entry, hentry, value.width, hwidth, by rw [← htype]⟩

/-- The type of a value has its width. -/
theorem bitWidth_of_valueOf {value : Value} (h : builder.valueOf value.signal = .ok value) :
    builder.types.bitWidth value.type = .ok value.width := by
  obtain ⟨-, entry, -, htype, hwidth⟩ := valueOf_eq_ok.mp h
  rwa [htype]

theorem Grows.valueOf (h : builder.Grows builder') {signal : SignalId} {value : Value}
    (hvalue : builder.valueOf signal = .ok value) : builder'.valueOf signal = .ok value := by
  obtain ⟨hsignal, entry, hentry, htype, hwidth⟩ := valueOf_eq_ok.mp hvalue
  exact valueOf_eq_ok.mpr ⟨hsignal, entry, h.signals hentry, htype, h.types.bitWidth hwidth⟩

end Builder

/-! ### Operations grow their builder -/

section Keeps

open Builder

theorem build_valueOf (signal : SignalId) (builder : Builder) :
    Build.valueOf signal builder = (liftM (builder.valueOf signal) : Build Value) builder := rfl

theorem keeps_valueOf (signal : SignalId) : Keeps Grows (Build.valueOf signal) :=
  .bind .get fun _ => .lift_checked _

theorem keeps_intern (text : String) : Keeps Grows (Build.intern text) :=
  fun _ => .of_eq rfl rfl rfl rfl

theorem keeps_fresh (stem : String) : Keeps Grows (Build.fresh stem) :=
  fun _ => .of_eq rfl rfl rfl rfl

theorem keeps_bitsType {width : Nat} (hword : width < wordBound) :
    Keeps Grows (Build.bitsType width) :=
  fun _ => .of_types (TypeTable.grows_intern _ _) fun hsound => hsound.bits hword

theorem keeps_arrayType (element : TypeId) (dims : List Nat) :
    Keeps Grows (Build.arrayType element dims) :=
  fun _ => .of_types (TypeTable.grows_array _ _ _) fun hsound => hsound.array element dims

theorem keeps_addSignal (name : Ident) (type : TypeId) (kind : SignalKind) :
    Keeps Grows (Build.addSignal name type kind) := by
  intro builder
  refine ⟨Table.find?_push _, id, le_rfl, .refl _, fun h => ⟨h.types, ?_⟩, fun _ => rfl⟩
  -- nothing drives the new signal yet, and what was driven is still there
  intro signal cell hmem
  have hlt : signal.index < builder.signals.size := h.driven hmem
  change _ < Table.size (Table.push _ _)
  rw [Table.size_push]
  exact Nat.lt_succ_of_lt hlt

theorem keeps_addPort (name : Ident) (direction : Direction) (type : TypeId)
    (signal : Option SignalId) : Keeps Grows (Build.addPort name direction type signal) :=
  fun _ => .of_eq rfl rfl rfl rfl

theorem keeps_input (name : String) (type : TypeId) : Keeps Grows (Build.input name type) := by
  refine .bind (keeps_intern name) fun ident => .bind (keeps_addSignal ident type .port) fun signal => ?_
  refine .bind (keeps_addPort ident .input type signal) fun port => ?_
  exact keeps_valueOf signal

theorem keeps_output (name : String) (type : TypeId) : Keeps Grows (Build.output name type) :=
  .bind (keeps_intern _) fun _ => keeps_addPort _ _ _ _

theorem keeps_uniqueName (name : String) : Keeps Grows (Build.uniqueName name) := by
  refine .bind (keeps_intern _) fun ident => .bind .get fun builder => ?_
  split
  · exact keeps_fresh _
  · exact .pure _

end Keeps

/-! ### What a port and a cell add -/

/-- **What an input port adds.** One port and one signal; then the value of the signal is looked up. -/
theorem input_run (name : String) (type : TypeId) (builder : Builder) :
    Build.input name type builder = Build.valueOf ⟨builder.signals.size⟩
      (builder.withPort (builder.names.intern name).2 (builder.names.intern name).1 type) := rfl

theorem intern_run (text : String) (builder : Builder) :
    Build.intern text builder
      = .ok (builder.names.intern text).1 { builder with names := (builder.names.intern text).2 } := rfl

theorem fresh_run (stem : String) (builder : Builder) :
    Build.fresh stem builder
      = .ok (builder.names.fresh stem).1 { builder with names := (builder.names.fresh stem).2 } := rfl

theorem addSignal_run (name : Ident) (type : TypeId) (kind : SignalKind) (builder : Builder) :
    Build.addSignal name type kind builder = .ok ⟨builder.signals.size⟩ { builder with
      signals := builder.signals.push ⟨⟨builder.signals.size⟩, name, type, kind⟩
      taken := name :: builder.taken } := rfl

/-- A name can always be made unique, and nothing but names is entered for it. -/
theorem uniqueName_run (name : String) (builder : Builder) :
    ∃ ident names, Build.uniqueName name builder = .ok ident { builder with names := names } := by
  obtain ⟨⟨ident, names⟩, hintern⟩ : ∃ interned, builder.names.intern name = interned := ⟨_, rfl⟩
  simp only [Build.uniqueName, change_bind, intern_run, hintern, change_get]
  cases builder.taken.contains ident with
  | true => exact ⟨_, _, rfl⟩
  | false => exact ⟨_, _, rfl⟩

/-- Making pins interns their names and does nothing else. -/
theorem inputPins_run (number : Nat) (signals : List SignalId) (builder : Builder) :
    ∃ names pins, Build.inputPins number signals builder = .ok pins { builder with names := names } ∧
      pins.map (·.signal) = signals ∧ (∀ pin ∈ pins, pin.direction = .input) ∧ builder.names.Grows names := by
  induction signals generalizing number builder with
  | nil => exact ⟨builder.names, [], rfl, rfl, by simp, .refl _⟩
  | cons signal signals ih =>
    -- the other pins are made after the name of this one is interned
    obtain ⟨names, pins, hrun, hsignals, hinput, hgrows⟩ := ih (number + 1)
      { builder with names := (builder.names.intern s!"I{number}").2 }
    refine ⟨names, ⟨(builder.names.intern s!"I{number}").1, .input, signal⟩ :: pins, ?_, ?_, ?_,
      (builder.names.grows_intern _).trans hgrows⟩
    · simp only [Build.inputPins, change_bind, intern_run, hrun]
      rfl
    · rw [List.map_cons, hsignals]
    · simpa using hinput

/-- **What a cell adds.** One signal and one cell that drives it, with the given inputs; then the value
of the signal is looked up. The cell takes a fresh name, and its signal the same unless it was given one. -/
theorem addCell_run (operation : Operation) (inputs : List SignalId) (type : TypeId)
    (name : Option Ident) (builder : Builder) :
    ∃ names cellName outName pins,
      Build.addCell operation inputs type name builder
        = Build.valueOf ⟨builder.signals.size⟩
            (builder.withCell names (name.getD cellName) cellName outName type operation pins) ∧
      pins.map (·.signal) = inputs ∧ (∀ pin ∈ pins, pin.direction = .input) ∧
      builder.names.Grows names ∧ cellName.index = builder.names.table.size ∧
      cellName.index < names.table.size := by
  obtain ⟨⟨cellName, names⟩, hfresh⟩ : ∃ fresh, builder.names.fresh s!"_{operation.mnemonic}" = fresh :=
    ⟨_, rfl⟩
  have hspec := builder.names.fresh_spec s!"_{operation.mnemonic}"
  rw [hfresh] at hspec
  obtain ⟨hgrows, hindex, count, -, htext⟩ := hspec
  -- by the time the pins are made, the cell has its name and its signal
  obtain ⟨names', pins, hrun, hsignals, hinput, hgrows'⟩ := inputPins_run 0 inputs
    { builder with
      names := names
      signals := builder.signals.push ⟨⟨builder.signals.size⟩, name.getD cellName, type, .wire⟩
      taken := name.getD cellName :: builder.taken }
  have hall : names.Grows (names'.intern "Y").2 := hgrows'.trans (names'.grows_intern "Y")
  refine ⟨(names'.intern "Y").2, cellName, (names'.intern "Y").1, pins, ?_, hsignals, hinput,
    hgrows.trans hall, congrArg Ident.index hindex, hall.lt (Names.lt_of_text htext)⟩
  simp only [Build.addCell, change_bind, fresh_run, hfresh, addSignal_run, hrun, intern_run]
  rfl

/-- Looking a value up changes nothing. -/
theorem valueOf_final (signal : SignalId) (builder : Builder) :
    finalState (Build.valueOf signal builder) = builder := by
  rw [build_valueOf]
  cases builder.valueOf signal <;> rfl

section Keeps

open Builder

theorem keeps_addCell (operation : Operation) (inputs : List SignalId) (type : TypeId)
    (name : Option Ident) : Keeps Grows (Build.addCell operation inputs type name) := by
  intro builder
  obtain ⟨names, cellName, outName, pins, hrun, -⟩ := addCell_run operation inputs type name builder
  rw [hrun, valueOf_final]
  exact grows_withCell _ _ _ _ _ _ _ _

/-- The width of a pattern is a machine word, whatever the number of its bits is. -/
theorem Pattern.width_lt (pattern : Pattern) : pattern.width < wordBound :=
  lowWord_lt _

/-- It is the number of the bits if that is a machine word. -/
theorem Pattern.width_eq {pattern : Pattern} (h : pattern.bits.length < wordBound) :
    pattern.width = pattern.bits.length :=
  lowWord_of_lt h

theorem keeps_constant (pattern : Pattern) : Keeps Grows (Build.constant pattern) := by
  refine .guard fun _ => ?_
  exact .bind (keeps_bitsType pattern.width_lt) fun _ => keeps_addCell _ _ _ _

theorem keeps_slice {value : Value} {low width : Nat} (hword : width < wordBound) :
    Keeps Grows (Build.slice value low width) := by
  refine .guard fun _ => .guard fun _ => ?_
  exact .bind (keeps_bitsType hword) fun _ => keeps_addCell _ _ _ _

/-- The checked sum of widths is their sum, and a machine word. -/
theorem totalWidth_eq_ok {start total : Nat} {values : List Value} (hstart : start < wordBound)
    (h : Build.totalWidth start values = .ok total) :
    total = start + (values.map (·.width)).sum ∧ total < wordBound := by
  induction values generalizing start with
  | nil =>
    cases h
    exact ⟨by simp, hstart⟩
  | cons value values ih =>
    simp only [Build.totalWidth, bind_eq_ok, word_eq_ok] at h
    obtain ⟨sum, ⟨hlt, rfl⟩, h⟩ := h
    obtain ⟨htotal, hword⟩ := ih hlt h
    exact ⟨by rw [htotal, List.map_cons, List.sum_cons, Nat.add_assoc], hword⟩

theorem keeps_concat (values : List Value) : Keeps Grows (Build.concat values) := by
  -- the sum of the widths does not depend on the builder, and that it is checked makes it a machine word
  cases hwidth : Build.totalWidth 0 values with
  | error kind =>
    intro builder
    rw [Build.concat, hwidth]
    exact .refl builder
  | ok width =>
    have hword := (totalWidth_eq_ok (by decide) hwidth).2
    rw [Build.concat, hwidth]
    refine .guard fun _ => ?_
    exact .bind (keeps_bitsType hword) fun _ => keeps_addCell _ _ _ _

theorem keeps_wire (name : Ident) (value : Value) : Keeps Grows (Build.wire name value) :=
  keeps_addCell _ _ _ _

theorem keeps_bitcast (value : Value) (type : TypeId) : Keeps Grows (Build.bitcast value type) := by
  refine .bind .get fun builder => .bind (.lift_checked _) fun width => ?_
  exact .guard fun _ => keeps_addCell _ _ _ _

end Keeps

/-! ### What an operation that answered has checked -/

section Answered

open Builder

variable {builder builder' : Builder} {source value : Value} {values : List Value} {type : TypeId}
  {pattern : Pattern} {low width : Nat}

/-- A sum of widths that is a machine word is found by adding them up one by one. -/
theorem totalWidth_eq {start : Nat} (h : start + (values.map (·.width)).sum < wordBound) :
    Build.totalWidth start values = .ok (start + (values.map (·.width)).sum) := by
  induction values generalizing start with
  | nil => rfl
  | cons value values ih =>
    rw [List.map_cons, List.sum_cons, ← Nat.add_assoc] at h ⊢
    rw [Build.totalWidth, bind_eq_ok]
    exact ⟨_, word_eq_ok.mpr ⟨by omega, rfl⟩, ih h⟩

/-- An input of a known type is the next signal. -/
theorem input_eq_ok {name : String} :
    Build.input name type builder = .ok value builder' ↔ ∃ width, builder.types.bitWidth type = .ok width ∧
      value = ⟨⟨builder.signals.size⟩, type, width⟩ ∧
      builder' = builder.withPort (builder.names.intern name).2 (builder.names.intern name).1 type := by
  have hnew := find?_push_signal builder.signals
    ⟨⟨builder.signals.size⟩, (builder.names.intern name).1, type, .port⟩
  rw [input_run, build_valueOf, change_lift_checked_eq_ok]
  constructor
  · rintro ⟨hvalue, rfl⟩
    obtain ⟨hsignal, entry, hentry, htype, hwidth⟩ := valueOf_eq_ok.mp hvalue
    obtain rfl := Option.some.inj (hnew.symm.trans hentry)
    obtain ⟨signal, type', width⟩ := value
    cases hsignal
    cases htype
    exact ⟨width, hwidth, rfl, rfl⟩
  · rintro ⟨width, hwidth, rfl, rfl⟩
    exact ⟨valueOf_eq_ok.mpr ⟨rfl, _, hnew, rfl, hwidth⟩, rfl⟩

theorem constant_eq_ok :
    Build.constant pattern builder = .ok value builder' ↔ pattern.width ≠ 0 ∧
      (do Build.addCell (.constant pattern) [] (← Build.bitsType pattern.width) none : Build Value) builder
        = .ok value builder' :=
  change_guard_eq_ok

theorem slice_eq_ok :
    Build.slice source low width builder = .ok value builder' ↔ width ≠ 0 ∧ low + width ≤ source.width ∧
      (do Build.addCell (.slice low width) [source.signal] (← Build.bitsType width) none : Build Value) builder
        = .ok value builder' := by
  rw [← Nat.not_lt, ← change_guard_eq_ok, ← change_guard_eq_ok]
  rfl

theorem concat_eq_ok :
    Build.concat values builder = .ok value builder' ↔
      (values.map (·.width)).sum ≠ 0 ∧ (values.map (·.width)).sum < wordBound ∧
      (do Build.addCell .concat (values.map (·.signal)) (← Build.bitsType (values.map (·.width)).sum) none :
        Build Value) builder = .ok value builder' := by
  constructor
  · intro hrun
    obtain ⟨total, _, hlift, hrest⟩ := change_bind_eq_ok.mp hrun
    obtain ⟨htotal, rfl⟩ := change_lift_checked_eq_ok.mp hlift
    obtain ⟨hpos, hcell⟩ := change_guard_eq_ok.mp hrest
    obtain ⟨rfl, hword⟩ := totalWidth_eq_ok (by decide) htotal
    rw [Nat.zero_add] at hpos hword hcell
    exact ⟨hpos, hword, hcell⟩
  · rintro ⟨hpos, hword, hcell⟩
    have htotal : Build.totalWidth 0 values = .ok (0 + (values.map (·.width)).sum) :=
      totalWidth_eq (by rwa [Nat.zero_add])
    rw [Nat.zero_add] at htotal
    have hlift : (liftM (Build.totalWidth 0 values) : Build Nat) builder = .ok _ builder :=
      change_lift_checked_eq_ok.mpr ⟨htotal, rfl⟩
    exact change_bind_eq_ok.mpr ⟨_, _, hlift, change_guard_eq_ok.mpr ⟨hpos, hcell⟩⟩

theorem bitcast_eq_ok :
    Build.bitcast source type builder = .ok value builder' ↔
      builder.types.bitWidth type = .ok source.width ∧
      Build.addCell .bitcast [source.signal] type none builder = .ok value builder' := by
  constructor
  · intro hrun
    obtain ⟨_, _, hget, hrest⟩ := change_bind_eq_ok.mp hrun
    obtain ⟨rfl, rfl⟩ := change_get_eq_ok.mp hget
    obtain ⟨width, _, hlift, hrest⟩ := change_bind_eq_ok.mp hrest
    obtain ⟨hwidth, rfl⟩ := change_lift_checked_eq_ok.mp hlift
    obtain ⟨hsame, hcell⟩ := change_guard_eq_ok.mp hrest
    obtain rfl := not_not.mp hsame
    exact ⟨hwidth, hcell⟩
  · rintro ⟨hwidth, hcell⟩
    have hlift : (liftM (builder.types.bitWidth type) : Build Nat) builder = .ok source.width builder :=
      change_lift_checked_eq_ok.mpr ⟨hwidth, rfl⟩
    refine change_bind_eq_ok.mpr ⟨builder, builder, rfl, change_bind_eq_ok.mpr ⟨_, _, hlift, ?_⟩⟩
    exact change_guard_eq_ok.mpr ⟨not_not.mpr rfl, hcell⟩

end Answered

end NetArray
