import NetArray.Netlist.Codec
import NetArray.Netlist.Dump
import Mathlib.Tactic.MkIffOfInductiveProp

/-!
# Netlists that are stored and loaded again

A netlist that is written as JSON and read back is the same netlist, whether it was built or put
together by hand: ports with a signal and without, constants with unknown and floating bits, ids that
name nothing. Only the answers that its type table remembers are not stored. They make searches shorter
and nothing else, so the loaded netlist answers every question as the stored one does, faults included.

The format has 32 bits for an id, a width and the size of an array, and reading refuses numbers that
are larger. `Netlist.Storable` says that all numbers of a netlist are that small.

* `Json.Recovers` is the statement for one type; it passes from items to lists and tables.
* `Netlist.Agrees` compares two netlists part by part and leaves out what their type tables remember.
* `reload_faithful` is the result.
-/

namespace NetArray

namespace Json

/-- Reading gives back what was written, for all values in `P`. -/
def Recovers {α : Type} (write : α → Json) (read : Json → Option α) (P : α → Prop) : Prop :=
  ∀ a, P a → read (write a) = some a

theorem word_ofNat {n : Nat} (h : n < wordBound) : (ofNat n).word? = some n := by
  simp [ofNat, word?, h]

section

variable {α : Type} {write : α → Json} {read : Json → Option α} {P : α → Prop}

theorem Recovers.mapM (h : Recovers write read P) {items : List α} (hitems : ∀ a ∈ items, P a) :
    (items.map write).mapM read = some items := by
  induction items with
  | nil => rfl
  | cons a items ih =>
    rw [List.forall_mem_cons] at hitems
    rw [List.map_cons, List.mapM_cons, h a hitems.1, ih hitems.2]
    rfl

theorem Recovers.list (h : Recovers write read P) :
    Recovers (fun items => .array (items.map write)) (list? read) (fun items => ∀ a ∈ items, P a) :=
  fun _ hitems => h.mapM hitems

theorem Recovers.table {ι : Type} (h : Recovers write read P) :
    Recovers (Table.toJson (ι := ι) write) (Table.ofJson? read) (fun table => ∀ a ∈ table.items, P a) := by
  intro table htable
  have hitems : (table.items.toList.map write).mapM read = some table.items.toList :=
    h.mapM fun a ha => htable a (Array.mem_toList_iff.mp ha)
  show (do return ⟨(← (table.items.toList.map write).mapM read).toArray⟩) = some table
  rw [hitems]
  rfl

end

end Json

open Json

/-! ### Numbers that the format has room for -/

def DataType.Storable : DataType → Prop
  | .bits width => width < wordBound
  | .array element size => element.index < wordBound ∧ size < wordBound

@[mk_iff]
structure Signal.Storable (signal : Signal) : Prop where
  id : signal.id.index < wordBound
  name : signal.name.index < wordBound
  type : signal.type.index < wordBound

@[mk_iff]
structure Port.Storable (port : Port) : Prop where
  id : port.id.index < wordBound
  name : port.name.index < wordBound
  type : port.type.index < wordBound
  signal : ∀ signal ∈ port.signal, signal.index < wordBound

def Operation.Storable : Operation → Prop
  | .slice offset width => offset < wordBound ∧ width < wordBound
  | _ => True

@[mk_iff]
structure Pin.Storable (pin : Pin) : Prop where
  name : pin.name.index < wordBound
  signal : pin.signal.index < wordBound

@[mk_iff]
structure Cell.Storable (cell : Cell) : Prop where
  id : cell.id.index < wordBound
  name : cell.name.index < wordBound
  operation : cell.operation.Storable
  pins : ∀ pin ∈ cell.pins, pin.Storable

/-- Every number of the netlist fits the 32 bits that the format has for it. -/
@[mk_iff]
structure Netlist.Storable (netlist : Netlist) : Prop where
  name : netlist.name.index < wordBound
  ports : ∀ port ∈ netlist.ports, port.Storable
  signals : ∀ signal ∈ netlist.signals.items, signal.Storable
  cells : ∀ cell ∈ netlist.cells.items, cell.Storable
  types : ∀ type ∈ netlist.types.types, type.Storable

instance : DecidablePred DataType.Storable
  | .bits width => inferInstanceAs (Decidable (width < wordBound))
  | .array element size => inferInstanceAs (Decidable (element.index < wordBound ∧ size < wordBound))

instance : DecidablePred Operation.Storable
  | .slice offset width => inferInstanceAs (Decidable (offset < wordBound ∧ width < wordBound))
  | .constant _ | .concat | .buffer | .bitcast => isTrue trivial

instance : DecidablePred Signal.Storable := fun signal => decidable_of_iff' _ signal.storable_iff

instance : DecidablePred Port.Storable := fun port => decidable_of_iff' _ port.storable_iff

instance : DecidablePred Pin.Storable := fun pin => decidable_of_iff' _ pin.storable_iff

instance : DecidablePred Cell.Storable := fun cell => decidable_of_iff' _ cell.storable_iff

instance : DecidablePred Netlist.Storable := fun netlist => decidable_of_iff' _ netlist.storable_iff

/-! ### Ids and bits -/

theorem Ident.recovers : Recovers Ident.toJson Ident.ofJson? (·.index < wordBound) := by
  intro ident h
  rw [Ident.toJson, Ident.ofJson?, word_ofNat h]
  rfl

theorem SignalId.recovers : Recovers SignalId.toJson SignalId.ofJson? (·.index < wordBound) := by
  intro id h
  rw [SignalId.toJson, SignalId.ofJson?, word_ofNat h]
  rfl

theorem CellId.recovers : Recovers CellId.toJson CellId.ofJson? (·.index < wordBound) := by
  intro id h
  rw [CellId.toJson, CellId.ofJson?, word_ofNat h]
  rfl

theorem PortId.recovers : Recovers PortId.toJson PortId.ofJson? (·.index < wordBound) := by
  intro id h
  rw [PortId.toJson, PortId.ofJson?, word_ofNat h]
  rfl

theorem TypeId.recovers : Recovers TypeId.toJson TypeId.ofJson? (·.index < wordBound) := by
  intro id h
  rw [TypeId.toJson, TypeId.ofJson?, word_ofNat h]
  rfl

theorem Logic.recovers : Recovers Logic.toJson Logic.ofJson? (fun _ => True) := by
  intro bit _
  cases bit <;> rfl

theorem Pattern.recovers : Recovers Pattern.toJson Pattern.ofJson? (fun _ => True) := by
  intro pattern _
  have hbits : (Json.array (pattern.bits.map Logic.toJson)).list? Logic.ofJson? = some pattern.bits :=
    Logic.recovers.list pattern.bits fun _ _ => trivial
  rw [Pattern.toJson, Pattern.ofJson?, hbits]
  rfl

theorem Direction.recovers : Recovers Direction.toJson Direction.ofJson? (fun _ => True) := by
  intro direction _
  cases direction <;> rfl

theorem SignalKind.recovers : Recovers SignalKind.toJson SignalKind.ofJson? (fun _ => True) := by
  intro kind _
  cases kind <;> rfl

/-! ### Structures and alternatives

Each is first read with any values in place of its fields, then with the fields as they are written. -/

theorem DataType.ofJson_bits (width : Json) :
    ofJson? (.object [("Bits", .object [("width", width)])]) = do
      return .bits (← width.word?) := rfl

theorem DataType.ofJson_array (element size : Json) :
    ofJson? (.object [("Array", .object [("element", element), ("size", size)])]) = do
      return .array (← TypeId.ofJson? element) (← size.word?) := rfl

theorem DataType.recovers : Recovers DataType.toJson DataType.ofJson? DataType.Storable := by
  intro type h
  cases type with
  | bits width =>
    rw [toJson, ofJson_bits, word_ofNat h]
    rfl
  | array element size =>
    rw [toJson, ofJson_array, TypeId.recovers element h.1, word_ofNat h.2]
    rfl

theorem TypeTable.ofJson_object (types : Json) :
    ofJson? (.object [("types", types)]) = do
      return { types := (← types.list? DataType.ofJson?).toArray } := rfl

/-- A type table comes back without the answers that it remembered. -/
theorem TypeTable.ofJson_toJson {table : TypeTable} (h : ∀ type ∈ table.types, type.Storable) :
    TypeTable.ofJson? table.toJson = some { types := table.types } := by
  have htypes : (Json.array (table.types.toList.map DataType.toJson)).list? DataType.ofJson? =
      some table.types.toList :=
    DataType.recovers.list _ fun type htype => h type (Array.mem_toList_iff.mp htype)
  rw [toJson, ofJson_object, htypes]
  rfl

theorem Signal.ofJson_object (id name type kind : Json) :
    ofJson? (.object [("id", id), ("name", name), ("ty", type), ("kind", kind)]) = do
      return ⟨← SignalId.ofJson? id, ← Ident.ofJson? name, ← TypeId.ofJson? type,
        ← SignalKind.ofJson? kind⟩ := rfl

theorem Signal.recovers : Recovers Signal.toJson Signal.ofJson? Signal.Storable := by
  intro signal h
  rw [toJson, ofJson_object, SignalId.recovers _ h.id, Ident.recovers _ h.name,
    TypeId.recovers _ h.type, SignalKind.recovers _ trivial]
  rfl

/-- An output that nothing drives has `null` for its signal. -/
theorem Port.signal_recovers {signal : Option SignalId}
    (h : ∀ id ∈ signal, id.index < wordBound) :
    signalOfJson? (some (signalToJson signal)) = some signal := by
  cases signal with
  | none => rfl
  | some id =>
    have hid : SignalId.ofJson? id.toJson = some id := SignalId.recovers id (h id rfl)
    show (SignalId.ofJson? id.toJson).map some = some (some id)
    rw [hid]
    rfl

theorem Port.ofJson_object (id name direction type signal : Json) :
    ofJson? (.object [("id", id), ("name", name), ("direction", direction), ("ty", type),
      ("signal", signal)]) = do
        return ⟨← PortId.ofJson? id, ← Ident.ofJson? name, ← Direction.ofJson? direction,
          ← TypeId.ofJson? type, ← signalOfJson? (some signal)⟩ := rfl

theorem Port.recovers : Recovers Port.toJson Port.ofJson? Port.Storable := by
  intro port h
  rw [toJson, ofJson_object, PortId.recovers _ h.id, Ident.recovers _ h.name,
    Direction.recovers _ trivial, TypeId.recovers _ h.type, signal_recovers h.signal]
  rfl

theorem Operation.ofJson_constant (value : Json) :
    ofJson? (.object [("Const", .object [("value", value)])]) = do
      return .constant (← Pattern.ofJson? value) := rfl

theorem Operation.ofJson_slice (offset width : Json) :
    ofJson? (.object [("Slice", .object [("offset", offset), ("width", width)])]) = do
      return .slice (← offset.word?) (← width.word?) := rfl

theorem Operation.recovers : Recovers Operation.toJson Operation.ofJson? Operation.Storable := by
  intro operation h
  cases operation with
  | constant pattern =>
    rw [toJson, ofJson_constant, Pattern.recovers pattern trivial]
    rfl
  | slice offset width =>
    rw [toJson, ofJson_slice, word_ofNat h.1, word_ofNat h.2]
    rfl
  | concat => rfl
  | buffer => rfl
  | bitcast => rfl

theorem Pin.ofJson_object (name direction signal : Json) :
    ofJson? (.object [("port_name", name), ("direction", direction), ("signal", signal)]) = do
      return ⟨← Ident.ofJson? name, ← Direction.ofJson? direction, ← SignalId.ofJson? signal⟩ := rfl

theorem Pin.recovers : Recovers Pin.toJson Pin.ofJson? Pin.Storable := by
  intro pin h
  rw [toJson, ofJson_object, Ident.recovers _ h.name, Direction.recovers _ trivial,
    SignalId.recovers _ h.signal]
  rfl

theorem Cell.ofJson_object (id name kind pins : Json) :
    ofJson? (.object [("id", id), ("name", name), ("kind", kind), ("connections", pins)]) = do
      return ⟨← CellId.ofJson? id, ← Ident.ofJson? name, ← Operation.ofJson? kind,
        ← pins.list? Pin.ofJson?⟩ := rfl

theorem Cell.recovers : Recovers Cell.toJson Cell.ofJson? Cell.Storable := by
  intro cell h
  have hpins : (Json.array (cell.pins.map Pin.toJson)).list? Pin.ofJson? = some cell.pins :=
    Pin.recovers.list _ h.pins
  rw [toJson, ofJson_object, CellId.recovers _ h.id, Ident.recovers _ h.name,
    Operation.recovers _ h.operation, hpins]
  rfl

theorem Netlist.ofJson_object (name ports signals cells types : Json) :
    ofJson? (.object [("name", name), ("ports", ports), ("signals", signals), ("cells", cells),
      ("types", types)]) = do
        return ⟨← Ident.ofJson? name, ← ports.list? Port.ofJson?, ← Table.ofJson? Signal.ofJson? signals,
          ← Table.ofJson? Cell.ofJson? cells, ← TypeTable.ofJson? types⟩ := rfl

theorem Netlist.reload_eq {netlist : Netlist} (h : netlist.Storable) :
    netlist.reload? = some { netlist with types := { types := netlist.types.types } } := by
  have hports : (Json.array (netlist.ports.map Port.toJson)).list? Port.ofJson? = some netlist.ports :=
    Port.recovers.list _ h.ports
  rw [reload?, toJson, ofJson_object, Ident.recovers _ h.name, hports,
    Signal.recovers.table _ h.signals, Cell.recovers.table _ h.cells, TypeTable.ofJson_toJson h.types]
  rfl

/-! ### What is not stored does not matter

The remembered answers are looked at only when a type is added. -/

section

variable {table other : TypeTable}

theorem TypeTable.unfold_congr (h : table.types = other.types) (depth : Nat) (id : TypeId) :
    table.unfold depth id = other.unfold depth id := by
  induction depth generalizing id with
  | zero => rfl
  | succ depth ih =>
    have hget : table.get id = other.get id := by unfold TypeTable.get; rw [h]
    unfold TypeTable.unfold
    simp only [hget, ih]

theorem TypeTable.layout_congr (h : table.types = other.types) (id : TypeId) :
    table.layout id = other.layout id := by
  have hsize : table.size = other.size := congrArg Array.size h
  unfold TypeTable.layout
  rw [hsize, unfold_congr h]

theorem TypeTable.bitWidth_congr (h : table.types = other.types) (id : TypeId) :
    table.bitWidth id = other.bitWidth id := by
  unfold TypeTable.bitWidth
  rw [layout_congr h]

theorem TypeTable.text_congr (h : table.types = other.types) (id : TypeId) :
    table.text id = other.text id := by
  unfold TypeTable.text
  rw [layout_congr h]

theorem Wiring.trace_congr (h : table.types = other.types) (signals : Table SignalId Signal)
    (cells : Table CellId Cell) (drivers : DriverMap) (depth : Nat) :
    Wiring.trace ⟨signals, cells, table, drivers⟩ depth =
      Wiring.trace ⟨signals, cells, other, drivers⟩ depth := by
  induction depth with
  | zero => rfl
  | succ depth ih =>
    funext signal
    unfold Wiring.trace
    simp only [TypeTable.bitWidth_congr h, ih]

end

namespace Netlist

/-- The same netlist, but for the answers that the type tables remember. -/
structure Agrees (netlist other : Netlist) : Prop where
  name : netlist.name = other.name
  ports : netlist.ports = other.ports
  signals : netlist.signals = other.signals
  cells : netlist.cells = other.cells
  types : netlist.types.types = other.types.types

variable {netlist other : Netlist}

theorem Agrees.toJson (h : netlist.Agrees other) : netlist.toJson = other.toJson := by
  unfold Netlist.toJson TypeTable.toJson
  rw [h.name, h.ports, h.signals, h.cells, h.types]

theorem Agrees.findPort (h : netlist.Agrees other) (names : Names) (text : String) :
    netlist.findPort? names text = other.findPort? names text := by
  unfold findPort?
  rw [h.ports]

theorem Agrees.driverMap (h : netlist.Agrees other) : netlist.driverMap = other.driverMap := by
  unfold Netlist.driverMap
  rw [h.cells]

theorem Agrees.histogram (h : netlist.Agrees other) : netlist.histogram = other.histogram := by
  unfold Netlist.histogram
  rw [h.cells]

theorem Agrees.origins (h : netlist.Agrees other) (signal : SignalId) :
    netlist.origins signal = other.origins signal := by
  unfold Netlist.origins Netlist.wiring Wiring.origins
  rw [h.signals, h.cells, h.driverMap, Wiring.trace_congr h.types]

theorem Agrees.text (h : netlist.Agrees other) (names : Names) :
    netlist.text names = other.text names := by
  have hinput : netlist.inputLine names = other.inputLine names := by
    funext port
    unfold inputLine
    simp only [TypeTable.text_congr h.types]
  have hcell : netlist.cellLine names = other.cellLine names := by
    funext cell
    unfold cellLine
    simp only [TypeTable.text_congr h.types, h.signals]
  have houtput : netlist.outputLine names = other.outputLine names := by
    funext port
    unfold outputLine
    simp only [TypeTable.text_congr h.types]
  unfold Netlist.text lines
  rw [h.name, h.ports, h.cells, hinput, hcell, houtput]

end Netlist

/-- **A stored netlist is loaded whole.** The loaded netlist has the same parts, is stored as the same
JSON, and answers as the original does: it finds the same ports, traces bits to the same origins, has
the same drivers and cell counts and the same text, and faults where the original faults. -/
theorem reload_faithful (netlist : Netlist) (h : netlist.Storable) :
    ∃ loaded, netlist.reload? = some loaded ∧ loaded.Agrees netlist ∧
      loaded.toJson = netlist.toJson ∧ loaded.driverMap = netlist.driverMap ∧
      loaded.histogram = netlist.histogram ∧
      (∀ signal, loaded.origins signal = netlist.origins signal) ∧
      (∀ names text, loaded.findPort? names text = netlist.findPort? names text) ∧
      ∀ names, loaded.text names = netlist.text names := by
  have hagrees : { netlist with types := { types := netlist.types.types } : Netlist }.Agrees netlist :=
    ⟨rfl, rfl, rfl, rfl, rfl⟩
  exact ⟨_, Netlist.reload_eq h, hagrees, hagrees.toJson, hagrees.driverMap, hagrees.histogram,
    hagrees.origins, hagrees.findPort, hagrees.text⟩

/-- A netlist that no builder makes: an input without a signal, an output that nothing drives, a buffer
on a signal that there is not, a type whose elements are of the type itself, and a remembered answer. -/
def looseNetlist : Netlist where
  name := ⟨0⟩
  ports := [⟨⟨0⟩, ⟨1⟩, .input, ⟨0⟩, none⟩, ⟨⟨1⟩, ⟨2⟩, .output, ⟨1⟩, none⟩,
    ⟨⟨2⟩, ⟨3⟩, .output, ⟨0⟩, some ⟨4294967295⟩⟩]
  signals := ⟨#[⟨⟨0⟩, ⟨4⟩, ⟨0⟩, .wire⟩, ⟨⟨1⟩, ⟨5⟩, ⟨0⟩, .wire⟩, ⟨⟨2⟩, ⟨6⟩, ⟨1⟩, .port⟩]⟩
  cells := ⟨#[⟨⟨0⟩, ⟨7⟩, .constant ⟨[.unknown, .floating]⟩, [⟨⟨8⟩, .output, ⟨0⟩⟩]⟩,
    ⟨⟨1⟩, ⟨9⟩, .buffer, [⟨⟨10⟩, .input, ⟨3⟩⟩, ⟨⟨8⟩, .output, ⟨1⟩⟩]⟩]⟩
  types := { types := #[.bits 2, .array ⟨1⟩ 3], known := [(.bits 2, ⟨0⟩)] }

theorem reload_looseNetlist :
    looseNetlist.Storable ∧ ∃ loaded, looseNetlist.reload? = some loaded ∧
      loaded.ports = looseNetlist.ports ∧
      loaded.origins ⟨0⟩ = .ok [.constant .unknown, .constant .floating] ∧
      loaded.origins ⟨1⟩ = .error .unknownId ∧ loaded.origins ⟨2⟩ = .error .endless := by
  have hstorable : looseNetlist.Storable := by decide
  obtain ⟨loaded, hloaded, hagrees, _, _, _, horigins, _⟩ := reload_faithful looseNetlist hstorable
  refine ⟨hstorable, loaded, hloaded, hagrees.ports, ?_, ?_, ?_⟩
  · rw [horigins]; rfl
  · rw [horigins]; rfl
  · rw [horigins]; rfl

end NetArray
