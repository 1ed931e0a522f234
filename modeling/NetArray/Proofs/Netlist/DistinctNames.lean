import Mathlib
import NetArray.Proofs.Netlist.FreshNames
import NetArray.Proofs.Netlist.PortDriving
import NetArray.Proofs.Netlist.Runs

/-!
# Distinct names in a netlist

Three mechanisms name things. The caller names ports, and wires if it wants to; a cell gets a fresh name, and so
does its signal unless it was given one; and a name may be made unique, which consults the names that the ports
and signals of the netlist hold. All three work on one table of names, which other netlists use as well.

`Builder.Named` is what keeps them apart. Names that are held are names of the table, and `taken` lists just these;
a fresh name is not in the table yet, so it is held by nothing. What a call must not do is to give a port or a
wire a name that is held (`Call.NamesFree`). Under that condition every call keeps the invariant
(`Call.names_perform`), and without any condition it only grows the table, which is all that another netlist
on the same table needs to know.
-/

namespace NetArray

/-- Different names have different texts. -/
theorem Names.Distinct.exists_texts {names : Names} {idents : List Ident} (h : names.Distinct)
    (hknown : ∀ ident ∈ idents, ident.index < names.table.size) (hnodup : idents.Nodup) :
    ∃ texts, idents.mapM names.text = .ok texts ∧ texts.Nodup := by
  obtain ⟨texts, htexts⟩ := exists_forall₂ fun ident hmem => Names.exists_text (hknown ident hmem)
  refine ⟨texts, mapM_eq_ok.mpr htexts, ?_⟩
  clear hknown
  induction htexts with
  | nil => exact .nil
  | @cons ident text idents texts htext hrest ih =>
    obtain ⟨hnew, hnodup⟩ := List.nodup_cons.mp hnodup
    refine List.nodup_cons.mpr ⟨fun hmem => ?_, ih hnodup⟩
    -- the same text once more would be the same name
    obtain ⟨other, hother, htext'⟩ := exists_of_forall₂_of_mem hrest hmem
    rw [h.ident_eq htext htext'] at hnew
    exact hnew hother

namespace Builder

/-! ### Who holds a name -/

/-- The names that ports and signals hold. -/
def holders (builder : Builder) : List Ident :=
  builder.ports.map (·.name) ++ builder.signals.items.toList.map (·.name)

/-- A port or a signal holds the name. -/
def Holds (builder : Builder) (text : String) : Prop :=
  ∃ ident ∈ builder.holders, builder.names.text ident = .ok text

instance (builder : Builder) (text : String) : Decidable (builder.Holds text) :=
  inferInstanceAs (Decidable (∃ ident ∈ builder.holders, _))

/-- The signals that cells drive. -/
def drivenSignals (builder : Builder) : List Signal :=
  builder.signals.items.toList.filter fun signal => (builder.drivers.lookup signal.id).isSome

/-- The names of the ports and of the signals that cells drive. -/
def boundNames (builder : Builder) : List Ident :=
  builder.ports.map (·.name) ++ builder.drivenSignals.map (·.name)

/-- The names of the cells. -/
def cellNames (builder : Builder) : List Ident :=
  builder.cells.items.toList.map (·.name)

/-- What is true of the names of a netlist. -/
structure Named (builder : Builder) : Prop where
  /-- No name was entered twice. -/
  distinct : builder.names.Distinct
  /-- The names that are noted as taken are those that ports and signals hold. -/
  taken : ∀ {ident}, ident ∈ builder.taken ↔ ident ∈ builder.holders
  /-- A name that is held is in the table. -/
  known : ∀ {ident}, ident ∈ builder.holders → ident.index < builder.names.table.size
  /-- Ports and driven signals have different names. -/
  bound : builder.boundNames.Nodup
  /-- The names of cells are in the table. -/
  knownCells : ∀ {ident}, ident ∈ builder.cellNames → ident.index < builder.names.table.size
  /-- Cells have different names. -/
  cells : builder.cellNames.Nodup
  /-- A signal knows its number, or at least that it is none of those to come. -/
  ids : ∀ {signal}, signal ∈ builder.signals.items.toList → signal.id.index < builder.signals.size
  /-- Only signals that are there have a driver. -/
  drivers : ∀ {entry}, entry ∈ builder.drivers → entry.1.index < builder.signals.size

variable {builder builder' : Builder} {names : Names} {ident : Ident} {text : String}

theorem named_start {names : Names} (hdistinct : names.Distinct) (name : String) :
    (start names name).Named where
  distinct := (names.grows_intern name).distinct hdistinct
  taken := .rfl
  known hmem := nomatch hmem
  bound := .nil
  knownCells hmem := nomatch hmem
  cells := .nil
  ids hmem := nomatch hmem
  drivers hmem := nomatch hmem

/-- A name that nothing holds has a number that nothing holds. -/
theorem Named.notMem_holders (h : builder.Named) (hgrows : builder.names.Grows names)
    (htext : names.text ident = .ok text) (hfree : ¬builder.Holds text) : ident ∉ builder.holders := by
  intro hmem
  obtain ⟨held, hheld⟩ := Names.exists_text (h.known hmem)
  obtain rfl := Except.ok.inj ((hgrows.text hheld).symm.trans htext)
  exact hfree ⟨ident, hmem, hheld⟩

/-- A name that is not in the table yet is held by nothing. -/
theorem Named.notMem_of_le (h : builder.Named) (hle : builder.names.table.size ≤ ident.index) :
    ident ∉ builder.holders := fun hmem => absurd (h.known hmem) (Nat.not_lt_of_le hle)

/-- The names of driven signals are held. -/
theorem notMem_boundNames (h : ident ∉ builder.holders) : ident ∉ builder.boundNames := by
  intro hmem
  rw [holders, List.mem_append, not_or] at h
  rcases List.mem_append.mp hmem with hport | hsignal
  · exact h.1 hport
  · obtain ⟨signal, hdriven, rfl⟩ := List.mem_map.mp hsignal
    exact h.2 (List.mem_map.mpr ⟨signal, (List.mem_filter.mp hdriven).1, rfl⟩)

/-! ### What names a netlist -/

/-- More names in the table do not matter. -/
theorem Named.withNames (h : builder.Named) (hgrows : builder.names.Grows names) :
    Named { builder with names := names } where
  distinct := hgrows.distinct h.distinct
  taken := h.taken
  known hmem := hgrows.lt (h.known hmem)
  bound := h.bound
  knownCells hmem := hgrows.lt (h.knownCells hmem)
  cells := h.cells
  ids := h.ids
  drivers := h.drivers

theorem Named.withTypes (h : builder.Named) (types : TypeTable) :
    Named { builder with types := types } :=
  ⟨h.distinct, h.taken, h.known, h.bound, h.knownCells, h.cells, h.ids, h.drivers⟩

/-- Driving a port does not rename it. -/
theorem Named.withDriven (h : builder.Named) {port : PortId} {value : Value} {entry : Port}
    (hentry : builder.ports[port.index]? = some entry) : (builder.withDriven port value entry).Named := by
  have hports : (builder.withDriven port value entry).ports.map (·.name) = builder.ports.map (·.name) := by
    change (builder.ports.set port.index { entry with signal := some value.signal }).map (·.name) = _
    refine List.ext_getElem? fun place => ?_
    rw [List.getElem?_map, List.getElem?_map, List.getElem?_set]
    split
    · next heq =>
      subst heq
      obtain ⟨hlt, -⟩ := List.getElem?_eq_some_iff.mp hentry
      rw [if_pos hlt, hentry]
      rfl
    · rfl
  have hholders : (builder.withDriven port value entry).holders = builder.holders :=
    congrArg (· ++ _) hports
  have hbound : (builder.withDriven port value entry).boundNames = builder.boundNames :=
    congrArg (· ++ _) hports
  exact ⟨h.distinct, by rw [hholders]; exact h.taken, by rw [hholders]; exact h.known,
    by rw [hbound]; exact h.bound, h.knownCells, h.cells, h.ids, h.drivers⟩

/-- A port or a signal was added under a name, and nothing else was named. -/
structure Gives (builder builder' : Builder) (ident : Ident) : Prop where
  names : builder.names.Grows builder'.names
  taken : ∀ other, other ∈ builder'.taken ↔ other = ident ∨ other ∈ builder.taken
  holders : ∀ other, other ∈ builder'.holders ↔ other = ident ∨ other ∈ builder.holders
  bound : builder'.boundNames.Perm (ident :: builder.boundNames)

/-- Names stay apart when one is given that nothing holds. The parts that do not hold names may change as
well. -/
theorem Named.give (h : builder.Named) (hgives : builder.Gives builder' ident)
    (hlt : ident.index < builder'.names.table.size) (hfree : ident ∉ builder.holders)
    (hknownCells : ∀ {other}, other ∈ builder'.cellNames → other.index < builder'.names.table.size)
    (hcells : builder'.cellNames.Nodup)
    (hids : ∀ {signal}, signal ∈ builder'.signals.items.toList → signal.id.index < builder'.signals.size)
    (hdrivers : ∀ {entry}, entry ∈ builder'.drivers → entry.1.index < builder'.signals.size) :
    builder'.Named where
  distinct := hgives.names.distinct h.distinct
  taken {other} := by rw [hgives.taken, hgives.holders, h.taken]
  known {other} hmem := by
    rcases (hgives.holders other).mp hmem with rfl | hold
    · exact hlt
    · exact hgives.names.lt (h.known hold)
  bound := hgives.bound.nodup_iff.mpr (List.nodup_cons.mpr ⟨notMem_boundNames hfree, h.bound⟩)
  knownCells := hknownCells
  cells := hcells
  ids := hids
  drivers := hdrivers

/-- What is held then is that name and what was held before. -/
theorem Gives.holds_iff (hgives : builder.Gives builder' ident) (h : builder.Named)
    (htext : builder'.names.text ident = .ok text) (other : String) :
    builder'.Holds other ↔ other = text ∨ builder.Holds other := by
  constructor
  · rintro ⟨held, hmem, hheld⟩
    rcases (hgives.holders held).mp hmem with rfl | hold
    · exact .inl (Except.ok.inj (hheld.symm.trans htext))
    · -- a name that was held had its text already
      obtain ⟨old, hold'⟩ := Names.exists_text (h.known hold)
      obtain rfl := Except.ok.inj ((hgives.names.text hold').symm.trans hheld)
      exact .inr ⟨held, hold, hold'⟩
  · rintro (rfl | ⟨held, hmem, hheld⟩)
    · exact ⟨ident, (hgives.holders ident).mpr (.inl rfl), htext⟩
    · exact ⟨held, (hgives.holders held).mpr (.inr hmem), hgives.names.text hheld⟩

/-- The netlist with one more output port. -/
def withOutput (builder : Builder) (names : Names) (name : Ident) (type : TypeId) : Builder :=
  { builder with
    names := names
    ports := builder.ports ++ [⟨⟨lowWord builder.ports.length⟩, name, .output, type, none⟩]
    taken := name :: builder.taken }

/-- An output port has one name. -/
theorem gives_withOutput (builder : Builder) (hgrows : builder.names.Grows names) (ident : Ident) (type : TypeId) :
    builder.Gives (builder.withOutput names ident type) ident := by
  have hports : (builder.withOutput names ident type).ports.map (·.name)
      = builder.ports.map (·.name) ++ [ident] := List.map_append ..
  refine ⟨hgrows, fun other => List.mem_cons, fun other => ?_, ?_⟩
  · rw [holders, hports, List.append_assoc, List.mem_append, List.singleton_append, List.mem_cons,
      holders, List.mem_append]
    exact or_left_comm
  · rw [boundNames, hports, List.append_assoc]
    exact List.perm_middle

/-- An output port takes a name that nothing holds. -/
theorem Named.withOutput (h : builder.Named) (hgrows : builder.names.Grows names)
    (hlt : ident.index < names.table.size) (hfree : ident ∉ builder.holders) (type : TypeId) :
    (builder.withOutput names ident type).Named :=
  h.give (gives_withOutput builder hgrows ident type) hlt hfree (fun hmem => hgrows.lt (h.knownCells hmem))
    h.cells h.ids h.drivers

/-- What an input port and a cell have in common: a signal is added, and it knows its number. -/
theorem Named.ids_push (h : builder.Named) {signal other : Signal}
    (hid : signal.id = ⟨builder.signals.size⟩) (hmem : other ∈ (builder.signals.push signal).items.toList) :
    other.id.index < (builder.signals.push signal).size := by
  change other ∈ (builder.signals.items.push signal).toList at hmem
  rw [Array.toList_push, List.mem_append, List.mem_singleton] at hmem
  rw [Table.size_push]
  rcases hmem with hold | rfl
  · exact Nat.lt_succ_of_lt (h.ids hold)
  · rw [hid]
    exact Nat.lt_succ_self _

/-- The names of signals, with one more. -/
theorem signalNames_push (builder : Builder) (signal : Signal) :
    (builder.signals.push signal).items.toList.map (·.name)
      = builder.signals.items.toList.map (·.name) ++ [signal.name] := by
  change (builder.signals.items.push signal).toList.map (·.name) = _
  rw [Array.toList_push, List.map_append]
  rfl

/-- The signal of an input port is not driven by a cell. -/
theorem Named.drivenSignals_withPort (h : builder.Named) (names : Names) (name : Ident) (type : TypeId) :
    (builder.withPort names name type).drivenSignals = builder.drivenSignals := by
  have hnone : builder.drivers.lookup ⟨builder.signals.size⟩ = none := by
    refine List.lookup_eq_none_iff.mpr fun entry hentry => bne_iff_ne.mpr fun heq => ?_
    -- drivers are of signals that were there
    have hlt := h.drivers hentry
    rw [← heq] at hlt
    exact Nat.lt_irrefl _ hlt
  change ((builder.signals.items.push _).toList.filter fun signal =>
    (builder.drivers.lookup signal.id).isSome) = _
  rw [Array.toList_push, List.filter_append, List.filter_singleton, hnone]
  exact List.append_nil _

/-- An input port and its signal have the same name. -/
theorem Named.gives_withPort (h : builder.Named) (hgrows : builder.names.Grows names) (ident : Ident)
    (type : TypeId) : builder.Gives (builder.withPort names ident type) ident := by
  have hports : (builder.withPort names ident type).ports.map (·.name)
      = builder.ports.map (·.name) ++ [ident] := List.map_append ..
  have hsignals : (builder.withPort names ident type).signals.items.toList.map (·.name)
      = builder.signals.items.toList.map (·.name) ++ [ident] := signalNames_push builder _
  refine ⟨hgrows, fun other => ?_, fun other => ?_, ?_⟩
  · change other ∈ ident :: ident :: builder.taken ↔ _
    rw [List.mem_cons, List.mem_cons, or_self_left]
  · rw [holders, holders, hports, hsignals]
    simp only [List.mem_append, List.mem_singleton]
    tauto
  · rw [boundNames, hports, h.drivenSignals_withPort, List.append_assoc]
    exact List.perm_middle

/-- An input port takes a name that nothing holds, for itself and for its signal. -/
theorem Named.withPort (h : builder.Named) (hgrows : builder.names.Grows names)
    (hlt : ident.index < names.table.size) (hfree : ident ∉ builder.holders) (type : TypeId) :
    (builder.withPort names ident type).Named := by
  refine h.give (h.gives_withPort hgrows ident type) hlt hfree (fun hmem => hgrows.lt (h.knownCells hmem)) h.cells
    (h.ids_push rfl) fun hmem => ?_
  have hlt' := h.drivers hmem
  change _ < (builder.signals.push _).size
  rw [Table.size_push]
  exact Nat.lt_succ_of_lt hlt'

/-- A new cell drives a new signal. -/
theorem Named.drivenSignals_withCell (h : builder.Named) (names : Names)
    (signalName cellName outName : Ident) (type : TypeId) (operation : Operation) (pins : List Pin) :
    (builder.withCell names signalName cellName outName type operation pins).drivenSignals
      = builder.drivenSignals ++ [⟨⟨builder.signals.size⟩, signalName, type, .wire⟩] := by
  change ((builder.signals.items.push _).toList.filter fun signal =>
    (List.lookup signal.id ((⟨builder.signals.size⟩, _) :: builder.drivers)).isSome) = _
  rw [Array.toList_push, List.filter_append, List.filter_singleton, List.lookup_cons_self]
  refine congrArg (· ++ _) (List.filter_congr fun signal hsignal => ?_)
  -- the signals that were there have the drivers that they had
  have hne : signal.id ≠ ⟨builder.signals.size⟩ := by
    intro heq
    have hlt := h.ids hsignal
    rw [heq] at hlt
    exact Nat.lt_irrefl _ hlt
  rw [List.lookup_cons, beq_false_of_ne hne]

/-- A cell takes a name that is not in the table yet, and its signal one that nothing holds. -/
theorem Named.withCell (h : builder.Named) {signalName cellName : Ident}
    (hgrows : builder.names.Grows names) (hlt : signalName.index < names.table.size)
    (hfree : signalName ∉ builder.holders) (hnew : builder.names.table.size ≤ cellName.index)
    (hltCell : cellName.index < names.table.size) (outName : Ident) (type : TypeId)
    (operation : Operation) (pins : List Pin) :
    (builder.withCell names signalName cellName outName type operation pins).Named := by
  have hsignals : (builder.withCell names signalName cellName outName type operation
      pins).signals.items.toList.map (·.name) = builder.signals.items.toList.map (·.name) ++ [signalName] :=
    signalNames_push builder _
  have hcellNames : (builder.withCell names signalName cellName outName type operation pins).cellNames
      = builder.cellNames ++ [cellName] := by
    change (builder.cells.items.push _).toList.map (·.name) = _
    rw [Array.toList_push, List.map_append]
    rfl
  refine h.give ⟨hgrows, fun other => List.mem_cons, fun other => ?_, ?_⟩ hlt hfree (fun {other} hmem => ?_)
    ?_ (h.ids_push rfl) fun hmem => ?_
  · rw [holders, holders, hsignals]
    simp only [List.mem_append, List.mem_singleton]
    tauto
  · rw [boundNames, h.drivenSignals_withCell, List.map_append, ← List.append_assoc]
    exact List.perm_append_singleton _ _
  · rw [hcellNames, List.mem_append, List.mem_singleton] at hmem
    rcases hmem with hold | rfl
    · exact hgrows.lt (h.knownCells hold)
    · exact hltCell
  · rw [hcellNames, List.nodup_append]
    refine ⟨h.cells, List.nodup_singleton _, fun old hold new hmem => ?_⟩
    rw [List.mem_singleton.mp hmem]
    rintro rfl
    exact absurd (h.knownCells hold) (Nat.not_lt_of_le hnew)
  · change _ < (builder.signals.push _).size
    rw [Table.size_push]
    rcases List.mem_cons.mp hmem with rfl | hold
    · exact Nat.lt_succ_self _
    · exact Nat.lt_succ_of_lt (h.drivers hold)

end Builder

/-! ### Operations -/

section Operations

open Builder

/-- What a call may do to the names of a netlist: the table grows, and names that are apart stay apart. -/
structure Builder.KeepsNames (builder builder' : Builder) : Prop where
  grows : builder.names.Grows builder'.names
  named : builder.Named → builder'.Named

instance : Std.Refl KeepsNames := ⟨fun _ => ⟨.refl _, id⟩⟩

instance : IsTrans Builder KeepsNames :=
  ⟨fun _ _ _ h h' => ⟨h.grows.trans h'.grows, fun hnamed => h'.named (h.named hnamed)⟩⟩

theorem keepsNames_of_names {builder : Builder} {names : Names} (hgrows : builder.names.Grows names) :
    builder.KeepsNames { builder with names := names } :=
  ⟨hgrows, fun h => h.withNames hgrows⟩

theorem keepsNames_of_types (builder : Builder) (types : TypeTable) :
    builder.KeepsNames { builder with types := types } :=
  ⟨.refl _, fun h => h.withTypes types⟩

theorem keepsNames_intern (text : String) : Keeps KeepsNames (Build.intern text) :=
  fun _ => keepsNames_of_names (Names.grows_intern _ _)

theorem keepsNames_fresh (stem : String) : Keeps KeepsNames (Build.fresh stem) :=
  fun _ => keepsNames_of_names (Names.grows_fresh _ _)

theorem keepsNames_uniqueName (name : String) : Keeps KeepsNames (Build.uniqueName name) := by
  refine .bind (keepsNames_intern name) fun ident => .bind .get fun builder => ?_
  split
  · exact keepsNames_fresh name
  · exact .pure _

/-- A signal that is given a name must be given a free one. -/
theorem named_addCell {builder : Builder} (h : builder.Named) (operation : Operation)
    (inputs : List SignalId) (type : TypeId) {name : Option Ident}
    (hname : ∀ ident ∈ name, ident ∉ builder.holders ∧ ident.index < builder.names.table.size) :
    (finalState (Build.addCell operation inputs type name builder)).Named := by
  obtain ⟨names, cellName, outName, pins, hrun, -, -, hgrows, hindex, hlt⟩ :=
    addCell_run operation inputs type name builder
  rw [hrun, valueOf_final]
  cases name with
  | none => exact h.withCell hgrows hlt (h.notMem_of_le hindex.ge) hindex.ge hlt _ _ _ _
  | some ident =>
    obtain ⟨hfree, hknown⟩ := hname ident rfl
    exact h.withCell hgrows (hgrows.lt hknown) hfree hindex.ge hlt _ _ _ _

theorem grows_addCell (operation : Operation) (inputs : List SignalId) (type : TypeId)
    (name : Option Ident) (builder : Builder) :
    builder.names.Grows (finalState (Build.addCell operation inputs type name builder)).names := by
  obtain ⟨names, cellName, outName, pins, hrun, -, -, hgrows, -⟩ :=
    addCell_run operation inputs type name builder
  rw [hrun, valueOf_final]
  exact hgrows

theorem keepsNames_addCell (operation : Operation) (inputs : List SignalId) (type : TypeId) :
    Keeps KeepsNames (Build.addCell operation inputs type none) := fun builder =>
  ⟨grows_addCell _ _ _ _ builder, fun h => named_addCell h operation inputs type fun _ hmem => nomatch hmem⟩

theorem keepsNames_typedCell (operation : Operation) (inputs : List SignalId) (width : Nat) :
    Keeps KeepsNames (do Build.addCell operation inputs (← Build.bitsType width) none) :=
  .bind (fun builder => keepsNames_of_types builder _) fun type => keepsNames_addCell operation inputs type

theorem keepsNames_drive (port : PortId) (value : Value) : Keeps KeepsNames (Build.drive port value) := by
  intro builder
  have houtcome := builder.drive_outcome port value
  generalize Build.drive port value builder = result at houtcome ⊢
  cases houtcome with
  | taken htakes => exact ⟨.refl _, fun h => h.withDriven htakes.found⟩
  | refused => exact Std.Refl.refl builder
  | fault => exact Std.Refl.refl builder

end Operations

/-! ### Calls -/

namespace Call

variable {builder : Builder}

/-- A name that is given to a port is held by no port or signal; neither is a name that is given to a wire,
and it is a name of the table. -/
def NamesFree (builder : Builder) : Call → Prop
  | .input name _ => ¬builder.Holds name
  | .output name _ => ¬builder.Holds name
  | .wire ident _ => ident ∉ builder.holders ∧ ident.index < builder.names.table.size
  | _ => True

instance (call : Call) : Decidable (call.NamesFree builder) := by
  unfold NamesFree
  split <;> infer_instance

private theorem keepsNames_some {x : Build Value} (hx : Keeps Builder.KeepsNames x) :
    Keeps Builder.KeepsNames (some <$> x : Build (Option Value)) := fun builder => by
  rw [finalState_map]
  exact hx builder

/-- **Calls.** Every call only enters names, and keeps them apart if it gives none away twice. -/
theorem names_perform (call : Call) (builder : Builder) :
    builder.names.Grows (finalState (call.perform builder)).names ∧
      (builder.Named → call.NamesFree builder → (finalState (call.perform builder)).Named) := by
  have hkeeps : Keeps Builder.KeepsNames call.perform →
      builder.names.Grows (finalState (call.perform builder)).names ∧
        (builder.Named → call.NamesFree builder → (finalState (call.perform builder)).Named) := fun h =>
    ⟨(h builder).grows, fun hnamed _ => (h builder).named hnamed⟩
  cases call with
  | input name type =>
    have hfinal : finalState (perform (.input name type) builder)
        = builder.withPort (builder.names.intern name).2 (builder.names.intern name).1 type := by
      rw [perform, finalState_map, input_run, valueOf_final]
    rw [hfinal]
    have hgrows := builder.names.grows_intern name
    refine ⟨hgrows, fun h hfree => h.withPort hgrows (builder.names.lt_intern name) ?_ type⟩
    exact h.notMem_holders hgrows (builder.names.text_intern name) hfree
  | output name type =>
    have hgrows := builder.names.grows_intern name
    refine ⟨hgrows, fun h hfree => h.withOutput hgrows (builder.names.lt_intern name) ?_ type⟩
    exact h.notMem_holders hgrows (builder.names.text_intern name) hfree
  | wire ident source =>
    rw [perform, finalState_map]
    refine ⟨grows_addCell _ _ _ _ builder, fun h hfree => named_addCell h _ _ _ fun other hother => ?_⟩
    obtain rfl := Option.some.inj hother
    exact hfree
  -- what is left gives no name that the caller chose
  | drive port value => exact hkeeps (.bind (keepsNames_drive port value) fun _ => .pure _)
  | constant pattern => exact hkeeps (keepsNames_some (.guard fun _ => keepsNames_typedCell _ _ _))
  | slice source low width =>
    exact hkeeps (keepsNames_some (.guard fun _ => .guard fun _ => keepsNames_typedCell _ _ _))
  | concat operands =>
    exact hkeeps (keepsNames_some (.bind (.lift_checked _) fun _ => .guard fun _ =>
      keepsNames_typedCell _ _ _))
  | bitcast source type =>
    exact hkeeps (keepsNames_some (.bind .get fun _ => .bind (.lift_checked _) fun _ => .guard fun _ =>
      keepsNames_addCell _ _ _))
  | internType type => exact hkeeps fun builder => keepsNames_of_types builder _
  | internArray element dims =>
    exact hkeeps (.bind (fun builder => keepsNames_of_types builder _) fun _ => .pure _)
  | intern text => exact hkeeps (.bind (keepsNames_intern text) fun _ => .pure _)
  | fresh stem => exact hkeeps (.bind (keepsNames_fresh stem) fun _ => .pure _)
  | uniqueName name => exact hkeeps (.bind (keepsNames_uniqueName name) fun _ => .pure _)

end Call

end NetArray
