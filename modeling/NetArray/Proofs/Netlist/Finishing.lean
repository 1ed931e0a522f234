import Mathlib
import NetArray.Proofs.Netlist.DistinctNames
import NetArray.Proofs.Netlist.WellFormed

/-!
# Finishing a netlist

A builder notes which cell drives a signal when it adds the cell. A finished netlist has no such notes; whoever reads
it collects the drivers from the pins of the cells. `Builder.Traceable` says that the two are the same list. Every
operation keeps it, for a cell is the only thing that drives a signal (`keepsTraceable_addCell`), so a finished netlist
has the wiring of its builder (`wiring_finish`): the same bits behind each signal, and the same signals that cells
drive.
-/

namespace NetArray

/-! ### Names of a finished netlist -/

/-- The signals of a netlist that its cells drive. -/
def Netlist.wires (netlist : Netlist) : List Signal :=
  netlist.signals.items.toList.filter fun signal => (netlist.driverMap.lookup signal.id).isSome

/-- The names of the ports and of the signals that cells drive. -/
def Netlist.boundNames (netlist : Netlist) : List Ident :=
  netlist.ports.map (·.name) ++ netlist.wires.map (·.name)

namespace Builder

variable {builder builder' : Builder}

/-! ### Drivers -/

/-- The drivers that are noted are those that can be read off the cells. -/
def Traceable (builder : Builder) : Prop :=
  builder.finish.driverMap = builder.drivers

/-- What an operation may do to the notes. -/
def KeepsTraceable (builder builder' : Builder) : Prop :=
  builder.Traceable → builder'.Traceable

instance : Std.Refl KeepsTraceable := ⟨fun _ h => h⟩

instance : IsTrans Builder KeepsTraceable := ⟨fun _ _ _ h h' htraceable => h' (h htraceable)⟩

theorem traceable_start (names : Names) (name : String) : (start names name).Traceable := rfl

/-- A new cell is the last one, and is noted first. -/
theorem Traceable.withCell (h : builder.Traceable) (names : Names) (signalName cellName outName : Ident)
    (type : TypeId) (operation : Operation) {pins : List Pin} (hpins : ∀ pin ∈ pins, pin.direction = .input) :
    (builder.withCell names signalName cellName outName type operation pins).Traceable := by
  set cell : Cell := ⟨⟨builder.cells.size⟩, cellName, operation,
    pins ++ [⟨outName, .output, ⟨builder.signals.size⟩⟩]⟩ with hcell
  have houtput : cell.output? = some ⟨builder.signals.size⟩ := by
    have hends : cell.EndsAt ⟨builder.signals.size⟩ := ⟨pins, _, rfl, hpins, rfl, rfl⟩
    exact hends.output?
  calc (builder.withCell names signalName cellName outName type operation pins).finish.driverMap
    _ = (builder.cells.items.push cell).foldl Netlist.enterDriver [] := rfl
    _ = Netlist.enterDriver builder.finish.driverMap cell := Array.foldl_push ..
    _ = (⟨builder.signals.size⟩, cell.id) :: builder.drivers := by
      rw [Netlist.enterDriver, houtput, h]

theorem keepsTraceable_addCell (operation : Operation) (inputs : List SignalId) (type : TypeId)
    (name : Option Ident) : Keeps KeepsTraceable (Build.addCell operation inputs type name) := by
  intro builder h
  obtain ⟨names, cellName, outName, pins, hrun, -, hpins, -⟩ := addCell_run operation inputs type name builder
  rw [hrun, valueOf_final]
  exact h.withCell names (name.getD cellName) cellName outName type operation hpins

/-- What adds no cell leaves the notes as they are. -/
theorem Traceable.of_eq (h : builder.Traceable) (hcells : builder'.cells = builder.cells)
    (hdrivers : builder'.drivers = builder.drivers) : builder'.Traceable := by
  unfold Traceable
  rw [hdrivers, ← h]
  unfold Netlist.driverMap finish
  rw [hcells]

theorem keepsTraceable_typedCell (operation : Operation) (inputs : List SignalId) (width : Nat) :
    Keeps KeepsTraceable (do Build.addCell operation inputs (← Build.bitsType width) none) :=
  .bind (fun _ h => h.of_eq rfl rfl) fun _ => keepsTraceable_addCell _ _ _ _

/-! ### The finished netlist -/

/-- **Wiring.** The finished netlist has the wiring of its builder. -/
theorem Traceable.wiring_finish (h : builder.Traceable) : builder.finish.wiring = builder.wiring := by
  unfold Netlist.wiring wiring
  rw [h]
  rfl

/-- The bits behind a signal are the same. -/
theorem Traceable.origins_finish (h : builder.Traceable) (signal : SignalId) :
    builder.finish.origins signal = builder.wiring.origins signal := by
  rw [Netlist.origins, h.wiring_finish]

/-- **Names.** Ports and signals that cells drive have different names when the netlist is finished. -/
theorem Traceable.exists_texts_finish (h : builder.Traceable) (hnamed : builder.Named) :
    ∃ texts, builder.finish.boundNames.mapM builder.names.text = .ok texts ∧ texts.Nodup := by
  have hbound : builder.finish.boundNames = builder.boundNames := by
    unfold Netlist.boundNames Netlist.wires boundNames drivenSignals
    rw [h]
    rfl
  rw [hbound]
  refine hnamed.distinct.exists_texts (fun ident hmem => hnamed.known ?_) hnamed.bound
  by_contra hfree
  exact notMem_boundNames hfree hmem

end Builder

end NetArray
