import Mathlib
import NetArray.Proofs.Netlist.PortDriving
import NetArray.Proofs.Array.LoweringRuns

/-!
# Driving an output with an array

An output that is driven with an array is driven in two halves: the array is lowered, and the port is given the
result. `DrivenOutcome` lists what comes of both halves together.

The two halves are not one. Where the port refuses, the array has been lowered by then, and stays so: its
cells are in the netlist, its wire holds a name, and the array counts as lowered. Nothing else has changed, no
port among it (`Scene.driven_or_left`). The array is only spared where it cannot be lowered in the first
place.
-/

namespace NetArray

/-! ### What lowering leaves -/

namespace Builder

/-- The ports of both netlists are the same, driven or not, and cells are only added. -/
structure KeepsPorts (builder builder' : Builder) : Prop where
  ports : builder'.ports = builder.ports
  cells : builder.cells.size ≤ builder'.cells.size

instance : Std.Refl KeepsPorts := ⟨fun _ => ⟨rfl, le_rfl⟩⟩

instance : IsTrans Builder KeepsPorts :=
  ⟨fun _ _ _ h h' => ⟨h'.ports.trans h.ports, h.cells.trans h'.cells⟩⟩

/-- A cell adds itself and leaves the ports alone. -/
theorem addCell_final (operation : Operation) (inputs : List SignalId) (type : TypeId)
    (name : Option Ident) (builder : Builder) :
    (finalState (Build.addCell operation inputs type name builder)).ports = builder.ports ∧
      (finalState (Build.addCell operation inputs type name builder)).cells.size
        = builder.cells.size + 1 := by
  obtain ⟨names, cellName, outName, pins, hrun, -⟩ := addCell_run operation inputs type name builder
  rw [hrun, valueOf_final]
  exact ⟨rfl, Table.size_push _ _⟩

theorem keepsPorts_addCell (operation : Operation) (inputs : List SignalId) (type : TypeId)
    (name : Option Ident) : Keeps KeepsPorts (Build.addCell operation inputs type name) := by
  intro builder
  obtain ⟨hports, hcells⟩ := addCell_final operation inputs type name builder
  exact ⟨hports, by omega⟩

theorem keepsPorts_typedCell (operation : Operation) (inputs : List SignalId) (width : Nat) :
    Keeps KeepsPorts (do Build.addCell operation inputs (← Build.bitsType width) none) :=
  .bind (fun _ => ⟨rfl, le_rfl⟩) fun _ => keepsPorts_addCell _ _ _ _

theorem keepsPorts_wireName (name : Option String) (stem : String) :
    Keeps KeepsPorts (ArrayView.wireName name stem) := by
  intro builder
  obtain ⟨ident, names, hrun⟩ := ArrayView.wireName_run name stem builder
  rw [hrun]
  exact ⟨rfl, le_rfl⟩

/-- A wire is one more cell. -/
theorem cells_lt_of_barrier {builder builder' : Builder} {name : Option String} {stem : String}
    {source value : Value} (hrun : ArrayView.barrier name stem source builder = .ok value builder') :
    builder'.ports = builder.ports ∧ builder.cells.size < builder'.cells.size := by
  rw [ArrayView.barrier_eq] at hrun
  obtain ⟨ident, middle, hname, hwire⟩ := change_bind_eq_ok.mp hrun
  have hkeeps := (keepsPorts_wireName name stem).ok hname
  have hfinal := addCell_final .buffer [source.signal] source.type (some ident) middle
  rw [show Build.addCell .buffer [source.signal] source.type (some ident) middle = .ok value builder'
    from hwire] at hfinal
  obtain ⟨hports, hcells⟩ : builder'.ports = middle.ports ∧
    builder'.cells.size = middle.cells.size + 1 := hfinal
  have hle := hkeeps.cells
  exact ⟨hports.trans hkeeps.ports, by omega⟩

end Builder

namespace ArrayView

variable {view lowered : ArrayView} {workspace middle : Workspace} {value : Value} {port : PortId}

/-- A lowered array has a wire of its own at least, and no port knows of it. -/
theorem cells_lt_of_lower (hrun : view.lower {} workspace = .ok (value, lowered) middle) :
    middle.builder.ports = workspace.builder.ports ∧
      workspace.builder.cells.size < middle.builder.cells.size := by
  obtain ⟨parts, builder, hbuild, rfl⟩ := builder_of_lower hrun
  obtain ⟨flat, joined, hjoin, hbarrier⟩ := change_bind_eq_ok.mp hbuild
  obtain ⟨hports, hcells⟩ := Builder.cells_lt_of_barrier hbarrier
  have hkeeps := (keeps_join_of_cells Builder.keepsPorts_typedCell parts).ok hjoin
  exact ⟨hports.trans hkeeps.ports, hkeeps.cells.trans_lt hcells⟩

/-- The array that lowering answers counts as lowered. -/
theorem population_of_lower {settings : Settings}
    (hrun : view.lower settings workspace = .ok (value, lowered) middle) :
    ∃ store, middle.store lowered.store = .ok store ∧ lowered.population store = .ok .lowered := by
  obtain ⟨-, store, hstore, rfl⟩ := lower_eq_ok.mp hrun
  refine ⟨store, hstore, ?_⟩
  rw [population]
  simp

/-! ### Both halves -/

/-- What it comes to that an output is driven with an array. -/
inductive DrivenOutcome (view : ArrayView) (port : PortId) (workspace : Workspace) :
    EStateM.Result (Failure ArrayError) (ArrayView × Workspace) Unit → Prop where
  /-- The array cannot be lowered. -/
  | spared {cause : ArrayError} (hlower : view.lower {} workspace = .error (.refused cause) workspace) :
      DrivenOutcome view port workspace (.error (.refused cause) (view, workspace))
  /-- The array is lowered, and the port refuses it. -/
  | refused {value : Value} {lowered : ArrayView} {middle : Workspace} {cause : BuildError}
      (hlower : view.lower {} workspace = .ok (value, lowered) middle)
      (hrefuses : middle.builder.Refuses port value cause) :
      DrivenOutcome view port workspace (.error (.refused (.build cause)) (lowered, middle))
  /-- The port is driven. -/
  | driven {value : Value} {lowered : ArrayView} {middle : Workspace} {entry : Port}
      (hlower : view.lower {} workspace = .ok (value, lowered) middle)
      (htakes : middle.builder.Takes port value entry) :
      DrivenOutcome view port workspace
        (.ok () (lowered, { middle with builder := middle.builder.withDriven port value entry }))
  | fault (kind : Fault) (state : ArrayView × Workspace) :
      DrivenOutcome view port workspace (.error (.fault kind) state)

/-- **Both halves.** -/
theorem driven_outcome (hsound : workspace.Sound) (h : view.Sound workspace) (port : PortId) :
    DrivenOutcome view port workspace (driveOutput port (view, workspace)) := by
  unfold driveOutput
  cases hlower : view.lower {} workspace with
  | error failure middle =>
    simp only [hlower]
    cases failure with
    | fault kind => exact .fault kind _
    | refused cause =>
      obtain rfl := unchanged_of_refused hsound h hlower
      exact .spared hlower
  | ok answer middle =>
    obtain ⟨value, lowered⟩ := answer
    simp only [hlower]
    unfold Session.build
    have hport := middle.builder.drive_outcome port value
    generalize Build.drive port value middle.builder = result at hport ⊢
    cases hport with
    | taken htakes => exact .driven hlower htakes
    | refused hrefuses => exact .refused hlower hrefuses
    | fault kind => exact .fault kind _

end ArrayView

namespace Scene

variable {scene : Scene} {view : ArrayView}

/-- **Driven, or left lowered.** If an output is driven with an array, it was an output that nothing drove, it
is driven now, and the resolver finds the bits of the elements in what drives it, the one at offset 0 first.
If this is refused, no port and no store has changed. Then either the array could not be lowered, and nothing
has changed at all; or the port refused the lowered array, and what lowering has built is left behind: the
state is that of a lowering alone, with at least one cell more, and the array counts as lowered. -/
theorem driven_or_left (hscene : scene.Reachable) (hview : view ∈ scene.arrays) (port : PortId) :
    (∀ state, ArrayView.driveOutput port (view, scene.workspace) = .ok () state →
      ∃ entry value store ranges pieces,
        scene.workspace.builder.ports[port.index]? = some entry ∧ entry.direction = .output ∧
        entry.signal = none ∧
        state.2.builder.ports
          = scene.workspace.builder.ports.set port.index { entry with signal := some value.signal } ∧
        scene.workspace.store view.store = .ok store ∧ view.elements store = .ok ranges ∧
        view.count = .ok ranges.length ∧
        ranges.mapM scene.workspace.builder.rangeOrigins = .ok pieces ∧
        state.2.builder.origins value = .ok pieces.flatten) ∧
    ∀ cause state, ArrayView.driveOutput port (view, scene.workspace) = .error (.refused cause) state →
      state.2.builder.ports = scene.workspace.builder.ports ∧ state.2.stores = scene.workspace.stores ∧
      ((view.lower {} scene.workspace = .error (.refused cause) scene.workspace ∧
          state = (view, scene.workspace)) ∨
        ∃ value refusal, cause = .build refusal ∧
          view.lower {} scene.workspace = .ok (value, state.1) state.2 ∧
          state.2.builder.Refuses port value refusal ∧
          scene.workspace.builder.cells.size < state.2.builder.cells.size ∧
          ∃ store, state.2.store state.1.store = .ok store ∧ state.1.population store = .ok .lowered) := by
  have hsound := sound_of_reachable hscene
  have houtcome := ArrayView.driven_outcome hsound.workspace (hsound.made.arrays view hview) port
  refine ⟨fun state hrun => ?_, fun cause state hrun => ?_⟩
  · rw [hrun] at houtcome
    cases houtcome with
    | @driven value lowered middle entry hlower htakes =>
      obtain ⟨-, store, ranges, pieces, hstore, hranges, hcount, -, hpieces, hcarries⟩ :=
        ArrayView.carries_of_lower hsound.workspace (hsound.made.arrays view hview) hlower
      have horigins : ranges.mapM scene.workspace.builder.rangeOrigins = .ok pieces :=
        mapM_eq_ok.mpr (hpieces.imp fun _ _ hbacks => hbacks.origins hsound.workspace.builder)
      obtain ⟨hports, -⟩ := ArrayView.cells_lt_of_lower hlower
      have hentry := htakes.found
      rw [hports] at hentry
      refine ⟨entry, value, store, ranges, pieces, hentry, htakes.direction, htakes.free, ?_, hstore, hranges,
        hcount, horigins, hcarries.origins⟩
      -- the ports are those from before the array was lowered
      rw [← hports]
      rfl
  · rw [hrun] at houtcome
    cases houtcome with
    | spared hlower => exact ⟨rfl, rfl, .inl ⟨hlower, rfl⟩⟩
    | refused hlower hrefuses =>
      obtain ⟨hports, hcells⟩ := ArrayView.cells_lt_of_lower hlower
      obtain ⟨-, builder, -, rfl⟩ := ArrayView.builder_of_lower hlower
      exact ⟨hports, rfl, .inr ⟨_, _, rfl, hlower, hrefuses, hcells, ArrayView.population_of_lower hlower⟩⟩

/-- An array of one byte. -/
def byteArray : ArrayView := { shape := [1], elemType := .i8, store := ⟨0⟩ }

/-- An output of four bits beside the array. -/
def narrowOutput : Scene :=
  [.call (.internType (.bits 8)), .call (.input "a" ⟨0⟩), .call (.internType (.bits 4)),
    .call (.output "o" ⟨1⟩), .importValue ⟨⟨0⟩, ⟨0⟩, 8⟩].foldl step (start {} "m")

/-- The output refuses the array and is not driven, but the array counts as lowered from then on. -/
theorem driven_or_left_narrowOutput :
    ∃ state, ArrayView.driveOutput ⟨1⟩ (byteArray, narrowOutput.workspace)
        = .error (.refused (.build (.outputWidth "o" 4 8))) state ∧
      state.2.builder.ports = narrowOutput.workspace.builder.ports ∧
      ∃ store, state.2.store state.1.store = .ok store ∧ state.1.population store = .ok .lowered := by
  have hreachable : narrowOutput.Reachable := ⟨{}, "m", reaches_foldl (by decide +kernel)⟩
  have hview : byteArray ∈ narrowOutput.arrays := by decide +kernel
  have hrun : ArrayView.driveOutput ⟨1⟩ (byteArray, narrowOutput.workspace)
      = .error (.refused (.build (.outputWidth "o" 4 8)))
          (finalState (ArrayView.driveOutput ⟨1⟩ (byteArray, narrowOutput.workspace))) := by
    decide +kernel
  obtain ⟨hports, -, hspared | ⟨-, -, -, -, -, -, hlowered⟩⟩ :=
    (driven_or_left hreachable hview ⟨1⟩).2 _ _ hrun
  · -- the array by itself is not refused, and surely not by an output
    have hlower : byteArray.lower {} narrowOutput.workspace
        ≠ .error (.refused (.build (.outputWidth "o" 4 8))) narrowOutput.workspace := by decide +kernel
    exact absurd hspared.1 hlower
  · exact ⟨_, hrun, hports, hlowered⟩

/-- The output refuses the array, which was populated and is lowered now, and a cell is there that was not
there before. -/
theorem cells_left_by_narrowOutput :
    ∃ state store, ArrayView.driveOutput ⟨1⟩ (byteArray, narrowOutput.workspace)
        = .error (.refused (.build (.outputWidth "o" 4 8))) state ∧
      narrowOutput.workspace.store byteArray.store = .ok store ∧
      byteArray.population store = .ok .fullyPopulated ∧ state.1.population store = .ok .lowered ∧
      narrowOutput.workspace.builder.cells.size = 0 ∧ state.2.builder.cells.size = 1 :=
  ⟨finalState (ArrayView.driveOutput ⟨1⟩ (byteArray, narrowOutput.workspace)),
    { elemType := .i8, slots := #[none], origin := some (.whole ⟨⟨0⟩, ⟨0⟩, 8⟩) },
    by decide +kernel, by decide +kernel, by decide +kernel, by decide +kernel, by decide +kernel,
    by decide +kernel⟩

end Scene

end NetArray
