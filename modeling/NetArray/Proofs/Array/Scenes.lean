import Mathlib
import NetArray.Proofs.Steps
import NetArray.Proofs.Netlist.Runs
import NetArray.Proofs.Array.LoweredBits

/-!
# Scenes

A `Scene` is what a caller of the library has after some actions: the workspace, and the values and arrays that
were made. An action makes an array, derives one from another, writes through one, lowers one, or calls the
builder directly. Its outcome does not matter: an action that fails may have left cells behind, and the
next one goes on from there. Values and arrays are kept, so each of them can be used any number of times. The value of
any signal can be asked for too, so the cells that reading and lowering leave behind are open to a caller like all
others.

A constant of a scene has no more bits than a width can count (`Action.Fits`); what is said of scenes leaves longer ones
out.

The invariant is `Scene.Sound`. The values carry bits, the arrays fit their stores, and the elements of all
stores lie within values of the netlist. Every action is covered by a lemma that says what it yields
(`Action.yields_perform`); since operations only extend a workspace, what was there before stays as it is,
and the invariant holds in every scene that can be reached (`Scene.sound_of_reachable`).
-/

namespace NetArray

/-- What a caller can do: call the builder directly, ask it for the value of a signal, make an array of its own or
from a value, derive a view, name or join arrays, write at a coordinate or to a selection, and make values of
elements and of whole arrays, to go on with or to drive a port with. -/
inductive Action where
  | call (operation : Call)
  | valueOf (signal : SignalId)
  -- new arrays
  | create (shape : List Nat) (elemType : ElemType)
  | importValue (value : Value)
  | importAs (value : Value) (elemType : ElemType) (shape : Option (List Nat))
  -- arrays of arrays
  | derive (view : ArrayView) (step : Transform)
  | rename (view : ArrayView) (name : String)
  | concatenate (view : ArrayView) (operands : List Operand)
  -- writes
  | set (view : ArrayView) (coordinate : List Nat) (value : BitRange)
  | assign (view : ArrayView) (selection : List Selector) (value : BitRange)
  -- values
  | read (view : ArrayView) (coordinate : List Nat)
  | lower (view : ArrayView) (settings : Settings)
  | driveOutput (view : ArrayView) (port : PortId)
  deriving DecidableEq, Repr

/-- What an action made. -/
structure Made where
  values : List Value := []
  arrays : List ArrayView := []
  deriving DecidableEq, Repr

namespace Operand

/-- The values that an operand is given as. -/
def values : Operand → List Value
  | .array _ => []
  | .value source => [source]

/-- The arrays that an operand is given as. -/
def arrays : Operand → List ArrayView
  | .array view => [view]
  | .value _ => []

end Operand

namespace Action

/-- The values that an action is given. -/
def values : Action → List Value
  | .call operation => operation.operands
  | .importValue value => [value]
  | .importAs value _ _ => [value]
  | .concatenate _ operands => operands.flatMap Operand.values
  | .set _ _ value => [value.source]
  | .assign _ _ value => [value.source]
  | _ => []

/-- The arrays that an action is given. -/
def arrays : Action → List ArrayView
  | .derive view _ => [view]
  | .rename view _ => [view]
  | .concatenate view operands => view :: operands.flatMap Operand.arrays
  | .set view _ _ => [view]
  | .assign view _ _ => [view]
  | .read view _ => [view]
  | .lower view _ => [view]
  | .driveOutput view _ => [view]
  | _ => []

/-- A value that is written lies within its source, and the widths of a call fit their machine words, those of
constants included (`Call.Fits`). -/
def Fits : Action → Prop
  | .call operation => operation.Fits
  | .set _ _ value => value.low + value.width ≤ value.source.width
  | .assign _ _ value => value.low + value.width ≤ value.source.width
  | _ => True

instance (action : Action) : Decidable action.Fits := by
  unfold Fits
  split <;> infer_instance

/-- Runs an action. An array that could not drive its port is there all the same. -/
def perform : Action → Session Made
  | .call operation => do return { values := (← Session.build operation.perform).toList }
  | .valueOf signal => do return { values := [← ((← get).builder.valueOf signal : Checked Value)] }
  | .create shape elemType => do return { arrays := [← ArrayView.create shape elemType] }
  | .importValue value => do return { arrays := [← ArrayView.ofValue value] }
  | .importAs value elemType shape => do
    return { arrays := [← ArrayView.ofValueAs value elemType shape] }
  | .derive view step => do return { arrays := [← view.transform step] }
  | .rename view name => return { arrays := [view.named name] }
  | .concatenate view operands => do return { arrays := [← view.concatenate operands] }
  | .set view coordinate value => do
    view.set coordinate value
    return {}
  | .assign view selection value => do
    view.assign selection value
    return {}
  | .read view coordinate => do return { values := [← view.read coordinate] }
  | .lower view settings => do
    let (value, view) ← view.lower settings
    return { values := [value], arrays := [view] }
  | .driveOutput view port => fun workspace =>
    let (view, workspace) := finalState (ArrayView.driveOutput port (view, workspace))
    .ok { arrays := [view] } workspace

end Action

/-- The workspace, and the values and arrays that were made, the latest first. -/
structure Scene where
  workspace : Workspace
  values : List Value := []
  arrays : List ArrayView := []

namespace Scene

/-- Before any action. -/
def start (names : Names) (name : String) : Scene :=
  { workspace := { builder := .start names name } }

/-- The action is about values and arrays that were made. -/
def Allows (scene : Scene) (action : Action) : Prop :=
  action.Fits ∧ (∀ value ∈ action.values, value ∈ scene.values) ∧
    ∀ view ∈ action.arrays, view ∈ scene.arrays

instance (scene : Scene) (action : Action) : Decidable (scene.Allows action) :=
  inferInstanceAs (Decidable (_ ∧ _))

/-- What there is after an action, whatever its outcome. -/
def step (scene : Scene) (action : Action) : Scene :=
  match action.perform scene.workspace with
  | .ok made workspace =>
    { workspace := workspace
      values := made.values ++ scene.values
      arrays := made.arrays ++ scene.arrays }
  | .error _ workspace => { scene with workspace := workspace }

/-- Some actions lead from the one scene to the other. -/
def Reaches (scene later : Scene) : Prop :=
  NetArray.Reaches Allows step scene later

/-- A caller who starts with an empty netlist can get there, with constants that have a width of their own. -/
def Reachable (scene : Scene) : Prop :=
  ∃ names name, (start names name).Reaches scene

/-- The workspace after a step is that of the action. -/
theorem step_workspace (scene : Scene) (action : Action) :
    (scene.step action).workspace = finalState (action.perform scene.workspace) := by
  unfold step
  cases action.perform scene.workspace <;> rfl

end Scene

/-! ### What writing, reading and lowering yield -/

namespace ArrayView

variable {workspace : Workspace} {view : ArrayView} {value : BitRange}

private theorem yields_onStore {operation : Change Store ArrayError Unit} {id : StoreId}
    (h : ∀ store, Store.Extends workspace.builder store (finalState (operation store))) :
    Yields workspace (Session.onStore id operation) fun _ _ => True :=
  ⟨Session.extends_onStore h, fun _ => trivial⟩

theorem yields_set (hbuilder : workspace.builder.Sound) (hvalue : workspace.builder.InRange value)
    (coordinate : List Nat) : Yields workspace (view.set coordinate value) fun _ _ => True := by
  refine .lift_bind fun offset _ => ?_
  -- nothing is written before the mode is known
  cases WriteMode.classify value.width view.elemType with
  | whole =>
    refine .lift_checked_bind fun target _ => yields_onStore fun store => ?_
    exact Store.extends_set hbuilder hvalue target store
  | bitwise =>
    refine .lift_checked_bind fun stop _ => .lift_checked_bind fun count _ => .guard fun _ => ?_
    refine .lift_checked_bind fun targets _ => yields_onStore fun store => ?_
    exact Store.extends_setRange hbuilder hvalue targets store
  | mismatch => exact .throw _

theorem yields_assign (hbuilder : workspace.builder.Sound) (hvalue : workspace.builder.InRange value)
    (selection : List Selector) : Yields workspace (view.assign selection value) fun _ _ => True := by
  refine .lift_bind fun region _ => .lift_checked_bind fun targets _ => .lift_checked_bind fun total _ => ?_
  split
  · exact yields_onStore fun store => Store.extends_setRange hbuilder hvalue targets store
  split
  · exact yields_onStore fun store => Store.extends_broadcast hbuilder hvalue targets store
  · exact .throw _

theorem yields_read (hsound : workspace.Sound) (h : view.Sound workspace) (coordinate : List Nat) :
    Yields workspace (view.read coordinate) fun value workspace' =>
      ∃ bits, workspace'.builder.Carries value bits := by
  refine .lift_bind fun offset _ => .get_bind (.lift_checked_bind fun store hstore => ?_)
  refine .lift_bind fun range hrange => ?_
  obtain ⟨store', hstore', hfits⟩ := h
  obtain rfl := Except.ok.inj (hstore.symm.trans hstore')
  obtain ⟨element, helement, rfl⟩ := require_eq_ok.mp hrange
  obtain ⟨hwidth, bits, hbits⟩ := hfits.element hsound.builder (hsound.stores hstore) helement
  -- what is left is a slice, or nothing at all where the element is all of its source
  refine ⟨Session.extends_build (Builder.keeps_materialize ?_) fun _ hgrounded => ?_, fun {value workspace'} hrun => ?_⟩
  · exact (Nat.le_add_left _ _).trans_lt (hbits.source_lt hsound.builder)
  · exact hgrounded.materialize hsound.builder hbits
  · obtain ⟨builder, hbuild, rfl⟩ := Session.build_eq_ok.mp hrun
    have hpos : 0 < element.range.width := by
      rw [hwidth]
      exact view.elemType.width_pos
    obtain ⟨_, _, hbuild', -, hcarries⟩ := Builder.materialize_carries hsound.builder hbits hpos
    cases hbuild.symm.trans hbuild'
    exact ⟨bits, hcarries⟩

/-- **Lowering**, with the array that it answers. -/
theorem yields_lower (hsound : workspace.Sound) (h : view.Sound workspace) (settings : Settings) :
    Yields workspace (view.lower settings) fun result workspace' =>
      (∃ bits, workspace'.builder.Carries result.1 bits) ∧ result.2.Sound workspace' := by
  refine .bind (yields_lowered hsound h settings) fun value middle hextends hvalue => ?_
  obtain ⟨-, -, pieces, -, -, -, -, -, hcarries, -⟩ := hvalue
  -- the array that is answered is the same one, with a note
  refine .get_bind (.lift_checked_bind fun store _ => .pure ⟨⟨_, hcarries⟩, ?_⟩)
  obtain ⟨store', hstore', hfits⟩ := h.mono hextends
  exact ⟨store', hstore', hfits.elemType, hfits.embeds, hfits.full⟩

/-- Driving a port extends the workspace, whether the array can be lowered or not, and whether the port
takes it or not. -/
theorem extends_driveOutput (hsound : workspace.Sound) (h : view.Sound workspace) (port : PortId) :
    workspace.Extends (finalState (driveOutput port (view, workspace))).2 ∧
      (finalState (driveOutput port (view, workspace))).1.Sound
        (finalState (driveOutput port (view, workspace))).2 := by
  have hlower := yields_lower hsound h {}
  unfold driveOutput
  cases hrun : view.lower {} workspace with
  | error failure workspace' =>
    -- the port is not reached, and the array is as it was
    have hextends := hlower.final
    rw [hrun] at hextends
    simp only [hrun]
    exact ⟨hextends, h.mono hextends⟩
  | ok result middle =>
    -- the array is lowered by now, even if the port refuses it
    have hextends := hlower.extends_ok hrun
    obtain ⟨-, hview⟩ := hlower.answer hrun
    have hdrive : middle.Extends (finalState (Session.build (Build.drive port result.1) middle)) :=
      Session.extends_build (keeps_drive port result.1) fun _ hgrounded => hgrounded.drive port result.1
    simp only [hrun]
    cases hport : Session.build (Build.drive port result.1) middle with
    | error failure workspace' =>
      rw [hport] at hdrive
      exact ⟨hextends.trans hdrive, hview.mono hdrive⟩
    | ok u workspace' =>
      rw [hport] at hdrive
      exact ⟨hextends.trans hdrive, hview.mono hdrive⟩

end ArrayView

/-! ### One action -/

/-- The values carry bits, and the arrays fit their stores. -/
structure Made.Sound (made : Made) (workspace : Workspace) : Prop where
  values : ∀ value ∈ made.values, ∃ bits, workspace.builder.Carries value bits
  arrays : ∀ view ∈ made.arrays, view.Sound workspace

theorem Made.Sound.mono {made : Made} {workspace workspace' : Workspace} (h : made.Sound workspace)
    (hextends : workspace.Extends workspace') : made.Sound workspace' where
  values value hvalue := by
    obtain ⟨bits, hbits⟩ := h.values value hvalue
    exact ⟨bits, hbits.mono hextends.builder⟩
  arrays view hview := (h.arrays view hview).mono hextends

theorem made_array {workspace : Workspace} {view : ArrayView} (h : view.Sound workspace) :
    Made.Sound { arrays := [view] } workspace :=
  ⟨fun _ hmem => (nomatch hmem), List.forall_mem_singleton.mpr h⟩

theorem made_value {workspace : Workspace} {value : Value}
    (h : ∃ bits, workspace.builder.Carries value bits) :
    Made.Sound { values := [value] } workspace :=
  ⟨List.forall_mem_singleton.mpr h, fun _ hmem => (nomatch hmem)⟩

theorem made_nothing (workspace : Workspace) : Made.Sound {} workspace :=
  ⟨fun _ hmem => (nomatch hmem), fun _ hmem => (nomatch hmem)⟩

namespace Action

variable {workspace : Workspace}

/-- A call of the builder. -/
private theorem yields_call {operation : Call} (hsound : workspace.Sound) (hfits : operation.Fits)
    (hoperands : ∀ value ∈ operation.operands, ∃ bits, workspace.builder.Carries value bits) :
    Yields workspace (Session.build operation.perform) fun value? workspace' =>
      ∀ value ∈ value?.toList, ∃ bits, workspace'.builder.Carries value bits where
  final := Session.extends_build (Call.keeps_perform hfits.words) fun _ hgrounded =>
    Call.grounded_perform hgrounded hsound.builder hfits hoperands
  answer {value? workspace'} hrun := by
    intro value hvalue
    obtain ⟨builder, hbuild, rfl⟩ := Session.build_eq_ok.mp hrun
    rw [Option.mem_toList] at hvalue
    rw [hvalue] at hbuild
    -- a function that gives the bits of every operand
    choose! bits hbits using hoperands
    exact ⟨_, Call.carries_perform hsound.builder hfits hbits hbuild⟩

/-- **One action.** Whatever the outcome, the workspace has only been extended; the values that were made
carry bits, and the arrays that were made fit their stores. -/
theorem yields_perform {action : Action} (hsound : workspace.Sound) (hgrounded : workspace.builder.Grounded)
    (hfits : action.Fits)
    (hvalues : ∀ value ∈ action.values, ∃ bits, workspace.builder.Carries value bits)
    (harrays : ∀ view ∈ action.arrays, view.Sound workspace) :
    Yields workspace action.perform fun made workspace' => made.Sound workspace' := by
  cases action with
  | call operation =>
    -- the call makes a value or none, and never an array
    refine .bind (yields_call hsound hfits hvalues) fun value? _ _ hmade => .pure ⟨hmade, ?_⟩
    exact fun _ hmem => nomatch hmem
  | valueOf signal =>
    -- whichever operation made the signal, it has bits
    refine .get_bind (.lift_checked_bind fun value hvalue => .pure (made_value ?_))
    exact hgrounded.carries hvalue
  | create shape elemType =>
    exact .bind (ArrayView.yields_create shape elemType) fun _ _ _ hview => .pure (made_array hview)
  | importValue value =>
    obtain ⟨bits, hbits⟩ := hvalues value List.mem_cons_self
    exact .bind (ArrayView.yields_ofValue hsound.builder hbits) fun _ _ _ hview => .pure (made_array hview)
  | importAs value elemType shape =>
    obtain ⟨bits, hbits⟩ := hvalues value List.mem_cons_self
    exact .bind (ArrayView.yields_ofValueAs hsound.builder hbits elemType shape)
      fun _ _ _ hview => .pure (made_array hview)
  | derive view step =>
    obtain ⟨store, hstore, hview⟩ := harrays view List.mem_cons_self
    -- nothing happens in the workspace
    refine .lift_bind fun derived hderived => .pure (made_array ?_)
    have hsize := hview.shape_lt (hsound.stores hstore).addressable
    exact ⟨store, by rwa [ArrayView.store_of_transform hderived], hview.transform hsize hderived⟩
  | rename view name =>
    obtain ⟨store, hstore, hview⟩ := harrays view List.mem_cons_self
    exact .pure (made_array ⟨store, hstore, hview.elemType, hview.embeds, hview.full⟩)
  | concatenate view operands =>
    obtain ⟨hview, hoperands⟩ := List.forall_mem_cons.mp harrays
    have hall : ∀ operand ∈ operands, operand.Sound workspace := by
      intro operand hmem
      cases operand with
      | array view' => exact hoperands view' (List.mem_flatMap.mpr ⟨_, hmem, List.mem_cons_self⟩)
      | value source => exact hvalues source (List.mem_flatMap.mpr ⟨_, hmem, List.mem_cons_self⟩)
    exact .bind (ArrayView.yields_concatenate hsound hview hall)
      fun _ _ _ hjoined => .pure (made_array hjoined)
  | set view coordinate value =>
    have hrange := Builder.inRange_of_carries (hvalues value.source List.mem_cons_self) hfits
    refine .bind (ArrayView.yields_set hsound.builder hrange coordinate) fun _ workspace' _ _ => ?_
    exact .pure (made_nothing workspace')
  | assign view selection value =>
    have hrange := Builder.inRange_of_carries (hvalues value.source List.mem_cons_self) hfits
    refine .bind (ArrayView.yields_assign hsound.builder hrange selection) fun _ workspace' _ _ => ?_
    exact .pure (made_nothing workspace')
  | read view coordinate =>
    exact .bind (ArrayView.yields_read hsound (harrays view List.mem_cons_self) coordinate)
      fun _ _ _ hvalue => .pure (made_value hvalue)
  | lower view settings =>
    refine .bind (ArrayView.yields_lower hsound (harrays view List.mem_cons_self) settings)
      fun result _ _ hresult => .pure ?_
    exact ⟨List.forall_mem_singleton.mpr hresult.1, List.forall_mem_singleton.mpr hresult.2⟩
  | driveOutput view port =>
    obtain ⟨hextends, hview⟩ :=
      ArrayView.extends_driveOutput hsound (harrays view List.mem_cons_self) port
    refine ⟨hextends, fun hrun => ?_⟩
    obtain ⟨rfl, rfl⟩ := EStateM.Result.ok.inj hrun
    exact made_array hview

end Action

/-! ### Runs -/

namespace Scene

variable {scene later : Scene} {action : Action}

/-- The workspace is sound, and so is all that was made. -/
structure Sound (scene : Scene) : Prop where
  workspace : scene.workspace.Sound
  /-- Every signal is a port or has bits, also those that no action has answered with. -/
  grounded : scene.workspace.builder.Grounded
  made : Made.Sound ⟨scene.values, scene.arrays⟩ scene.workspace

theorem sound_start (names : Names) (name : String) : (start names name).Sound where
  workspace := ⟨Builder.sound_start names name, fun hid => nomatch Workspace.store_eq_ok.mp hid⟩
  grounded := Builder.grounded_start names name
  made := made_nothing _

theorem Sound.yields (h : scene.Sound) (hallows : scene.Allows action) :
    Yields scene.workspace action.perform fun made workspace' => made.Sound workspace' := by
  obtain ⟨hfits, hvalues, harrays⟩ := hallows
  refine Action.yields_perform h.workspace h.grounded hfits ?_ ?_
  · intro value hvalue
    exact h.made.values value (hvalues value hvalue)
  · intro view hview
    exact h.made.arrays view (harrays view hview)

/-- **One step.** -/
theorem Sound.step (h : scene.Sound) (hallows : scene.Allows action) : (scene.step action).Sound := by
  have hyields := h.yields hallows
  unfold Scene.step
  cases hrun : action.perform scene.workspace with
  | error failure workspace =>
    have hextends := hyields.final
    rw [hrun] at hextends
    exact ⟨hextends.sound h.workspace, hextends.grounded h.workspace h.grounded, h.made.mono hextends⟩
  | ok made workspace =>
    have hextends := hyields.extends_ok hrun
    obtain ⟨hvalues, harrays⟩ := hyields.answer hrun
    obtain ⟨hvalues', harrays'⟩ := h.made.mono hextends
    refine ⟨hextends.sound h.workspace, hextends.grounded h.workspace h.grounded, ?_, ?_⟩
    · -- a value is a new one or one that was there
      intro value hmem
      rcases List.mem_append.mp hmem with hnew | hold
      · exact hvalues value hnew
      · exact hvalues' value hold
    · intro view hmem
      rcases List.mem_append.mp hmem with hnew | hold
      · exact harrays view hnew
      · exact harrays' view hold

/-- One more action. -/
theorem Reachable.step (h : scene.Reachable) (hallows : scene.Allows action) : (scene.step action).Reachable := by
  obtain ⟨names, name, hrun⟩ := h
  exact ⟨names, name, hrun.tail hallows⟩

/-- More actions. -/
theorem Reachable.trans (h : scene.Reachable) (hrun : scene.Reaches later) : later.Reachable := by
  obtain ⟨names, name, hbefore⟩ := h
  exact ⟨names, name, hbefore.trans hrun⟩

/-- **A whole run.** Every scene that can be reached is sound. -/
theorem sound_of_reachable (h : scene.Reachable) : scene.Sound := by
  obtain ⟨names, name, hrun⟩ := h
  exact hrun.keeps (fun hallows hscene => hscene.step hallows) (sound_start names name)

/-- A whole run only extends the workspace. -/
theorem Sound.extends_of_reaches (h : scene.Sound) (hrun : scene.Reaches later) :
    scene.workspace.Extends later.workspace := by
  have hkeeps : later.Sound ∧ scene.workspace.Extends later.workspace := by
    refine hrun.keeps (P := fun later => later.Sound ∧ scene.workspace.Extends later.workspace)
      (fun {middle action} hallows hmiddle => ⟨hmiddle.1.step hallows, hmiddle.2.trans ?_⟩) ⟨h, .refl _⟩
    rw [step_workspace]
    exact (hmiddle.1.yields hallows).final
  exact hkeeps.2

/-- An array of a scene that can be reached fits its store. -/
theorem Sound.fits (h : scene.Sound) {view : ArrayView} (hview : view ∈ scene.arrays) :
    ∃ store, scene.workspace.store view.store = .ok store ∧ view.Fits store ∧
      store.Sound scene.workspace.builder := by
  obtain ⟨store, hstore, hfits⟩ := h.made.arrays view hview
  exact ⟨store, hstore, hfits, h.workspace.stores hstore⟩

/-! ### Two scenes -/

/-- An input of eight bits. -/
def gridInput : Value := ⟨⟨0⟩, ⟨0⟩, 8⟩

/-- Its elements of two bits, in two rows. -/
def gridRows : ArrayView := { shape := [2, 2], elemType := ⟨2, by decide⟩, store := ⟨0⟩ }

/-- The same elements in columns. -/
def gridColumns : ArrayView := { gridRows with maps := [.permute [2, 2] [2, 2] [1, 0]] }

/-- Two arrays that share a store, of which one element was overwritten with another. -/
def grid : Scene :=
  [.call (.internType (.bits 8)), .call (.input "a" ⟨0⟩), .importAs gridInput ⟨2, by decide⟩ (some [2, 2]),
    .derive gridRows (.transpose [1, 0]), .set gridRows [0, 1] ⟨gridInput, 6, 2⟩].foldl step
      (start {} "m")

/-- What the two arrays share. -/
def gridStore : Store where
  elemType := ⟨2, by decide⟩
  slots := #[none, some (.whole ⟨gridInput, 6, 2⟩), none, none]
  origin := some (.whole gridInput)
  revision := 1

theorem grid_reachable : grid.Reachable :=
  ⟨{}, "m", reaches_foldl (by decide +kernel)⟩

/-- What is left of an array of which nothing is kept, with two more axes that are long. -/
def emptyArray : ArrayView where
  shape := [0, 1099511627776, 1099511627776]
  elemType := .i8
  store := ⟨0⟩
  maps := [.gather #[]]

/-- The same with the empty axis at the end. -/
def hollowArray : ArrayView := { emptyArray with
  shape := [1099511627776, 1099511627776, 0]
  maps := [.permute [1099511627776, 1099511627776, 0] [0, 1099511627776, 1099511627776] [1, 2, 0], .gather #[]] }

/-- How a caller gets there. -/
def hollow : Scene :=
  [.create [1] .i8,
    .derive { shape := [1], elemType := .i8, store := ⟨0⟩ } (.select [.range { start := some 0, stop := some 0 }]),
    .derive { shape := [0], elemType := .i8, store := ⟨0⟩, maps := [.gather #[]] }
      (.reshape [0, 1099511627776, 1099511627776]),
    .derive emptyArray (.transpose [1, 2, 0])].foldl step (start {} "m")

theorem hollow_reachable : hollow.Reachable :=
  ⟨{}, "m", reaches_foldl (by decide +kernel)⟩

end Scene

end NetArray
