import Mathlib
import NetArray.Proofs.Netlist.DistinctNames
import NetArray.Proofs.Array.ActionParts

/-!
# Names across a whole build

A netlist is built by calls of its builder and by lowering arrays, and other netlists are built on the same table
of names in the meantime. What happens in this netlist is an `Event.here`, what happens in another one an
`Event.elsewhere`; interning a name directly is a call of some netlist like any other.

The others only ever enter names (`Action.names_perform`), which the invariant `Builder.Named` does not mind. Here,
a caller who names a port or a wire must not choose a name that is held (`Scene.Admits`); everything else, the
wires of lowered arrays among it, names itself. So the invariant holds after any run of events
(`Scene.named_of_shares`).

The wire of a lowered array is named last, when its slices and its concatenation have their names already. These
are the names that count then: an array may be called what one of its own slices is called. `wire_spec` says
which name is found.
-/

namespace NetArray

/-! ### The name of a wire -/

namespace ArrayView

open Builder

/-- Which name the wire of an array gets in a netlist: a numbered one that was not entered before, or the name
of the array if there is one and nothing holds it. -/
def NamesWire (builder : Builder) (name : Option String) (stem text : String) : Prop :=
  match name with
  | none => ∃ count, text = Names.numbered stem count ∧ builder.names.find? text = none
  | some name =>
    (¬builder.Holds name → text = name) ∧
      (builder.Holds name → ∃ count, text = Names.numbered name count ∧ builder.names.find? text = none)

variable {builder builder' : Builder} {name : Option String} {stem : String} {source value : Value}

theorem grows_wireName (name : Option String) (stem : String) : Keeps KeepsNames (wireName name stem) := by
  cases name with
  | none => exact keepsNames_fresh stem
  | some name => exact keepsNames_uniqueName name

/-- **The name.** It is held by nothing, and it is the one that the wire should have. -/
theorem wireName_spec (h : builder.Named) (name : Option String) (stem : String) :
    ∃ ident names text, wireName name stem builder = .ok ident { builder with names := names } ∧
      builder.names.Grows names ∧ names.text ident = .ok text ∧ ident ∉ builder.holders ∧
      NamesWire builder name stem text := by
  cases name with
  | none =>
    obtain ⟨hgrows, hident, count, hnone, htext⟩ := builder.names.fresh_spec stem
    refine ⟨_, _, _, fresh_run stem builder, hgrows, htext, ?_, count, rfl, hnone⟩
    exact h.notMem_of_le (by rw [hident])
  | some name =>
    have hgrows := builder.names.grows_intern name
    have htext := builder.names.text_intern name
    -- what is noted as taken decides, and that is what is held
    have htaken : builder.taken.contains (builder.names.intern name).1 = true ↔ builder.Holds name := by
      rw [List.contains_iff_mem, h.taken]
      refine ⟨fun hmem => ?_, fun ⟨ident, hmem, hheld⟩ => ?_⟩
      · by_contra hfree
        exact h.notMem_holders hgrows htext hfree hmem
      · rwa [← (hgrows.distinct h.distinct).ident_eq (hgrows.text hheld) htext]
    have hrun : wireName (some name) stem builder
        = (if builder.taken.contains (builder.names.intern name).1 then Build.fresh name
            else pure (builder.names.intern name).1 : Build Ident)
          { builder with names := (builder.names.intern name).2 } := rfl
    by_cases hholds : builder.Holds name
    · obtain ⟨hgrows', hident, count, hnone, hfresh⟩ := (builder.names.intern name).2.fresh_spec name
      rw [if_pos (htaken.mpr hholds)] at hrun
      refine ⟨_, _, _, hrun.trans (fresh_run name _), hgrows.trans hgrows', hfresh, ?_,
        fun hfree => absurd hholds hfree, fun _ => ⟨count, rfl, hgrows.find?_eq_none hnone⟩⟩
      refine h.notMem_of_le ?_
      rw [hident]
      exact hgrows.size_le
    · rw [if_neg fun htrue => hholds (htaken.mp htrue)] at hrun
      exact ⟨_, _, _, hrun, hgrows, htext, h.notMem_holders hgrows htext hholds, fun _ => rfl,
        fun hheld => absurd hheld hholds⟩

/-- A wire for an array keeps names apart. -/
theorem keepsNames_barrier (name : Option String) (stem : String) (source : Value) :
    Keeps KeepsNames (barrier name stem source) := by
  intro builder
  refine ⟨?_, fun h => ?_⟩
  · have hname := grows_wireName name stem
    rw [barrier_eq]
    refine finalState_bind (P := fun last : Builder => builder.names.Grows last.names) (hname builder).grows
      fun ident middle hrun => ?_
    exact (hname.ok hrun).grows.trans (grows_addCell _ _ _ _ middle)
  · obtain ⟨ident, names, text, hrun, hgrows, htext, hfree, -⟩ := wireName_spec h name stem
    rw [barrier_eq, change_bind, hrun]
    refine named_addCell (h.withNames hgrows) _ _ _ fun other hother => ?_
    obtain rfl := Option.some.inj hother
    exact ⟨hfree, Names.lt_of_text htext⟩

/-- A cell is found at the signal that it drives. -/
theorem driver?_withCell (builder : Builder) (names : Names) (signalName cellName outName : Ident)
    (type : TypeId) (operation : Operation) (pins : List Pin) :
    (builder.withCell names signalName cellName outName type operation pins).driver? ⟨builder.signals.size⟩
      = .ok (some ⟨⟨builder.cells.size⟩, cellName, operation,
          pins ++ [⟨outName, .output, ⟨builder.signals.size⟩⟩]⟩) := by
  rw [Builder.driver?, Builder.lookup_withCell]
  change some <$> Table.get (builder.cells.push _) ⟨builder.cells.size⟩ = _
  rw [Table.get_eq_ok.mpr (find?_push_cell builder.cells _)]
  rfl

/-- **The wire.** It is a signal that a buffer drives, and it has the name that it should have. -/
theorem wire_spec (h : builder.Named) (hrun : barrier name stem source builder = .ok value builder') :
    ∃ entry cell text, builder'.signals.find? value.signal = some entry ∧
      builder'.driver? value.signal = .ok (some cell) ∧ cell.operation = .buffer ∧
      builder'.names.text entry.name = .ok text ∧ NamesWire builder name stem text := by
  obtain ⟨ident, names, text, hname, -, htext, -, hwire⟩ := wireName_spec h name stem
  obtain ⟨named, hnamed⟩ : ∃ named : Builder, named = { builder with names := names } := ⟨_, rfl⟩
  have hnames : named.names = names := by rw [hnamed]
  rw [barrier_eq, change_bind, hname, ← hnamed] at hrun
  obtain ⟨names', cellName, outName, pins, hcell, -, -, hgrows, -⟩ :=
    addCell_run .buffer [source.signal] source.type (some ident) named
  have hrun' : Build.addCell .buffer [source.signal] source.type (some ident) named = .ok value builder' :=
    hrun
  rw [hcell, build_valueOf, change_lift_checked_eq_ok] at hrun'
  obtain ⟨hvalue, rfl⟩ := hrun'
  obtain ⟨hsignal, -⟩ := valueOf_eq_ok.mp hvalue
  rw [hsignal]
  -- the new signal is the last one, and the new cell drives it
  refine ⟨⟨⟨named.signals.size⟩, ident, source.type, .wire⟩, _, text, find?_push_signal named.signals _,
    driver?_withCell named names' ident cellName outName source.type .buffer pins, rfl, ?_, hwire⟩
  exact hgrows.text (by rw [hnames]; exact htext)

/-- **The wire of an array.** It is named when all the rest of the array has been lowered. -/
theorem wire_of_lower {view lowered : ArrayView} {settings : Settings} {workspace workspace' : Workspace}
    (h : workspace.builder.Named) (hwire : settings.createWire = true)
    (hrun : view.lower settings workspace = .ok (value, lowered) workspace') :
    ∃ flat unwired middle entry cell text,
      view.lower { settings with createWire := false } workspace = .ok (flat, unwired) middle ∧
      workspace'.builder.signals.find? value.signal = some entry ∧
      workspace'.builder.driver? value.signal = .ok (some cell) ∧ cell.operation = .buffer ∧
      workspace'.builder.names.text entry.name = .ok text ∧
      NamesWire middle.builder view.name settings.wireStem text := by
  obtain ⟨hlowered, store, hstore, -⟩ := lower_eq_ok.mp hrun
  obtain ⟨count, held, parts, last, hcount, hzero, hheld, hparts, hbuild, rfl⟩ := lowered_eq_ok.mp hlowered
  obtain ⟨flat, middle, hjoin, hbarrier⟩ := change_bind_eq_ok.mp hbuild
  rw [if_pos hwire] at hbarrier
  have hnamed : middle.Named := ((keeps_join_of_cells keepsNames_typedCell parts).ok hjoin).named h
  obtain ⟨entry, cell, text, hentry, hcell, hbuffer, htext, hnames⟩ := wire_spec hnamed hbarrier
  -- without the wire the array is lowered just so far
  have hflat : view.build { settings with createWire := false } parts workspace.builder = .ok flat middle :=
    change_bind_eq_ok.mpr ⟨flat, middle, hjoin, rfl⟩
  have hunwired : view.lowered { settings with createWire := false } workspace
      = .ok flat { workspace with builder := middle } :=
    lowered_eq_ok.mpr ⟨count, held, parts, middle, hcount, hzero, hheld, hparts, hflat, rfl⟩
  exact ⟨flat, _, _, entry, cell, text, lower_eq_ok.mpr ⟨hunwired, store, hstore, rfl⟩, hentry, hcell,
    hbuffer, htext, hnames⟩

end ArrayView

/-! ### Actions -/

namespace Action

/-- The names that the action gives are free. -/
def NamesFree (builder : Builder) : Action → Prop
  | .call operation => operation.NamesFree builder
  | _ => True

instance (action : Action) (builder : Builder) : Decidable (action.NamesFree builder) :=
  match action with
  | .call operation => inferInstanceAs (Decidable (operation.NamesFree builder))
  | .valueOf _ | .create .. | .importValue _ | .importAs .. | .derive .. | .rename .. | .concatenate .. | .set ..
  | .assign .. | .read .. | .lower .. | .driveOutput .. => .isTrue trivial

/-- What an action may do to the names of its netlist. -/
def KeepsNames (workspace workspace' : Workspace) : Prop :=
  workspace.builder.KeepsNames workspace'.builder

instance : Std.Refl KeepsNames := ⟨fun workspace => Std.Refl.refl workspace.builder⟩

instance : IsTrans Workspace KeepsNames :=
  ⟨fun _ _ _ h h' => IsTrans.trans (r := Builder.KeepsNames) _ _ _ h h'⟩

private theorem keepsNames_build {α : Type} {operation : Build α} (h : Keeps Builder.KeepsNames operation) :
    Keeps KeepsNames (Session.build operation) := by
  intro workspace
  rw [Session.build_final]
  exact h workspace.builder

private theorem keepsNames_onStore {α : Type} (id : StoreId) (operation : Change Store ArrayError α) :
    Keeps KeepsNames (Session.onStore id operation) := by
  intro workspace
  unfold Session.onStore
  cases workspace.stores[id.index]? with
  | none => exact Std.Refl.refl workspace
  | some store => cases hrun : operation store <;> simp only [hrun] <;> exact Std.Refl.refl workspace.builder

/-- **Actions.** An action only enters names, and keeps them apart if it gives none away twice. -/
theorem names_perform (action : Action) (workspace : Workspace) :
    workspace.builder.names.Grows (finalState (action.perform workspace)).builder.names ∧
      (workspace.builder.Named → action.NamesFree workspace.builder →
        (finalState (action.perform workspace)).builder.Named) := by
  by_cases hcall : ∃ operation, action = .call operation
  · obtain ⟨operation, rfl⟩ := hcall
    have hfinal : finalState (perform (.call operation) workspace)
        = { workspace with builder := finalState (operation.perform workspace.builder) } := by
      rw [← Session.build_final, perform, change_bind]
      cases Session.build operation.perform workspace <;> rfl
    rw [hfinal]
    exact operation.names_perform workspace.builder
  · -- everything but a call names what it makes by itself
    have hparts : action.Parts KeepsNames :=
      { call := fun heq => absurd ⟨_, heq⟩ hcall
        materialize := fun range => keepsNames_build (keeps_materialize_of_cells keepsNames_typedCell range)
        build := fun view settings parts => keepsNames_build
          (ArrayView.keeps_build keepsNames_typedCell ArrayView.keepsNames_barrier view settings parts)
        drive := fun port value => keepsNames_build (keepsNames_drive port value)
        addStore := fun store workspace => Std.Refl.refl workspace.builder
        write := fun id _ operation _ => keepsNames_onStore id operation }
    have hkeeps : workspace.builder.KeepsNames (finalState (action.perform workspace)).builder :=
      keeps_perform hparts workspace
    exact ⟨hkeeps.grows, fun h _ => hkeeps.named h⟩

end Action

/-! ### Runs -/

/-- What happens to a table of names: an action in this netlist, or one in another netlist that uses the same
table. -/
inductive Event where
  | here (action : Action)
  | elsewhere (other : Workspace) (action : Action)

namespace Scene

/-- The table of names after an action in another netlist. -/
def namesAfter (scene : Scene) (other : Workspace) (action : Action) : Names :=
  let shared := { other with builder := { other.builder with names := scene.workspace.builder.names } }
  (finalState (action.perform shared)).builder.names

/-- The scene with another table of names. -/
def withNames (scene : Scene) (names : Names) : Scene :=
  { scene with
    workspace := { scene.workspace with builder := { scene.workspace.builder with names := names } } }

/-- What there is after an event. -/
def after (scene : Scene) : Event → Scene
  | .here action => scene.step action
  | .elsewhere other action => scene.withNames (scene.namesAfter other action)

/-- What the caller does here gives no name away that is held. What others do does not matter. -/
def Admits (scene : Scene) : Event → Prop
  | .here action => action.NamesFree scene.workspace.builder
  | .elsewhere _ _ => True

instance (scene : Scene) (event : Event) : Decidable (scene.Admits event) := by
  unfold Admits
  split <;> infer_instance

/-- Some events lead from the one scene to the other. -/
def Shares (scene later : Scene) : Prop :=
  NetArray.Reaches Admits after scene later

variable {scene later : Scene} {names : Names} {name : String}

/-- **One event.** -/
theorem named_after {event : Event} (h : scene.workspace.builder.Named) (hadmits : scene.Admits event) :
    (scene.after event).workspace.builder.Named := by
  cases event with
  | here action =>
    have hnamed := (action.names_perform scene.workspace).2 h hadmits
    change (scene.step action).workspace.builder.Named
    unfold step
    cases hrun : action.perform scene.workspace with
    | error failure workspace =>
      rw [hrun] at hnamed
      exact hnamed
    | ok made workspace =>
      rw [hrun] at hnamed
      exact hnamed
  | elsewhere other action =>
    -- another netlist, whatever its state, only enters names
    have hgrows := (action.names_perform { other with
      builder := { other.builder with names := scene.workspace.builder.names } }).1
    exact h.withNames hgrows

/-- **A whole run.** -/
theorem named_of_shares (hdistinct : names.Distinct) (hrun : (start names name).Shares scene) :
    scene.workspace.builder.Named :=
  hrun.keeps (fun hadmits h => named_after h hadmits) (Builder.named_start hdistinct name)

/-- **Names stay unique.** Take any run that begins with an empty netlist, in which other netlists on the same
table do whatever they like, and in which names that are held are not given to ports or wires again. Then the
ports and the signals that cells drive have different names, and so have the cells. If an array is lowered
behind a wire, the wire is named when the rest of the array has been built: after the array, if nothing holds
that name by then, else with a numbered name that was not entered before. -/
theorem names_apart (hdistinct : names.Distinct) (hrun : (start names name).Shares scene) :
    (∃ texts, scene.workspace.builder.boundNames.mapM scene.workspace.builder.names.text = .ok texts ∧
      texts.Nodup) ∧
    (∃ texts, scene.workspace.builder.cellNames.mapM scene.workspace.builder.names.text = .ok texts ∧
      texts.Nodup) ∧
    ∀ (view lowered : ArrayView) (settings : Settings) (value : Value) (workspace : Workspace),
      settings.createWire = true →
      view.lower settings scene.workspace = .ok (value, lowered) workspace →
      ∃ flat unwired middle entry cell text,
        view.lower { settings with createWire := false } scene.workspace = .ok (flat, unwired) middle ∧
        workspace.builder.signals.find? value.signal = some entry ∧
        workspace.builder.driver? value.signal = .ok (some cell) ∧ cell.operation = .buffer ∧
        workspace.builder.names.text entry.name = .ok text ∧
        match view.name with
        | none => ∃ count, text = Names.numbered settings.wireStem count ∧
            middle.builder.names.find? text = none
        | some name =>
          (¬middle.builder.Holds name → text = name) ∧
            (middle.builder.Holds name →
              ∃ count, text = Names.numbered name count ∧ middle.builder.names.find? text = none) := by
  have h := named_of_shares hdistinct hrun
  have hbound : ∀ ident ∈ scene.workspace.builder.boundNames,
      ident.index < scene.workspace.builder.names.table.size := by
    intro ident hmem
    by_contra hlt
    exact Builder.notMem_boundNames (fun hheld => hlt (h.known hheld)) hmem
  refine ⟨h.distinct.exists_texts hbound h.bound, h.distinct.exists_texts (fun _ => h.knownCells) h.cells, ?_⟩
  intro view lowered settings value workspace hwire hlower
  exact ArrayView.wire_of_lower h hwire hlower

/-- An array that is called like the input that it was imported from. -/
def inputArray : ArrayView := { shape := [1], elemType := .i8, name := some "a", store := ⟨0⟩ }

/-- An input and the array of it, while another netlist names something of its own. -/
def shared : Scene :=
  [.here (.call (.internType (.bits 8))), .here (.call (.input "a" ⟨0⟩)),
    .elsewhere { builder := .start {} "n" } (.call (.intern "a_0")), .here (.importValue ⟨⟨0⟩, ⟨0⟩, 8⟩)].foldl
      after (start {} "m")

/-- The input holds its name, so the wire of the array gets a numbered one. -/
theorem names_apart_shared :
    (∃ texts, shared.workspace.builder.boundNames.mapM shared.workspace.builder.names.text = .ok texts ∧
      texts.Nodup) ∧
    ∃ value lowered workspace entry count,
      inputArray.lower {} shared.workspace = .ok (value, lowered) workspace ∧
      workspace.builder.signals.find? value.signal = some entry ∧
      workspace.builder.names.text entry.name = .ok (Names.numbered "a" count) := by
  have hrun : (start {} "m").Shares shared := reaches_foldl (by decide +kernel)
  obtain ⟨hbound, -, hwire⟩ := names_apart (by decide) hrun
  have hlower : inputArray.lower {} shared.workspace
      = .ok (⟨⟨1⟩, ⟨0⟩, 8⟩, { inputArray with loweredAt := some 0 })
          (finalState (inputArray.lower {} shared.workspace)) := by decide +kernel
  have hunwired : inputArray.lower { createWire := false } shared.workspace
      = .ok (⟨⟨0⟩, ⟨0⟩, 8⟩, { inputArray with loweredAt := some 0 }) shared.workspace := by decide +kernel
  obtain ⟨_, _, _, entry, -, text, hmiddle, hentry, -, -, htext, -, hholds⟩ := hwire _ _ _ _ _ rfl hlower
  cases hunwired.symm.trans hmiddle
  obtain ⟨count, rfl, -⟩ := hholds (by decide +kernel)
  exact ⟨hbound, _, _, _, entry, count, hlower, hentry, htext⟩

end Scene

end NetArray
