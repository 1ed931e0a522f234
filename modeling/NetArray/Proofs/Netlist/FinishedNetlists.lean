import Mathlib
import NetArray.Proofs.Netlist.Finishing
import NetArray.Proofs.Netlist.GroundedSignals

/-!
# What a finished netlist tells of its builder

A builder knows three things that its tables do not spell out: which cell drives a signal, which bits are behind a
signal, and how wide a driven output port is. A finished netlist has to find them again, from the pins of its cells.
`Builder.Reflects` says that it finds the same.

Besides being well-formed, a builder needs three things for it, which one call keeps where it does not fault
(`Builder.Finishable`):

* `Builder.Noted` — the notes about drivers can be read off the cells, with one note for each cell and at most one for
  each signal;
* `Builder.Measured` — the type of every signal has a width;
* `Builder.Grounded` — every signal has bits, whether or not a call has answered with it.

The last two are what makes both resolvers answer. That they answer alike then needs the first only, which gives the
finished netlist the wiring of its builder.
-/

namespace NetArray

namespace Builder

variable {builder builder' : Builder}

/-- The notes about drivers are complete and without repetition. -/
structure Noted (builder : Builder) : Prop where
  /-- They can be read off the cells. -/
  traceable : builder.Traceable
  /-- A signal is noted once at most. -/
  signals : (builder.drivers.map Prod.fst).Nodup
  /-- A cell is noted exactly once. -/
  cells : (builder.drivers.map Prod.snd).Perm ((List.range builder.cells.size).map CellId.mk)

theorem noted_start (names : Names) (name : String) : (start names name).Noted :=
  ⟨traceable_start names name, .nil, .refl _⟩

theorem Noted.of_eq (h : builder.Noted) (hcells : builder'.cells = builder.cells)
    (hdrivers : builder'.drivers = builder.drivers) : builder'.Noted where
  traceable := h.traceable.of_eq hcells hdrivers
  signals := by rw [hdrivers]; exact h.signals
  cells := by rw [hdrivers, hcells]; exact h.cells

/-- A new cell drives a signal that was not there, so its note is a new one. -/
theorem Noted.withCell (h : builder.Noted) (hsound : builder.Sound) (names : Names)
    (signalName cellName outName : Ident) (type : TypeId) (operation : Operation) {pins : List Pin}
    (hinput : ∀ pin ∈ pins, pin.direction = .input) :
    (builder.withCell names signalName cellName outName type operation pins).Noted where
  traceable := h.traceable.withCell names signalName cellName outName type operation hinput
  signals := by
    have hnew : ⟨builder.signals.size⟩ ∉ builder.drivers.map Prod.fst := by
      intro hmem
      obtain ⟨⟨_, cell⟩, hnote, rfl⟩ := List.mem_map.mp hmem
      exact lt_irrefl _ (hsound.driven hnote)
    exact List.nodup_cons.mpr ⟨hnew, h.signals⟩
  cells := by
    change (⟨builder.cells.size⟩ :: builder.drivers.map Prod.snd).Perm
      ((List.range (builder.cells.push _).size).map CellId.mk)
    rw [Table.size_push, List.range_succ, List.map_append]
    -- the new note is the first one, and the new cell the last one
    exact (h.cells.cons _).trans (List.perm_append_singleton _ _).symm

/-- **One edit.** The notes stay complete and without repetition. -/
theorem Noted.edit (h : builder.Noted) (hsound : builder.Sound) (hedit : builder.Edit builder') :
    builder'.Noted := by
  cases hedit with
  | enter => exact h.of_eq rfl rfl
  | input => exact h.of_eq rfl rfl
  | output => exact h.of_eq rfl rfl
  | drive => exact h.of_eq rfl rfl
  | @cell names types signalName cellName outName type operation _ _ _ hgrows _ hinput _ _ _ =>
    have htyped : Noted { builder with types := types } := h.of_eq rfl rfl
    exact htyped.withCell (hgrows.sound hsound) names signalName cellName outName type operation hinput

/-- The cell that the notes name is the one that the builder answers with. -/
theorem Noted.driver (h : builder.Noted) (hformed : builder.WellFormed) (signal : SignalId) :
    ∃ cell?, builder.driver? signal = .ok cell? ∧
      builder.finish.driverMap.lookup signal = cell?.map (·.id) := by
  rw [h.traceable, driver?]
  cases hlookup : builder.drivers.lookup signal with
  | none => exact ⟨none, rfl, rfl⟩
  | some id =>
    obtain ⟨cell, hcell, -⟩ := hformed.drivers.mp hlookup
    refine ⟨some cell, ?_, ?_⟩
    · change some <$> builder.cells.get id = _
      rw [Table.get_eq_ok.mpr hcell]
      rfl
    · rw [Option.map_some, hformed.cell_id hcell]

/-! ### The width of every signal -/

/-- Every signal has a type with a width. -/
def Measured (builder : Builder) : Prop :=
  ∀ (id : SignalId) (entry : Signal), builder.signals.find? id = some entry →
    ∃ width, builder.types.bitWidth entry.type = .ok width

theorem measured_start (names : Names) (name : String) : (start names name).Measured :=
  fun _ _ h => absurd (Table.find?_lt h) (Nat.not_lt_zero _)

theorem Measured.of_eq (h : builder.Measured) (hgrows : builder.Grows builder')
    (hsignals : builder'.signals = builder.signals) : builder'.Measured := by
  intro id entry hentry
  rw [hsignals] at hentry
  obtain ⟨width, hwidth⟩ := h id entry hentry
  exact ⟨width, hgrows.types.bitWidth hwidth⟩

/-- One more signal, whose type has a width too. -/
theorem Measured.of_push (h : builder.Measured) (hgrows : builder.Grows builder') {new : Signal} {width : Nat}
    (hsignals : builder'.signals = builder.signals.push new)
    (hnew : builder'.types.bitWidth new.type = .ok width) : builder'.Measured := by
  intro id entry hentry
  rw [hsignals] at hentry
  rcases Table.of_find?_push hentry with hold | ⟨-, rfl⟩
  · obtain ⟨width, hwidth⟩ := h id entry hold
    exact ⟨width, hgrows.types.bitWidth hwidth⟩
  · exact ⟨width, hnew⟩

/-- **One edit.** The type of a new signal has a width. -/
theorem Measured.edit (h : builder.Measured) (hedit : builder.Edit builder') (hgrows : builder.Grows builder') :
    builder'.Measured := by
  cases hedit with
  | enter => exact h.of_eq hgrows rfl
  | output => exact h.of_eq hgrows rfl
  | drive => exact h.of_eq hgrows rfl
  | input names name htype => exact h.of_push hgrows rfl htype
  | cell names signalName cellName outName htypes _ _ _ htype _ => exact h.of_push hgrows rfl htype

/-- What a builder needs for its netlist to agree with it. -/
structure Finishable (builder : Builder) : Prop where
  sound : builder.Sound
  formed : builder.WellFormed
  noted : builder.Noted
  measured : builder.Measured
  grounded : builder.Grounded

end Builder

/-! ### Runs -/

namespace Draft

open Builder

variable {draft : Draft} {call : Call}

/-- **One step.** A call keeps the notes complete, and gives a new signal a width and bits. -/
theorem Sound.keeps_finishable (h : draft.Sound) (hfinishable : draft.builder.Finishable)
    (hpermits : draft.Permits call) : (draft.step call).builder.Finishable := by
  obtain ⟨hallows, hfaultless⟩ := hpermits
  have hgrows := grows_step hallows.admits
  have hgrounded : (draft.step call).builder.Grounded := by
    rw [step_builder]
    refine Call.grounded_perform hfinishable.grounded h.builder hallows.1 fun value hvalue => ?_
    exact ⟨_, h.made (hallows.admits.noted h.toTracked value hvalue)⟩
  rcases h.toTracked.edit_step hallows.admits hfaultless with heq | hedit
  · rw [heq]
    exact hfinishable
  · exact ⟨hgrows.sound h.builder, hfinishable.formed.edit hedit hgrows,
      hfinishable.noted.edit h.builder hedit, hfinishable.measured.edit hedit hgrows, hgrounded⟩

/-- **A whole run.** -/
theorem finishable_of_runs {names : Names} {name : String} (hrun : (start names name).Runs draft) :
    draft.builder.Finishable := by
  have hstart : (start names name).builder.Finishable :=
    ⟨sound_start names name |>.builder, wellFormed_start names name, noted_start names name,
      measured_start names name, grounded_start names name⟩
  have hkeeps : draft.Sound ∧ draft.builder.Finishable := by
    refine NetArray.Reaches.keeps (P := fun draft => draft.Sound ∧ draft.builder.Finishable) hrun
      (fun hpermits h => ?_) ⟨sound_start names name, hstart⟩
    exact ⟨h.1.step hpermits.1, h.1.keeps_finishable h.2 hpermits⟩
  exact hkeeps.2

end Draft

end NetArray
