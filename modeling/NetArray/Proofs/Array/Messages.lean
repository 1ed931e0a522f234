import Mathlib
import NetArray.Proofs.Array.JoinedWidths
import NetArray.Proofs.Array.DrivenOutputs
import NetArray.Proofs.Array.ActionParts

/-!
# What a refusal says

Every cause of a refusal has a text, except for a slice whose end is no machine word: the end is added up to be written
down, and the sum overflows (`BuildError.message_sliceOutOfRange`). So it has to be seen where such a cause can come
from.

* `RefusesFor` bounds the causes for which an operation refuses. It is closed under sequencing, as `Keeps` is.
* A call of the builder refuses for one of the causes of a short table (`Call.Refuses`). Only a slice leads to the one
  without a text.
* An operation on arrays refuses for a cause of its own (`ArrayError.Own`), also where it builds something: the ranges
  that it cuts out lie within their sources. Only driving an output passes a refusal of the builder on, and that is
  one of the port.
-/

namespace NetArray

/-! ### Texts -/

namespace BuildError

/-- The cause has a text. -/
def Prints (cause : BuildError) : Prop :=
  ∃ text, cause.message = .ok text

/-- The text of a slice shows where the slice ends, if that is a machine word. -/
theorem message_sliceOutOfRange (low width sourceWidth : Nat) :
    (sliceOutOfRange low width sourceWidth).message =
      if low + width < wordBound then
        .ok s!"slice [{low}, {low + width}) out of range for a {sourceWidth}-bit value"
      else
        .error .overflow := by
  rw [message, word]
  split <;> rfl

end BuildError

namespace ArrayError

/-- The cause has a text. -/
def Prints (cause : ArrayError) : Prop :=
  ∃ text, cause.message = .ok text

/-- The refusal is not one that a builder gave. -/
def Own (cause : ArrayError) : Prop :=
  ∀ refusal, cause ≠ .build refusal

theorem Own.prints {cause : ArrayError} (h : cause.Own) : cause.Prints := by
  cases cause with
  | build refusal => exact absurd rfl (h refusal)
  | index cause => exact ⟨_, rfl⟩
  | shape cause => exact ⟨_, rfl⟩
  | width cause => exact ⟨_, rfl⟩
  | elementTypes expected found => exact ⟨_, rfl⟩
  | unset offset => exact ⟨_, rfl⟩

end ArrayError

/-! ### Calls of the builder -/

/-- Why a call is refused. -/
inductive Call.Refuses (builder : Builder) : Call → BuildError → Prop where
  | constant {pattern : Pattern} (hzero : pattern.width = 0) :
    Refuses builder (.constant pattern) (.zeroWidth .constant)
  | emptySlice {source : Value} {low width : Nat} (hzero : width = 0) :
    Refuses builder (.slice source low width) (.zeroWidth .slice)
  | slice {source : Value} {low width : Nat} (hpast : source.width < low + width) :
    Refuses builder (.slice source low width) (.sliceOutOfRange low width source.width)
  | concat {values : List Value} (hzero : totalBits values = 0) :
    Refuses builder (.concat values) (.zeroWidth .concatenation)
  | bitcast {source : Value} {type : TypeId} {width : Nat} (htype : builder.types.bitWidth type = .ok width)
    (hne : width ≠ source.width) : Refuses builder (.bitcast source type) (.bitcastWidth source.width width)
  | drive {port : PortId} {value : Value} {cause : BuildError} (hrefuses : builder.Refuses port value cause) :
    Refuses builder (.drive port value) cause

theorem Builder.Refuses.prints {builder : Builder} {port : PortId} {value : Value} {cause : BuildError}
    (h : builder.Refuses port value cause) : cause.Prints := by
  cases h <;> exact ⟨_, rfl⟩

namespace Call

variable {builder builder' : Builder} {call : Call} {cause : BuildError}

/-- Only a slice can be refused without a text. -/
theorem Refuses.prints (h : call.Refuses builder cause) : cause.Prints ∨
    ∃ source low width, call = .slice source low width ∧ wordBound ≤ low + width ∧
      cause = .sliceOutOfRange low width source.width := by
  cases h with
  | constant _ => exact .inl ⟨_, rfl⟩
  | emptySlice _ => exact .inl ⟨_, rfl⟩
  | @slice source low width _ =>
    by_cases hword : low + width < wordBound
    · exact .inl ⟨_, by rw [BuildError.message_sliceOutOfRange, if_pos hword]⟩
    · exact .inr ⟨source, low, width, rfl, Nat.not_lt.mp hword, rfl⟩
  | concat _ => exact .inl ⟨_, rfl⟩
  | bitcast _ _ => exact .inl ⟨_, rfl⟩
  | drive hrefuses => exact .inl hrefuses.prints

private theorem refused_of_some {x : Build Value}
    (hrun : (some <$> x : Build (Option Value)) builder = .error (.refused cause) builder') :
    x builder = .error (.refused cause) builder' := by
  rw [map_eq_pure_bind] at hrun
  exact refused_of_bind_pure hrun

/-- **Refused calls.** -/
theorem refuses_of_perform (hrun : call.perform builder = .error (.refused cause) builder') :
    call.Refuses builder cause := by
  cases call with
  | constant pattern =>
    have hcauses : RefusesFor (Refuses builder (.constant pattern)) (Build.constant pattern) :=
      .guard .constant (.of_never (neverRefuses_typedCell _ _ _))
    exact hcauses _ _ _ (refused_of_some hrun)
  | slice source low width =>
    have hcauses : RefusesFor (Refuses builder (.slice source low width)) (Build.slice source low width) :=
      .guard .emptySlice (.guard .slice (.of_never (neverRefuses_typedCell _ _ _)))
    exact hcauses _ _ _ (refused_of_some hrun)
  | concat operands =>
    have hcauses : RefusesFor (Refuses builder (.concat operands)) (Build.concat operands) := by
      refine .lift_checked_bind fun total htotal => .guard (fun hzero => .concat ?_) (.of_never ?_)
      · obtain ⟨hsum, -⟩ := totalWidth_eq_ok (by decide) htotal
        rw [totalBits]
        omega
      · exact neverRefuses_typedCell _ _ _
    exact hcauses _ _ _ (refused_of_some hrun)
  | bitcast source type =>
    -- the type is looked up in the netlist as it is before the call
    have hcauses : RefusesFor (Refuses builder (.bitcast source type))
        (do
          let width ← builder.types.bitWidth type
          if width ≠ source.width then
            throw (.refused (.bitcastWidth source.width width))
          Build.addCell .bitcast [source.signal] type none) :=
      .lift_checked_bind fun width htype => .guard (.bitcast htype) (.of_never (neverRefuses_addCell _ _ _ _))
    exact hcauses _ _ _ (refused_of_some hrun)
  | drive port value =>
    have houtcome := builder.drive_outcome port value
    rw [refused_of_bind_pure hrun] at houtcome
    cases houtcome with
    | refused hrefuses => exact .drive hrefuses
  -- what is left never refuses
  | input name type => exact absurd (refused_of_some hrun) (neverRefuses_input _ _ _ _ _)
  | wire name source => exact absurd (refused_of_some hrun) (neverRefuses_addCell _ _ _ _ _ _ _)
  | uniqueName name => exact absurd (refused_of_bind_pure hrun) (neverRefuses_uniqueName _ _ _ _)
  | output name type => cases hrun
  | internType type => cases hrun
  | internArray element dims => cases hrun
  | intern text => cases hrun
  | fresh stem => cases hrun

end Call


/-! ### Operations on arrays -/

section Lifts

variable {α : Type} {cause : ArrayError}

/-- Index arithmetic is not up to the builder, and neither are shapes. -/
theorem own_of_lift_index {y : Attempt IndexError α}
    (hrun : (liftM y : Attempt ArrayError α) = .error (.refused cause)) : cause.Own := by
  rcases y with (refusal | kind) | a <;> cases hrun
  exact nofun

theorem own_of_lift_shape {y : Attempt ShapeError α}
    (hrun : (liftM y : Attempt ArrayError α) = .error (.refused cause)) : cause.Own := by
  rcases y with (refusal | kind) | a <;> cases hrun
  exact nofun

end Lifts

namespace Store

theorem own_of_checkOffset {store : Store} {offset : Nat} {cause : ArrayError}
    (hrun : store.checkOffset offset = .error (.refused cause)) : cause.Own := by
  unfold checkOffset at hrun
  split at hrun <;> cases hrun
  exact nofun

theorem own_of_imported {origin : BitRange} {elemType : ElemType} {cause : ArrayError}
    (hrun : Store.imported origin elemType = .error (.refused cause)) : cause.Own := by
  unfold Store.imported at hrun
  split at hrun <;> cases hrun
  exact nofun

theorem neverRefuses_commit (entries : List (Nat × Element)) : NeverRefuses (commit entries) :=
  .of_ok fun _ => ⟨_, _, rfl⟩

theorem refusesFor_set (offset : Nat) (value : BitRange) : RefusesFor ArrayError.Own (set offset value) := by
  refine .bind .get fun store => ?_
  split
  · exact .bind (.lift fun _ => own_of_checkOffset) fun _ => .of_never (neverRefuses_commit _)
  · refine .lift_checked_bind fun stop _ => .guard (fun _ => nofun) ?_
    exact .lift_checked_bind fun bits _ => .of_never (neverRefuses_commit _)
  · exact .throw nofun

theorem refusesFor_setRange (offsets : List Nat) (value : BitRange) :
    RefusesFor ArrayError.Own (setRange offsets value) := by
  refine .bind .get fun store => .lift_checked_bind fun total _ => .guard (fun _ => nofun) ?_
  refine .bind (.forM fun offset _ => .lift fun _ => own_of_checkOffset) fun _ => ?_
  exact .lift_checked_bind fun parts _ => .of_never (neverRefuses_commit _)

/-- Whatever is written to a store, no builder refuses it. -/
theorem IsWrite.refusesFor {operation : Change Store ArrayError Unit} (h : IsWrite operation) :
    RefusesFor ArrayError.Own operation := by
  cases h with
  | set offset value => exact refusesFor_set offset value
  | setRange offsets value => exact refusesFor_setRange offsets value
  | broadcast targets value => exact .forM fun target _ => refusesFor_set target value

end Store

theorem Session.refusesFor_onStore {α : Type} {P : ArrayError → Prop} {operation : Change Store ArrayError α}
    (h : RefusesFor P operation) (id : StoreId) : RefusesFor P (Session.onStore id operation) := by
  intro workspace cause workspace' hrun
  unfold Session.onStore at hrun
  cases hstore : workspace.stores[id.index]? with
  | none =>
    rw [hstore] at hrun
    cases hrun
  | some store =>
    simp only [hstore] at hrun
    cases hwrite : operation store with
    | ok answer store' =>
      simp only [hwrite] at hrun
      cases hrun
    | error failure store' =>
      simp only [hwrite] at hrun
      cases hrun
      exact h store cause store' hwrite

namespace ArrayView

/-! New arrays -/

theorem refusesFor_ofStore (shape : List Nat) (store : Store) : RefusesFor ArrayError.Own (ofStore shape store) :=
  .of_never (.of_ok fun _ => ⟨_, _, rfl⟩)

theorem refusesFor_create (shape : List Nat) (elemType : ElemType) :
    RefusesFor ArrayError.Own (create shape elemType) := by
  refine .bind (.lift fun _ => own_of_lift_shape) fun _ => .lift_checked_bind fun _ _ => .lift_checked_bind fun _ _ => ?_
  exact refusesFor_ofStore _ _

theorem own_of_importShape {value : Value} {store : Store} {shape : Option (List Nat)} {cause : ArrayError}
    (hrun : importShape value store shape = .error (.refused cause)) : cause.Own := by
  cases shape with
  | none => cases hrun
  | some shape =>
    rcases bind_eq_error.mp hrun with hshape | ⟨_, -, hrun⟩
    · exact own_of_lift_shape hshape
    rcases bind_eq_error.mp hrun with hcount | ⟨count, -, hrun⟩
    · cases hlift : elementCount shape <;> rw [hlift] at hcount <;> cases hcount
    · split at hrun <;> cases hrun
      exact nofun

theorem own_of_ofWidth {width : Nat} {cause : ArrayError}
    (hrun : ElemType.ofWidth width = .error (.refused cause)) : cause.Own := by
  unfold ElemType.ofWidth at hrun
  split at hrun <;> cases hrun
  exact nofun

theorem refusesFor_ofValueAs (value : Value) (elemType : ElemType) (shape : Option (List Nat)) :
    RefusesFor ArrayError.Own (ofValueAs value elemType shape) := by
  refine .bind (.lift fun _ => Store.own_of_imported) fun _ => .bind (.lift fun _ => own_of_importShape) fun _ => ?_
  exact refusesFor_ofStore _ _

theorem refusesFor_ofValue (value : Value) : RefusesFor ArrayError.Own (ofValue value) := by
  refine .bind .get fun _ => .lift_checked_bind fun found _ => ?_
  split
  · refine .lift_checked_bind fun _ _ => .bind (.lift fun _ => own_of_ofWidth) fun _ => ?_
    exact refusesFor_ofValueAs _ _ _
  · exact .bind (.lift fun _ => own_of_ofWidth) fun _ => refusesFor_ofValueAs _ _ _

theorem refusesFor_operandViews (elemType : ElemType) (operands : List Operand) :
    RefusesFor ArrayError.Own (operandViews elemType operands) := by
  induction operands with
  | nil => exact .pure _
  | cons operand operands ih =>
    have htoArray : RefusesFor ArrayError.Own operand.toArray := by
      cases operand with
      | array view => exact .pure _
      | value source => exact refusesFor_ofValue source
    refine .bind htoArray fun _ => .guard (fun _ => nofun) (.bind ih fun _ => ?_)
    exact .pure _

theorem refusesFor_concatenate (view : ArrayView) (operands : List Operand) :
    RefusesFor ArrayError.Own (view.concatenate operands) := by
  refine .bind (refusesFor_operandViews _ _) fun _ => .lift_checked_bind fun _ _ => ?_
  refine .lift_checked_bind fun _ _ => .bind .get fun _ => .lift_checked_bind fun _ _ => ?_
  exact refusesFor_ofStore _ _

/-! Writing -/

theorem refusesFor_set (view : ArrayView) (coordinate : List Nat) (value : BitRange) :
    RefusesFor ArrayError.Own (view.set coordinate value) := by
  refine .bind (.lift fun _ => own_of_lift_index) fun _ => ?_
  split
  · exact .lift_checked_bind fun _ _ => Session.refusesFor_onStore (Store.refusesFor_set _ _) _
  · refine .lift_checked_bind fun _ _ => .lift_checked_bind fun _ _ => .guard (fun _ => nofun) ?_
    exact .lift_checked_bind fun _ _ => Session.refusesFor_onStore (Store.refusesFor_setRange _ _) _
  · exact .throw nofun

theorem refusesFor_assign (view : ArrayView) (selection : List Selector) (value : BitRange) :
    RefusesFor ArrayError.Own (view.assign selection value) := by
  refine .bind (.lift fun _ => own_of_lift_index) fun _ => .lift_checked_bind fun _ _ => .lift_checked_bind fun _ _ => ?_
  split
  · exact Session.refusesFor_onStore (Store.refusesFor_setRange _ _) _
  split
  · exact Session.refusesFor_onStore (Store.IsWrite.broadcast _ _).refusesFor _
  · exact .throw nofun

theorem own_of_transform {view : ArrayView} {step : Transform} {cause : ArrayError}
    (hrun : view.transform step = .error (.refused cause)) : cause.Own := by
  cases step with
  | select selection => exact own_of_lift_index hrun
  | transpose permutation => exact own_of_lift_shape hrun
  | reshape shape => exact own_of_lift_shape hrun
  | roll amount axis => exact own_of_lift_index hrun

/-! Elements, and what is built of them -/

section Elements

variable {view : ArrayView} {store : Store} {workspace after : Workspace} {cause : ArrayError}

theorem own_of_lift_checked {α : Type} {y : Checked α}
    (hrun : (liftM y : Attempt ArrayError α) = .error (.refused cause)) : cause.Own := by
  rcases y with kind | a <;> cases hrun

theorem own_of_require {offset : Nat} (hrun : view.require store offset = .error (.refused cause)) : cause.Own := by
  rcases bind_eq_error.mp hrun with hlift | ⟨found, -, hrun⟩
  · exact own_of_lift_checked hlift
  · cases found <;> cases hrun
    exact nofun

theorem own_of_elements (hrun : view.elements store = .error (.refused cause)) : cause.Own := by
  rcases bind_eq_error.mp hrun with hlift | ⟨count, -, hrun⟩
  · exact own_of_lift_checked hlift
  · obtain ⟨offset, -, hrequire⟩ := exists_of_mapM_eq_error hrun
    exact own_of_require hrequire

variable (hsound : workspace.Sound) (h : view.Fits store) (hstore : workspace.store view.store = .ok store)

include hsound h hstore

/-- What is read can be cut out, so that it is not the builder who refuses. -/
theorem Fits.own_of_read {coordinate : List Nat}
    (hrun : view.read coordinate workspace = .error (.refused cause) after) : cause.Own := by
  have houtcome := read_outcome hsound h hstore coordinate
  generalize view.read coordinate workspace = result at hrun houtcome
  cases houtcome with
  | @outside failure _ =>
    cases failure <;> cases hrun
    intro refusal hbuild
    cases hbuild
  | gap _ _ =>
    cases hrun
    intro refusal hbuild
    cases hbuild
  | built _ => cases hrun

/-- What is lowered can be cut out as well. -/
theorem Fits.own_of_lower {settings : Settings}
    (hrun : view.lower settings workspace = .error (.refused cause) after) : cause.Own := by
  intro refusal hbuild
  rcases (h.refused_cases hsound hstore hrun).2 with rfl | ⟨offset, rfl⟩ <;> cases hbuild

end Elements

end ArrayView

/-! ### Actions -/

/-- **Refused actions.** It is the action's own cause, unless the action is a call. -/
theorem Action.own_of_perform {action : Action} {workspace after : Workspace} {cause : ArrayError}
    (hsound : workspace.Sound) (harrays : ∀ view ∈ action.arrays, view.Sound workspace)
    (hrun : action.perform workspace = .error (.refused cause) after) :
    cause.Own ∨ ∃ operation refusal, action = .call operation ∧ operation.Refuses workspace.builder refusal ∧
      cause = .build refusal := by
  cases action with
  | call operation =>
    obtain ⟨refusal, builder, rfl, hcall, -⟩ := Session.exists_of_build_refused (refused_of_bind_pure hrun)
    exact .inr ⟨operation, refusal, rfl, Call.refuses_of_perform hcall, rfl⟩
  | valueOf signal =>
    -- a signal is there, or to ask for it is a fault
    have hnever : NeverRefuses (Action.perform (.valueOf signal)) := by
      refine .bind (.of_ok fun _ => ⟨_, _, rfl⟩) fun workspace => .bind (.lift_checked _) fun _ => ?_
      exact .of_ok fun _ => ⟨_, _, rfl⟩
    exact absurd hrun (hnever _ _ _)
  -- new arrays
  | create shape elemType =>
    exact .inl (ArrayView.refusesFor_create shape elemType _ _ _ (refused_of_bind_pure hrun))
  | importValue value => exact .inl (ArrayView.refusesFor_ofValue value _ _ _ (refused_of_bind_pure hrun))
  | importAs value elemType shape =>
    exact .inl (ArrayView.refusesFor_ofValueAs value elemType shape _ _ _ (refused_of_bind_pure hrun))
  -- arrays of arrays
  | derive view step =>
    have hcauses : RefusesFor ArrayError.Own (liftM (view.transform step) : Session ArrayView) :=
      .lift fun _ => ArrayView.own_of_transform
    exact .inl (hcauses _ _ _ (refused_of_bind_pure hrun))
  | rename view name => cases hrun
  | concatenate view operands =>
    exact .inl (ArrayView.refusesFor_concatenate view operands _ _ _ (refused_of_bind_pure hrun))
  -- writes
  | set view coordinate value =>
    exact .inl (ArrayView.refusesFor_set view coordinate value _ _ _ (refused_of_bind_pure hrun))
  | assign view selection value =>
    exact .inl (ArrayView.refusesFor_assign view selection value _ _ _ (refused_of_bind_pure hrun))
  -- values
  | read view coordinate =>
    obtain ⟨store, hstore, hfits⟩ := harrays view List.mem_cons_self
    exact .inl (hfits.own_of_read hsound hstore (refused_of_bind_pure hrun))
  | lower view settings =>
    obtain ⟨store, hstore, hfits⟩ := harrays view List.mem_cons_self
    exact .inl (hfits.own_of_lower hsound hstore (refused_of_bind_pure hrun))
  | driveOutput view port => cases hrun

/-- **Refused outputs.** Either the array cannot be lowered, or the port does not take it. -/
theorem ArrayView.prints_of_driveOutput {view : ArrayView} {workspace : Workspace} {port : PortId} {cause : ArrayError}
    {after : ArrayView × Workspace} (hsound : workspace.Sound) (h : view.Sound workspace)
    (hrun : ArrayView.driveOutput port (view, workspace) = .error (.refused cause) after) : cause.Prints := by
  have houtcome := ArrayView.driven_outcome hsound h port
  rw [hrun] at houtcome
  cases houtcome with
  | spared hlower =>
    obtain ⟨store, hstore, hfits⟩ := h
    exact (hfits.own_of_lower hsound hstore hlower).prints
  | refused _ hrefuses => exact hrefuses.prints

namespace Scene

variable {scene : Scene}

/-- **Texts.** Take any scene.

* Whatever is done with it, a refusal has a text, except for one of a slice whose end is no machine word. The port that
  does not take an array says why, too.
* The same holds of elements that are collected, and of what a store refuses, whichever it is.
* A slice past the end of a value is refused, and the text shows the exact end. If no machine word holds the end, the
  slice is refused all the same, but its text is a fault.

What is left are the refusals of coordinates, whose causes have a text each (`IndexError.message`).
-/
theorem refusals_print (hscene : scene.Reachable) :
    (∀ action : Action, (∀ view ∈ action.arrays, view ∈ scene.arrays) → ∀ cause after,
      action.perform scene.workspace = .error (.refused cause) after →
        cause.Prints ∨ ∃ source low width, action = .call (.slice source low width) ∧ wordBound ≤ low + width ∧
          cause = .build (.sliceOutOfRange low width source.width)) ∧
    (∀ view ∈ scene.arrays, ∀ port cause after,
      ArrayView.driveOutput port (view, scene.workspace) = .error (.refused cause) after → cause.Prints) ∧
    (∀ view ∈ scene.arrays, ∀ store cause, view.elements store = .error (.refused cause) → cause.Prints) ∧
    (∀ operation, Store.IsWrite operation → RefusesFor ArrayError.Prints operation) ∧
    (∀ origin elemType cause, Store.imported origin elemType = .error (.refused cause) → cause.Prints) ∧
    ∀ source low width, width ≠ 0 → source.width < low + width →
      Build.slice source low width scene.workspace.builder
        = .error (.refused (.sliceOutOfRange low width source.width)) scene.workspace.builder ∧
      (BuildError.sliceOutOfRange low width source.width).message =
        if low + width < wordBound then
          .ok s!"slice [{low}, {low + width}) out of range for a {source.width}-bit value"
        else
          .error .overflow := by
  have hsound := sound_of_reachable hscene
  refine ⟨?_, ?_, ?_, ?_, ?_, ?_⟩
  · intro action harrays cause after hrun
    have hviews : ∀ view ∈ action.arrays, view.Sound scene.workspace :=
      fun view hview => hsound.made.arrays view (harrays view hview)
    rcases Action.own_of_perform hsound.workspace hviews hrun with hown | ⟨operation, refusal, rfl, hrefuses, rfl⟩
    · exact .inl hown.prints
    -- a refusal of the builder has the text that the builder gives it
    rcases hrefuses.prints with hprints | ⟨source, low, width, rfl, hlarge, rfl⟩
    · exact .inl hprints
    · exact .inr ⟨source, low, width, rfl, hlarge, rfl⟩
  · intro view hview port cause after hrun
    exact ArrayView.prints_of_driveOutput hsound.workspace (hsound.made.arrays view hview) hrun
  · intro view hview store cause hrun
    exact (ArrayView.own_of_elements hrun).prints
  · intro operation hwrite store cause after hrun
    exact (hwrite.refusesFor store cause after hrun).prints
  · intro origin elemType cause hrun
    exact (Store.own_of_imported hrun).prints
  · intro source low width hne hpast
    refine ⟨?_, BuildError.message_sliceOutOfRange low width source.width⟩
    rw [Build.slice, if_neg hne, if_pos hpast]
    rfl

/-- A slice past the end of the grid's input says where it ends, and a coordinate beside the grid is refused with a text
as well. -/
theorem refusals_print_grid :
    Build.slice gridInput 6 4 grid.workspace.builder
        = .error (.refused (.sliceOutOfRange 6 4 8)) grid.workspace.builder ∧
      (BuildError.sliceOutOfRange 6 4 8).message = .ok "slice [6, 10) out of range for a 8-bit value" ∧
      ∃ cause after, (Action.read gridColumns [0, 2]).perform grid.workspace = .error (.refused cause) after ∧
        cause.Prints := by
  obtain ⟨hactions, -, -, -, -, hslice⟩ := refusals_print grid_reachable
  obtain ⟨hrun, hmessage⟩ := hslice gridInput 6 4 (by decide) (by decide)
  refine ⟨hrun, hmessage, .index (.outOfAxis 2 1 2), grid.workspace, by decide +kernel, ?_⟩
  rcases hactions (.read gridColumns [0, 2]) (by decide +kernel) (.index (.outOfAxis 2 1 2)) grid.workspace
    (by decide +kernel) with hprints | ⟨_, _, _, hcall, -⟩
  · exact hprints
  · cases hcall

/-- A slice that begins with the last bit that can be named is refused, but without a text. -/
theorem message_overflow_gridInput :
    grid.Reachable ∧ grid.Allows (.call (.slice gridInput 4294967295 2)) ∧
      Build.slice gridInput 4294967295 2 grid.workspace.builder
        = .error (.refused (.sliceOutOfRange 4294967295 2 8)) grid.workspace.builder ∧
      (BuildError.sliceOutOfRange 4294967295 2 8).message = .error .overflow := by
  refine ⟨grid_reachable, ?_⟩
  decide +kernel

end Scene

end NetArray
