import Mathlib
import NetArray.Proofs.Array.LoweringRuns

/-!
# What an action is made of

Whatever an action does to a workspace, it does through one of six doors: it runs a call of the builder, cuts an
element out, builds a lowered array, drives a port, adds a store, or writes to the store of the array that it is
given. `Action.Parts` asks of each of them that it keeps a relation between workspaces, and `Action.keeps_perform`
concludes that the action does, whatever its outcome. A statement about all actions is so reduced to
six primitive ones.
-/

namespace NetArray

/-- The store that an action may write to. -/
def Action.target? : Action → Option StoreId
  | .set view _ _ => some view.store
  | .assign view _ _ => some view.store
  | _ => none

/-- What writing through an array comes down to: one write to a slot, one value split over several slots, or one
value written to each of them. -/
inductive Store.IsWrite : Change Store ArrayError Unit → Prop where
  | set (offset : Nat) (value : BitRange) : IsWrite (Store.set offset value)
  | setRange (offsets : List Nat) (value : BitRange) : IsWrite (Store.setRange offsets value)
  | broadcast (targets : List Nat) (value : BitRange) : IsWrite (ArrayView.broadcast targets value)

/-- Everything that an action does to a workspace keeps the relation. -/
structure Action.Parts (R : Workspace → Workspace → Prop) (action : Action) : Prop where
  call : ∀ {operation}, action = .call operation → Keeps R (Session.build operation.perform)
  materialize : ∀ range, Keeps R (Session.build (BitRange.materialize range))
  build : ∀ view settings parts, Keeps R (Session.build (ArrayView.build view settings parts))
  drive : ∀ port value, Keeps R (Session.build (Build.drive port value))
  addStore : ∀ store, Keeps R (Session.addStore store)
  write : ∀ id ∈ action.target?, ∀ operation, Store.IsWrite operation →
    Keeps R (Session.onStore id operation)

variable {R : Workspace → Workspace → Prop} [Std.Refl R] [IsTrans Workspace R]

namespace ArrayView

/-! ### New arrays -/

section Stores

variable (haddStore : ∀ store, Keeps R (Session.addStore store))

include haddStore

theorem keeps_ofStore (shape : List Nat) (store : Store) : Keeps R (ofStore shape store) :=
  .bind (haddStore store) fun _ => .pure _

theorem keeps_create (shape : List Nat) (elemType : ElemType) : Keeps R (create shape elemType) := by
  refine .bind (.lift _) fun _ => .bind (.lift_checked _) fun _ => .bind (.lift_checked _) fun _ => ?_
  exact keeps_ofStore haddStore _ _

theorem keeps_ofValueAs (value : Value) (elemType : ElemType) (shape : Option (List Nat)) :
    Keeps R (ofValueAs value elemType shape) :=
  .bind (.lift _) fun _ => .bind (.lift _) fun _ => keeps_ofStore haddStore _ _

theorem keeps_ofValue (value : Value) : Keeps R (ofValue value) := by
  refine .bind .get fun _ => .bind (.lift_checked _) fun found => ?_
  split
  · refine .bind (.lift_checked _) fun _ => .bind (.lift _) fun _ => ?_
    exact keeps_ofValueAs haddStore _ _ _
  · exact .bind (.lift _) fun _ => keeps_ofValueAs haddStore _ _ _

theorem keeps_operandViews (elemType : ElemType) (operands : List Operand) :
    Keeps R (operandViews elemType operands) := by
  induction operands with
  | nil => exact .pure _
  | cons operand operands ih =>
    have htoArray : Keeps R operand.toArray := by
      cases operand with
      | array view => exact .pure _
      | value source => exact keeps_ofValue haddStore source
    refine .bind htoArray fun _ => .guard fun _ => .bind ih fun _ => ?_
    exact .pure _

theorem keeps_concatenate (view : ArrayView) (operands : List Operand) :
    Keeps R (view.concatenate operands) := by
  refine .bind (keeps_operandViews haddStore _ _) fun _ => .bind (.lift_checked _) fun _ => ?_
  refine .bind (.lift_checked _) fun _ => .bind .get fun _ => .bind (.lift_checked _) fun _ => ?_
  exact keeps_ofStore haddStore _ _

end Stores

/-! ### Writing and lowering -/

theorem keeps_set {view : ArrayView}
    (hwrite : ∀ operation, Store.IsWrite operation → Keeps R (Session.onStore view.store operation))
    (coordinate : List Nat) (value : BitRange) : Keeps R (view.set coordinate value) := by
  refine .bind (.lift _) fun _ => ?_
  split
  · exact .bind (.lift_checked _) fun _ => hwrite _ (.set _ _)
  · refine .bind (.lift_checked _) fun _ => .bind (.lift_checked _) fun _ => .guard fun _ => ?_
    exact .bind (.lift_checked _) fun _ => hwrite _ (.setRange _ _)
  · exact .throw _

theorem keeps_assign {view : ArrayView}
    (hwrite : ∀ operation, Store.IsWrite operation → Keeps R (Session.onStore view.store operation))
    (selection : List Selector) (value : BitRange) : Keeps R (view.assign selection value) := by
  refine .bind (.lift _) fun _ => .bind (.lift_checked _) fun _ => .bind (.lift_checked _) fun _ => ?_
  split
  · exact hwrite _ (.setRange _ _)
  split
  · exact hwrite _ (.broadcast _ _)
  · exact .throw _

theorem keeps_read (hmaterialize : ∀ range, Keeps R (Session.build (BitRange.materialize range)))
    (view : ArrayView) (coordinate : List Nat) : Keeps R (view.read coordinate) := by
  refine .bind (.lift _) fun _ => .bind .get fun _ => .bind (.lift_checked _) fun _ => ?_
  exact .bind (.lift _) fun _ => hmaterialize _

theorem keeps_lower (hbuild : ∀ view settings parts, Keeps R (Session.build (build view settings parts)))
    (view : ArrayView) (settings : Settings) : Keeps R (view.lower settings) := by
  have hlowered : Keeps R (view.lowered settings) := by
    refine .bind (.lift_checked _) fun _ => .guard fun _ => .bind .get fun _ => ?_
    exact .bind (.lift_checked _) fun _ => .bind (.lift _) fun parts => hbuild view settings parts
  exact .bind hlowered fun _ => .bind .get fun _ => .bind (.lift_checked _) fun _ => .pure _

/-- An output is driven in two halves, of which the second may not be reached. -/
theorem keeps_driveOutput
    (hbuild : ∀ view settings parts, Keeps R (Session.build (build view settings parts)))
    (hdrive : ∀ port value, Keeps R (Session.build (Build.drive port value)))
    (view : ArrayView) (port : PortId) (workspace : Workspace) :
    R workspace (finalState (driveOutput port (view, workspace))).2 := by
  have hlower := keeps_lower hbuild view {} workspace
  unfold driveOutput
  cases hrun : view.lower {} workspace with
  | error failure middle =>
    rw [hrun] at hlower
    simp only [hrun]
    exact hlower
  | ok answer middle =>
    rw [hrun] at hlower
    have hport := hdrive port answer.1 middle
    simp only [hrun]
    cases hrunPort : Session.build (Build.drive port answer.1) middle with
    | error failure workspace' =>
      rw [hrunPort] at hport
      exact IsTrans.trans _ _ _ hlower hport
    | ok u workspace' =>
      rw [hrunPort] at hport
      exact IsTrans.trans _ _ _ hlower hport

end ArrayView

/-- **Actions.** An action keeps what its parts keep, whatever its outcome. -/
theorem Action.keeps_perform {action : Action} (h : action.Parts R) : Keeps R action.perform := by
  cases action with
  | call operation => exact .bind (h.call rfl) fun _ => .pure _
  | valueOf signal => exact .bind .get fun _ => .bind (.lift_checked _) fun _ => .pure _
  -- new arrays
  | create shape elemType => exact .bind (ArrayView.keeps_create h.addStore _ _) fun _ => .pure _
  | importValue value => exact .bind (ArrayView.keeps_ofValue h.addStore _) fun _ => .pure _
  | importAs value elemType shape =>
    exact .bind (ArrayView.keeps_ofValueAs h.addStore _ _ _) fun _ => .pure _
  -- arrays of arrays
  | derive view step => exact .bind (.lift _) fun _ => .pure _
  | rename view name => exact .pure _
  | concatenate view operands =>
    exact .bind (ArrayView.keeps_concatenate h.addStore _ _) fun _ => .pure _
  -- writes
  | set view coordinate value =>
    exact .bind (ArrayView.keeps_set (h.write view.store rfl) _ _) fun _ => .pure _
  | assign view selection value =>
    exact .bind (ArrayView.keeps_assign (h.write view.store rfl) _ _) fun _ => .pure _
  -- values
  | read view coordinate => exact .bind (ArrayView.keeps_read h.materialize _ _) fun _ => .pure _
  | lower view settings => exact .bind (ArrayView.keeps_lower h.build _ _) fun _ => .pure _
  | driveOutput view port => exact ArrayView.keeps_driveOutput h.build h.drive view port

end NetArray
