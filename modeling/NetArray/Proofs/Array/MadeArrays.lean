import Mathlib
import NetArray.Proofs.Array.Scenes

/-!
# Where arrays come from

An array that an action makes has one of four origins. It is new, with a store of its own; it is derived from another
one; it is another one as it was, maybe under a new name; or it is another one after it was lowered. `Action.Makes`
lists them, and `Action.makes_of_perform` reads them off every action once. What holds of all arrays of a scene is then
proved by cases on the origin (`Scene.forall_arrays_step`).
-/

namespace NetArray

theorem checkShape_eq_ok {shape : List Nat} {u : Unit} :
    checkShape shape = .ok u ↔ shape ≠ [] ∧ 0 ∉ shape := by
  unfold checkShape
  split
  · next hempty => exact ⟨fun h => (nomatch h), fun h => absurd hempty (not_or.mpr h)⟩
  · next hfull => exact ⟨fun _ => not_or.mp hfull, fun _ => rfl⟩

namespace ArrayView

variable {view derived : ArrayView} {workspace workspace' : Workspace}

/-- A new array has an axis, and nobody has lowered it. -/
structure Fresh (view : ArrayView) : Prop where
  shape : view.shape ≠ []
  loweredAt : view.loweredAt = none

/-- The array of a store has the shape that was asked for. -/
theorem fresh_of_ofStore {shape : List Nat} {store : Store} (hshape : shape ≠ [])
    (h : ofStore shape store workspace = .ok view workspace') : view.Fresh := by
  obtain ⟨_, _, -, hpure⟩ := change_bind_eq_ok.mp h
  obtain ⟨rfl, -⟩ := change_pure_eq_ok.mp hpure
  exact ⟨hshape, rfl⟩

theorem fresh_of_create {shape : List Nat} {elemType : ElemType}
    (h : create shape elemType workspace = .ok view workspace') : view.Fresh := by
  obtain ⟨_, _, hlift, h⟩ := change_bind_eq_ok.mp h
  obtain ⟨hcheck, rfl⟩ := change_lift_eq_ok.mp hlift
  obtain ⟨_, _, -, h⟩ := change_bind_eq_ok.mp h
  obtain ⟨_, _, -, h⟩ := change_bind_eq_ok.mp h
  exact fresh_of_ofStore (checkShape_eq_ok.mp (lift_shape_eq_ok.mp hcheck)).1 h

theorem shape_of_importShape {value : Value} {store : Store} {shape : Option (List Nat)}
    {result : List Nat} (h : importShape value store shape = .ok result) : result ≠ [] := by
  cases shape with
  | none =>
    cases h
    exact List.cons_ne_nil _ _
  | some shape =>
    simp only [importShape, bind_eq_ok, lift_checked_eq_ok, lift_shape_eq_ok] at h
    obtain ⟨_, hcheck, count, -, h⟩ := h
    split at h
    · obtain rfl := pure_eq_ok.mp h
      exact (checkShape_eq_ok.mp hcheck).1
    · cases h

theorem fresh_of_ofValueAs {value : Value} {elemType : ElemType} {shape : Option (List Nat)}
    (h : ofValueAs value elemType shape workspace = .ok view workspace') : view.Fresh := by
  obtain ⟨_, _, -, h⟩ := change_bind_eq_ok.mp h
  obtain ⟨_, _, hlift, h⟩ := change_bind_eq_ok.mp h
  obtain ⟨hshape, rfl⟩ := change_lift_eq_ok.mp hlift
  exact fresh_of_ofStore (shape_of_importShape hshape) h

theorem fresh_of_ofValue {value : Value}
    (h : ofValue value workspace = .ok view workspace') : view.Fresh := by
  obtain ⟨_, _, -, h⟩ := change_bind_eq_ok.mp h
  obtain ⟨found, _, -, h⟩ := change_bind_eq_ok.mp h
  cases found with
  | some layout =>
    obtain ⟨_, _, -, h⟩ := change_bind_eq_ok.mp h
    obtain ⟨_, _, -, h⟩ := change_bind_eq_ok.mp h
    exact fresh_of_ofValueAs h
  | none =>
    obtain ⟨_, _, -, h⟩ := change_bind_eq_ok.mp h
    exact fresh_of_ofValueAs h

theorem fresh_of_concatenate {operands : List Operand}
    (h : view.concatenate operands workspace = .ok derived workspace') : derived.Fresh := by
  obtain ⟨_, _, -, h⟩ := change_bind_eq_ok.mp h
  obtain ⟨_, _, -, h⟩ := change_bind_eq_ok.mp h
  obtain ⟨_, _, -, h⟩ := change_bind_eq_ok.mp h
  obtain ⟨_, _, -, h⟩ := change_bind_eq_ok.mp h
  obtain ⟨_, _, -, h⟩ := change_bind_eq_ok.mp h
  exact fresh_of_ofStore (List.cons_ne_nil _ _) h

/-- A view is not lowered by deriving it, whatever the array is that it is derived from. -/
theorem unmarked_of_transform {step : Transform} (h : view.transform step = .ok derived) :
    derived.loweredAt = none := by
  cases step with
  | select selection =>
    obtain ⟨_, -, rfl⟩ := eq_of_select (lift_index_eq_ok.mp h)
    rfl
  | transpose permutation =>
    obtain ⟨-, rfl⟩ := eq_of_transpose (lift_shape_eq_ok.mp h)
    rfl
  | reshape shape =>
    obtain ⟨-, rfl⟩ := eq_of_reshape (lift_shape_eq_ok.mp h)
    rfl
  | roll amount axis =>
    obtain ⟨_, rfl, -⟩ := eq_of_roll (lift_index_eq_ok.mp h)
    rfl

end ArrayView

/-! ### One action -/

namespace Action

/-- The action lowers the array, by itself or to drive an output with it. -/
inductive Lowers (source : ArrayView) : Settings → Action → Prop
  | lower (settings : Settings) : Lowers source settings (.lower source settings)
  | driveOutput (port : PortId) : Lowers source {} (.driveOutput source port)

/-- Where an array comes from that the action makes. -/
inductive Makes (action : Action) (workspace : Workspace) (view : ArrayView) : Prop
  | fresh (h : view.Fresh)
  | derived (source : ArrayView) (step : Transform) (hsource : source ∈ action.arrays)
      (h : source.transform step = .ok view)
  | renamed (source : ArrayView) (hsource : source ∈ action.arrays) (h : view = { source with name := view.name })
  | lowered (source : ArrayView) (settings : Settings) (value : Value) (workspace' : Workspace)
      (hlowers : action.Lowers source settings)
      (h : source.lower settings workspace = .ok (value, view) workspace')

variable {action : Action} {made : Made} {workspace workspace' : Workspace}

/-- What is lowered is an array that the action is given. -/
theorem Lowers.mem_arrays {source : ArrayView} {settings : Settings} (h : action.Lowers source settings) :
    source ∈ action.arrays := by
  cases h <;> exact List.mem_cons_self

/-- An array that could not be lowered is there as it was. -/
private theorem makes_driveOutput (view : ArrayView) (port : PortId) (workspace : Workspace) :
    Makes (.driveOutput view port) workspace
      (finalState (ArrayView.driveOutput port (view, workspace))).1 := by
  unfold ArrayView.driveOutput
  cases hrun : view.lower {} workspace with
  | error failure middle =>
    simp only [hrun]
    exact .renamed view List.mem_cons_self rfl
  | ok answer middle =>
    have hmakes : Makes (.driveOutput view port) workspace answer.2 :=
      .lowered view {} answer.1 middle (.driveOutput port) hrun
    simp only [hrun]
    cases hport : Session.build (Build.drive port answer.1) middle <;> exact hmakes

/-- **One action.** Every array that it makes has one of the four origins. -/
theorem makes_of_perform (h : action.perform workspace = .ok made workspace') :
    ∀ view ∈ made.arrays, action.Makes workspace view := by
  have hnone : ∀ view ∈ ([] : List ArrayView), action.Makes workspace view := fun _ hmem => nomatch hmem
  cases action with
  | call operation =>
    obtain ⟨_, _, -, hpure⟩ := change_bind_eq_ok.mp h
    obtain ⟨rfl, -⟩ := change_pure_eq_ok.mp hpure
    exact hnone
  | valueOf signal =>
    obtain ⟨_, _, -, hrest⟩ := change_bind_eq_ok.mp h
    obtain ⟨_, _, -, hpure⟩ := change_bind_eq_ok.mp hrest
    obtain ⟨rfl, -⟩ := change_pure_eq_ok.mp hpure
    exact hnone
  -- new arrays
  | create shape elemType =>
    obtain ⟨view, _, hview, hpure⟩ := change_bind_eq_ok.mp h
    obtain ⟨rfl, -⟩ := change_pure_eq_ok.mp hpure
    exact List.forall_mem_singleton.mpr (.fresh (ArrayView.fresh_of_create hview))
  | importValue value =>
    obtain ⟨view, _, hview, hpure⟩ := change_bind_eq_ok.mp h
    obtain ⟨rfl, -⟩ := change_pure_eq_ok.mp hpure
    exact List.forall_mem_singleton.mpr (.fresh (ArrayView.fresh_of_ofValue hview))
  | importAs value elemType shape =>
    obtain ⟨view, _, hview, hpure⟩ := change_bind_eq_ok.mp h
    obtain ⟨rfl, -⟩ := change_pure_eq_ok.mp hpure
    exact List.forall_mem_singleton.mpr (.fresh (ArrayView.fresh_of_ofValueAs hview))
  -- arrays of arrays
  | derive view step =>
    obtain ⟨derived, _, hlift, hpure⟩ := change_bind_eq_ok.mp h
    obtain ⟨hderived, -⟩ := change_lift_eq_ok.mp hlift
    obtain ⟨rfl, -⟩ := change_pure_eq_ok.mp hpure
    exact List.forall_mem_singleton.mpr (.derived view step List.mem_cons_self hderived)
  | rename view name =>
    obtain ⟨rfl, -⟩ := change_pure_eq_ok.mp h
    exact List.forall_mem_singleton.mpr (.renamed view List.mem_cons_self rfl)
  | concatenate view operands =>
    obtain ⟨joined, _, hjoined, hpure⟩ := change_bind_eq_ok.mp h
    obtain ⟨rfl, -⟩ := change_pure_eq_ok.mp hpure
    exact List.forall_mem_singleton.mpr (.fresh (ArrayView.fresh_of_concatenate hjoined))
  -- writes
  | set view coordinate value =>
    obtain ⟨_, _, -, hpure⟩ := change_bind_eq_ok.mp h
    obtain ⟨rfl, -⟩ := change_pure_eq_ok.mp hpure
    exact hnone
  | assign view selection value =>
    obtain ⟨_, _, -, hpure⟩ := change_bind_eq_ok.mp h
    obtain ⟨rfl, -⟩ := change_pure_eq_ok.mp hpure
    exact hnone
  -- values
  | read view coordinate =>
    obtain ⟨_, _, -, hpure⟩ := change_bind_eq_ok.mp h
    obtain ⟨rfl, -⟩ := change_pure_eq_ok.mp hpure
    exact hnone
  | lower view settings =>
    obtain ⟨⟨value, lowered⟩, _, hlower, hpure⟩ := change_bind_eq_ok.mp h
    obtain ⟨rfl, -⟩ := change_pure_eq_ok.mp hpure
    exact List.forall_mem_singleton.mpr (.lowered view settings value _ (.lower settings) hlower)
  | driveOutput view port =>
    have hmakes := makes_driveOutput view port workspace
    obtain ⟨rfl, -⟩ := EStateM.Result.ok.inj h
    exact List.forall_mem_singleton.mpr hmakes

end Action

/-- **One step.** The arrays of a scene after a step are those of before and those that the action made. -/
theorem Scene.forall_arrays_step {scene : Scene} {action : Action} {P : ArrayView → Prop}
    (hold : ∀ view ∈ scene.arrays, P view)
    (hnew : ∀ view, action.Makes scene.workspace view → P view) : ∀ view ∈ (scene.step action).arrays, P view := by
  unfold step
  cases hrun : action.perform scene.workspace with
  | error failure workspace => exact hold
  | ok made workspace =>
    intro view hmem
    rcases List.mem_append.mp hmem with hmade | hmem
    · exact hnew view (Action.makes_of_perform hrun view hmade)
    · exact hold view hmem

end NetArray
