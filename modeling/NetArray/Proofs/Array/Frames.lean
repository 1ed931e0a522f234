import Mathlib
import NetArray.Proofs.Array.ActionParts

/-!
# Stores that are left alone

Nothing but a write changes what a store holds, and a write goes to the store of the array that it is made through.
So a store is as it was after every action that is not such a write, whatever its outcome
(`Scene.store_of_step`), and after a whole run without one (`Scene.store_of_sparing`).

Making arrays does even less. `Workspace.Adds` says that stores were added and nothing else happened; it is what
imports and joins do (`adds_toArray`, `adds_concatenate`).
-/

namespace NetArray

namespace Workspace

variable {workspace workspace' : Workspace}

/-- Stores were added, and nothing else happened. -/
structure Adds (workspace workspace' : Workspace) : Prop where
  builder : workspace'.builder = workspace.builder
  stores : ∀ {id store}, workspace.store id = .ok store → workspace'.store id = .ok store

/-- If there was a store of this id, it is as it was. -/
def Leaves (id : StoreId) (workspace workspace' : Workspace) : Prop :=
  ∀ store, workspace.store id = .ok store → workspace'.store id = .ok store

theorem Adds.trans {middle : Workspace} (h : workspace.Adds middle) (h' : middle.Adds workspace') :
    workspace.Adds workspace' :=
  ⟨h'.builder.trans h.builder, fun hstore => h'.stores (h.stores hstore)⟩

instance : Std.Refl Adds := ⟨fun _ => ⟨rfl, id⟩⟩

instance : IsTrans Workspace Adds := ⟨fun _ _ _ => Adds.trans⟩

instance (id : StoreId) : Std.Refl (Leaves id) := ⟨fun _ _ hstore => hstore⟩

instance (id : StoreId) : IsTrans Workspace (Leaves id) :=
  ⟨fun _ _ _ h h' _ hstore => h' _ (h _ hstore)⟩

end Workspace

namespace Session

variable {α : Type} {id : StoreId}

theorem adds_addStore (store : Store) : Keeps Workspace.Adds (Session.addStore store) :=
  fun _ => ⟨rfl, store_push_of_ok store⟩

theorem leaves_addStore (store : Store) : Keeps (Workspace.Leaves id) (Session.addStore store) :=
  fun _ _ hstore => store_push_of_ok store hstore

/-- What is built is not in a store. -/
theorem leaves_build (operation : Build α) : Keeps (Workspace.Leaves id) (Session.build operation) := by
  intro workspace store hstore
  rw [build_final]
  exact hstore

/-- An operation on another store. -/
theorem leaves_onStore {target : StoreId} (hne : target ≠ id) (operation : Change Store ArrayError α) :
    Keeps (Workspace.Leaves id) (Session.onStore target operation) := by
  intro workspace store hstore
  unfold onStore
  cases workspace.stores[target.index]? with
  | none => exact hstore
  | some held =>
    cases hrun : operation held <;>
    · simp only [hrun]
      exact (Workspace.store_replace_of_ne hne.symm).trans hstore

end Session

/-! ### Making arrays -/

theorem Operand.adds_toArray (operand : Operand) : Keeps Workspace.Adds operand.toArray := by
  cases operand with
  | array view => exact .pure _
  | value source => exact ArrayView.keeps_ofValue Session.adds_addStore source

theorem ArrayView.adds_operandViews (elemType : ElemType) (operands : List Operand) :
    Keeps Workspace.Adds (ArrayView.operandViews elemType operands) :=
  ArrayView.keeps_operandViews Session.adds_addStore _ _

theorem ArrayView.adds_concatenate (view : ArrayView) (operands : List Operand) :
    Keeps Workspace.Adds (view.concatenate operands) :=
  ArrayView.keeps_concatenate Session.adds_addStore _ _

/-! ### Actions and runs -/

/-- **Frames.** An action that does not write to a store leaves it as it was. -/
theorem Action.leaves_perform {action : Action} {id : StoreId} (hspares : action.target? ≠ some id) :
    Keeps (Workspace.Leaves id) action.perform :=
  Action.keeps_perform
    { call := fun _ => Session.leaves_build _
      materialize := fun _ => Session.leaves_build _
      build := fun _ _ _ => Session.leaves_build _
      drive := fun _ _ => Session.leaves_build _
      addStore := Session.leaves_addStore
      write := fun target htarget operation _ => by
        refine Session.leaves_onStore (fun heq => hspares ?_) operation
        rw [← heq]
        exact htarget }

namespace Scene

variable {scene later : Scene} {action : Action} {id : StoreId} {store : Store}

/-- Some actions lead from the one scene to the other, and none of them writes to the store. -/
def ReachesSparing (id : StoreId) (scene later : Scene) : Prop :=
  NetArray.Reaches (fun scene action => scene.Allows action ∧ action.target? ≠ some id) step scene later

/-- **One step.** -/
theorem store_of_step (hspares : action.target? ≠ some id) (hstore : scene.workspace.store id = .ok store) :
    (scene.step action).workspace.store id = .ok store := by
  have hleaves := Action.leaves_perform hspares scene.workspace store hstore
  unfold step
  cases hrun : action.perform scene.workspace <;>
  · rw [hrun] at hleaves
    exact hleaves

/-- **A whole run.** -/
theorem store_of_sparing (hrun : ReachesSparing id scene later)
    (hstore : scene.workspace.store id = .ok store) : later.workspace.store id = .ok store :=
  hrun.keeps (P := fun scene => scene.workspace.store id = .ok store)
    (fun hallows h => store_of_step hallows.2 h) hstore

end Scene

end NetArray
