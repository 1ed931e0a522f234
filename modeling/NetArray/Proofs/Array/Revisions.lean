import NetArray.Proofs.Array.Frames
import NetArray.Proofs.Array.RegionRoundTrip

/-!
# Revisions of a store

A store counts the writes that succeeded, and everything that an array knows about the age of what it has seen is
such a count. For a comparison of counts to mean anything, two things have to be true of every operation, whatever
its outcome: the count never goes down, and where it is the same the store is the same. `Store.Advances` is the two
together. It is closed under sequencing, so it holds of a write that is itself many writes, and of a whole run
(`Scene.advances_of_reaches`).

A write is moreover all or nothing (`Scene.allOrNothing_perform`): one that answers has moved the count, if there was an
element to write to, and one that fails has done nothing at all.
-/

namespace NetArray

/-- Running over a list keeps what each run keeps. -/
theorem Keeps.forM {σ ε α : Type} {R : σ → σ → Prop} [IsTrans σ R] [Std.Refl R] {items : List α}
    {f : α → Change σ ε PUnit} (h : ∀ item ∈ items, Keeps R (f item)) : Keeps R (items.forM f) := by
  induction items with
  | nil => exact .pure _
  | cons item items ih =>
    rw [List.forall_mem_cons] at h
    exact .bind h.1 fun _ => ih h.2

namespace Store

/-- The writes are only counted up, and a store of the same count is the same store. -/
structure Advances (store store' : Store) : Prop where
  revision_le : store.revision ≤ store'.revision
  same : store'.revision = store.revision → store' = store

variable {store store' : Store} {offset : Nat} {offsets : List Nat} {value : BitRange}

instance : Std.Refl Advances := ⟨fun _ => ⟨le_rfl, fun _ => rfl⟩⟩

instance : IsTrans Store Advances where
  trans store middle store' h h' := by
    refine ⟨h.revision_le.trans h'.revision_le, fun heq => ?_⟩
    have hmiddle : middle.revision = store.revision :=
      le_antisymm (h'.revision_le.trans_eq heq) h.revision_le
    rw [h'.same (heq.trans hmiddle.symm), h.same hmiddle]

@[simp] theorem putAll_revision {entries : List (Nat × Element)} :
    (store.putAll entries).revision = store.revision := by
  induction entries generalizing store with
  | nil => rfl
  | cons entry entries ih =>
    rw [putAll_cons, ih]
    rfl

@[simp] theorem counted_revision : store.counted.revision = store.revision + 1 := rfl

theorem advances_commit (entries : List (Nat × Element)) : Keeps Advances (commit entries) := by
  intro store
  rw [commit_run]
  show store.Advances (store.putAll entries).counted
  have hlt : store.revision < (store.putAll entries).counted.revision := by simp
  exact ⟨hlt.le, fun heq => absurd heq hlt.ne'⟩

theorem advances_set (offset : Nat) (value : BitRange) : Keeps Advances (set offset value) := by
  refine .bind .get fun store => ?_
  split
  · exact .bind (.lift _) fun _ => advances_commit _
  · refine .bind (.lift_checked _) fun _ => .guard fun _ => .bind (.lift_checked _) fun _ => ?_
    exact advances_commit _
  · exact .throw _

theorem advances_setRange (offsets : List Nat) (value : BitRange) :
    Keeps Advances (setRange offsets value) := by
  refine .bind .get fun store => .bind (.lift_checked _) fun _ => .guard fun _ => ?_
  refine .bind (.forM fun _ _ => .lift _) fun _ => .bind (.lift_checked _) fun _ => ?_
  exact advances_commit _

/-- **Writes.** Each of the three ways to write advances the store. -/
theorem IsWrite.advances {operation : Change Store ArrayError Unit} (h : IsWrite operation) :
    Keeps Advances operation := by
  cases h with
  | set offset value => exact advances_set offset value
  | setRange offsets value => exact advances_setRange offsets value
  | broadcast targets value => exact .forM fun target _ => advances_set target value

end Store

/-! ### Actions and runs -/

/-- If there was a store of this id, there is one now, which it has advanced to. -/
def Workspace.Advances (id : StoreId) (workspace workspace' : Workspace) : Prop :=
  ∀ store, workspace.store id = .ok store →
    ∃ store', workspace'.store id = .ok store' ∧ store.Advances store'

instance (id : StoreId) : Std.Refl (Workspace.Advances id) :=
  ⟨fun _ store hstore => ⟨store, hstore, Std.Refl.refl store⟩⟩

instance (id : StoreId) : IsTrans Workspace (Workspace.Advances id) where
  trans _ _ _ h h' store hstore := by
    obtain ⟨middle, hmiddle, hadvances⟩ := h store hstore
    obtain ⟨store', hstore', hadvances'⟩ := h' middle hmiddle
    exact ⟨store', hstore', IsTrans.trans _ _ _ hadvances hadvances'⟩

theorem Workspace.Leaves.advances {id : StoreId} {workspace workspace' : Workspace}
    (h : Workspace.Leaves id workspace workspace') : Workspace.Advances id workspace workspace' :=
  fun store hstore => ⟨store, h store hstore, Std.Refl.refl store⟩

namespace Session

variable {α : Type} {id : StoreId}

theorem advances_build (operation : Build α) :
    Keeps (Workspace.Advances id) (Session.build operation) :=
  fun workspace => (leaves_build operation workspace).advances

/-- What an operation leaves of a store takes its place, whether it answered or failed. -/
theorem onStore_final {operation : Change Store ArrayError α} {workspace : Workspace} {store : Store}
    (hstore : workspace.store id = .ok store) : finalState (onStore id operation workspace)
      = workspace.replace id (finalState (operation store)) := by
  simp only [onStore, Workspace.store_eq_ok.mp hstore]
  cases operation store <;> rfl

theorem advances_onStore {operation : Change Store ArrayError α} (h : Keeps Store.Advances operation)
    (target : StoreId) : Keeps (Workspace.Advances id) (Session.onStore target operation) := by
  intro workspace
  by_cases hid : target = id
  · subst hid
    intro store hstore
    rw [onStore_final hstore]
    exact ⟨_, Workspace.store_replace_self hstore, h store⟩
  · exact (leaves_onStore hid operation workspace).advances

end Session

/-- **Actions.** Whatever its outcome, an action only advances a store. -/
theorem Action.advances_perform (action : Action) (id : StoreId) :
    Keeps (Workspace.Advances id) action.perform :=
  Action.keeps_perform
    { call := fun _ => Session.advances_build _
      materialize := fun _ => Session.advances_build _
      build := fun _ _ _ => Session.advances_build _
      drive := fun _ _ => Session.advances_build _
      addStore := fun store workspace => (Session.leaves_addStore store workspace).advances
      write := fun target _ _ hwrite => Session.advances_onStore hwrite.advances target }

/-! ### All or nothing -/

/-- An operation that answered has done something; one that failed has done nothing. -/
def AllOrNothing {σ ε α : Type} (R : σ → σ → Prop) (s : σ) : EStateM.Result (Failure ε) σ α → Prop
  | .ok _ s' => R s s'
  | .error _ s' => s' = s

namespace AllOrNothing

variable {σ ε α β : Type} {R R' : σ → σ → Prop} {s : σ}

theorem mono {result : EStateM.Result (Failure ε) σ α} (h : AllOrNothing R s result)
    (hR : ∀ s', R s s' → R' s s') : AllOrNothing R' s result := by
  cases result with
  | ok a s' => exact hR s' h
  | error failure s' => exact h

theorem throw (e : Failure ε) : AllOrNothing R s ((throw e : Change σ ε α) s) := rfl

/-- A check that fails has done nothing. -/
theorem lift_bind {x : Attempt ε α} {f : α → Change σ ε β}
    (h : ∀ a, x = .ok a → AllOrNothing R s (f a s)) : AllOrNothing R s ((liftM x >>= f) s) := by
  cases x with
  | ok a => exact h a rfl
  | error failure => rfl

theorem lift_checked_bind {x : Checked α} {f : α → Change σ ε β}
    (h : ∀ a, x = .ok a → AllOrNothing R s (f a s)) : AllOrNothing R s ((liftM x >>= f) s) := by
  cases x with
  | ok a => exact h a rfl
  | error kind => rfl

theorem guard {c : Prop} [Decidable c] {e : Failure ε} {k : α → Change σ ε β} {y : Change σ ε β}
    (h : ¬c → AllOrNothing R s (y s)) :
    AllOrNothing R s ((if c then (MonadExcept.throw e : Change σ ε α) >>= k else y) s) := by
  by_cases hc : c
  · rw [if_pos hc]
    rfl
  · rw [if_neg hc]
    exact h hc

/-- An answer that is only given another form. -/
theorem bind_pure {x : Change σ ε α} (h : AllOrNothing R s (x s)) (b : β) :
    AllOrNothing R s ((x >>= fun _ => pure b) s) := by
  rw [change_bind]
  cases hx : x s with
  | ok a s' =>
    rw [hx] at h
    exact h
  | error failure s' =>
    rw [hx] at h
    exact h

/-- Several checks, one after the other. -/
theorem forM_bind {items : List α} {check : α → Attempt ε PUnit} {f : PUnit → Change σ ε β}
    (h : AllOrNothing R s (f ⟨⟩ s)) :
    AllOrNothing R s (((items.forM fun item => (liftM (check item) : Change σ ε PUnit)) >>= f) s) := by
  induction items with
  | nil => exact h
  | cons item items ih =>
    show AllOrNothing R s (((liftM (check item) >>= fun _ =>
      items.forM fun item => (liftM (check item) : Change σ ε PUnit)) >>= f) s)
    rw [bind_assoc]
    exact lift_bind fun _ _ => ih

end AllOrNothing

namespace Store

variable {store : Store}

theorem allOrNothing_commit (entries : List (Nat × Element)) :
    AllOrNothing (fun store store' => store.revision < store'.revision) store (commit entries store) := by
  rw [commit_run]
  show store.revision < (store.putAll entries).counted.revision
  simp

theorem allOrNothing_set (offset : Nat) (value : BitRange) :
    AllOrNothing (fun store store' => store.revision < store'.revision) store (set offset value store) := by
  rw [set, change_get_bind]
  cases WriteMode.classify value.width store.elemType with
  | whole => exact .lift_bind fun _ _ => allOrNothing_commit _
  | bitwise =>
    refine .lift_checked_bind fun _ _ => .guard fun _ => .lift_checked_bind fun _ _ => ?_
    exact allOrNothing_commit _
  | mismatch => exact .throw _

theorem allOrNothing_setRange (offsets : List Nat) (value : BitRange) :
    AllOrNothing (fun store store' => store.revision < store'.revision) store
      (setRange offsets value store) := by
  refine .lift_checked_bind (x := sized (offsets.length * store.elemType.width)) fun _ _ => .guard fun _ => ?_
  refine .forM_bind (.lift_checked_bind fun _ _ => ?_)
  exact allOrNothing_commit _

end Store

/-- A value that was written to some slots was written to the first of them. -/
theorem Store.revision_lt_of_broadcast {store store' : Store} {targets : List Nat} {value : BitRange}
    (hne : targets ≠ []) (hrun : ArrayView.broadcast targets value store = .ok () store') :
    store.revision < store'.revision := by
  obtain ⟨target, rest, rfl⟩ := List.exists_cons_of_ne_nil hne
  obtain ⟨u, middle, hfirst, hrest⟩ := change_bind_eq_ok.mp hrun
  change Store.set target value store = .ok u middle at hfirst
  have hlt : AllOrNothing (fun store store' => store.revision < store'.revision) store
      (Store.set target value store) := Store.allOrNothing_set target value
  rw [hfirst] at hlt
  have hadvances : middle.Advances store' := (Store.IsWrite.broadcast rest value).advances.ok hrest
  exact lt_of_lt_of_le hlt hadvances.revision_le

namespace Workspace

variable {workspace : Workspace} {id : StoreId} {store : Store}

/-- The store of this id has counted a write, or more. -/
def Moves (id : StoreId) (workspace workspace' : Workspace) : Prop :=
  ∃ store store', workspace.store id = .ok store ∧ workspace'.store id = .ok store' ∧
    store.revision < store'.revision

theorem replace_self (hstore : workspace.store id = .ok store) : workspace.replace id store = workspace := by
  have hslot := store_eq_ok.mp hstore
  unfold replace
  congr 1
  refine Array.ext_getElem? fun place => ?_
  rw [Array.getElem?_setIfInBounds]
  split
  · next heq =>
    subst heq
    rw [hslot, if_pos (Array.getElem?_eq_some_iff.mp hslot).1]
  · rfl

end Workspace

/-- An operation that does nothing to a store does nothing to the workspace. -/
theorem Session.allOrNothing_onStore {workspace : Workspace} {id : StoreId} {store : Store}
    {operation : Change Store ArrayError Unit} (hstore : workspace.store id = .ok store)
    (h : AllOrNothing (fun store store' => store.revision < store'.revision) store (operation store)) :
    AllOrNothing (Workspace.Moves id) workspace (Session.onStore id operation workspace) := by
  have hfinal : finalState (Session.onStore id operation workspace)
      = workspace.replace id (finalState (operation store)) := Session.onStore_final hstore
  cases hrun : Session.onStore id operation workspace with
  | ok u workspace' =>
    obtain ⟨held, store', hheld, hrunStore, rfl⟩ := Session.onStore_eq_ok.mp hrun
    obtain rfl := Except.ok.inj (hstore.symm.trans hheld)
    rw [hrunStore] at h
    exact ⟨store, store', hstore, Workspace.store_replace_self hstore, h⟩
  | error failure workspace' =>
    rw [hrun] at hfinal
    show workspace' = workspace
    rw [show workspace' = _ from hfinal]
    cases hrunStore : operation store with
    | ok u store' =>
      unfold Session.onStore at hrun
      rw [Workspace.store_eq_ok.mp hstore] at hrun
      simp only [hrunStore] at hrun
      cases hrun
    | error failure' store' =>
      rw [hrunStore] at h
      obtain rfl : store' = store := h
      exact Workspace.replace_self hstore

namespace ArrayView

variable {view : ArrayView} {store : Store} {workspace : Workspace}

/-- **Writing at a coordinate** is all or nothing. -/
theorem allOrNothing_set (hstore : workspace.store view.store = .ok store) (coordinate : List Nat)
    (value : BitRange) :
    AllOrNothing (Workspace.Moves view.store) workspace (view.set coordinate value workspace) := by
  refine .lift_bind fun offset _ => ?_
  cases WriteMode.classify value.width view.elemType with
  | whole =>
    refine .lift_checked_bind fun target _ => ?_
    exact Session.allOrNothing_onStore hstore (Store.allOrNothing_set target value)
  | bitwise =>
    refine .lift_checked_bind fun _ _ => .lift_checked_bind fun _ _ => .guard fun _ => ?_
    refine .lift_checked_bind fun targets _ => ?_
    exact Session.allOrNothing_onStore hstore (Store.allOrNothing_setRange targets value)
  | mismatch => exact .throw _

/-- The selection keeps an element, or more. -/
def Selects (view : ArrayView) (selection : List Selector) : Prop :=
  ∃ kept, region view.shape selection = .ok kept ∧ kept.offsets ≠ []

/-- **Writing to a selection** is all or nothing, if it is written to at all. A value for each of the elements is
written many times, but once the first write is through nothing refuses any more. -/
theorem allOrNothing_assign (h : view.Fits store) (hstore : workspace.store view.store = .ok store)
    (selection : List Selector) (value : BitRange) :
    AllOrNothing (fun before after => view.Selects selection → Workspace.Moves view.store before after) workspace
      (view.assign selection value workspace) := by
  refine .lift_bind fun kept hlift => .lift_checked_bind fun targets htargets =>
    .lift_checked_bind fun total htotal => ?_
  have hkept := lift_index_eq_ok.mp hlift
  by_cases hsplit : value.width = total
  · rw [if_pos hsplit]
    refine (Session.allOrNothing_onStore hstore (Store.allOrNothing_setRange targets value)).mono ?_
    exact fun _ hmoves _ => hmoves
  rw [if_neg hsplit]
  by_cases hwhole : value.width = view.elemType.width
  · rw [if_pos hwhole]
    rw [h.elemType] at hwhole
    obtain ⟨targets', htargets', -, hlt⟩ := h.resolves_region hkept
    obtain rfl := Except.ok.inj (htargets.symm.trans htargets')
    obtain ⟨store', hrun⟩ : ∃ store', broadcast targets value store = .ok .unit store' :=
      Store.exists_broadcast hwhole hlt
    have honStore : Session.onStore view.store (broadcast targets value) workspace
        = .ok () (workspace.replace view.store store') :=
      Session.onStore_eq_ok.mpr ⟨store, store', hstore, hrun, rfl⟩
    rw [honStore]
    rintro ⟨kept', hkept', hne⟩
    obtain rfl := Except.ok.inj (hkept.symm.trans hkept')
    have hlength : kept.offsets.length = targets.length := (mapM_eq_ok.mp htargets).length_eq
    have hne' : targets ≠ [] := by
      rw [← List.length_pos_iff, ← hlength, List.length_pos_iff]
      exact hne
    exact ⟨store, store', hstore, Workspace.store_replace_self hstore, Store.revision_lt_of_broadcast hne' hrun⟩
  · rw [if_neg hwhole]
    exact .throw _

end ArrayView

/-- The action is a write to an element, or more, of the store. -/
def Action.WritesTo (id : StoreId) : Action → Prop
  | .set view _ _ => view.store = id
  | .assign view selection _ => view.store = id ∧ view.Selects selection
  | _ => False

namespace Scene

variable {scene later : Scene} {action : Action} {id : StoreId} {store : Store}

/-- **Writes through arrays.** One that answers has moved the count of the store that it was made to, unless there was
nothing to write; one that fails has done nothing at all, be it refused or at fault. -/
theorem allOrNothing_perform (hscene : scene.Sound) (hallows : scene.Allows action)
    (htarget : action.target? = some id) :
    AllOrNothing (fun before after => action.WritesTo id → Workspace.Moves id before after) scene.workspace
      (action.perform scene.workspace) := by
  obtain ⟨-, -, harrays⟩ := hallows
  cases action with
  | set view coordinate value =>
    obtain rfl := Option.some.inj htarget
    obtain ⟨store, hstore, hfits, -⟩ := hscene.fits (harrays view List.mem_cons_self)
    refine .bind_pure ?_ _
    exact (view.allOrNothing_set hstore coordinate value).mono fun _ hmoves _ => hmoves
  | assign view selection value =>
    obtain rfl := Option.some.inj htarget
    obtain ⟨store, hstore, hfits, -⟩ := hscene.fits (harrays view List.mem_cons_self)
    refine .bind_pure ?_ _
    exact (view.allOrNothing_assign hfits hstore selection value).mono fun _ hmoves hwrites => hmoves hwrites.2
  | _ => cases htarget

/-- **A whole run** only advances a store. -/
theorem advances_of_reaches (hrun : scene.Reaches later) (hstore : scene.workspace.store id = .ok store) :
    ∃ store', later.workspace.store id = .ok store' ∧ store.Advances store' := by
  refine hrun.keeps (P := fun later => ∃ store', later.workspace.store id = .ok store' ∧ store.Advances store')
    (fun {middle action} _ hmiddle => ?_) ⟨store, hstore, Std.Refl.refl store⟩
  obtain ⟨held, hheld, hadvances⟩ := hmiddle
  obtain ⟨store', hstore', hadvances'⟩ := action.advances_perform id middle.workspace held hheld
  rw [step_workspace]
  exact ⟨store', hstore', IsTrans.trans _ _ _ hadvances hadvances'⟩

end Scene

end NetArray
