import Mathlib
import NetArray.Proofs.Array.Stores
import NetArray.Array.Workspace

/-!
# Workspaces

An operation of a session works on the netlist, on one store, or adds a store. `Workspace.Extends` says what
none of them ever does: the netlist only grows, no store is lost, and none changes the number or the type of
its elements. `Workspace.Sound` is the invariant that goes with it, and `Extends` keeps it.

* `extends_build`, `extends_onStore` and `extends_push` — the three kinds of operation, whatever their outcome;
* `build_eq_ok`, `onStore_eq_ok` and `store_replace_self` — what they have done when they answered.
-/

namespace NetArray

namespace Workspace

/-- Every element of every store lies within a value of the netlist. -/
structure Sound (workspace : Workspace) : Prop where
  builder : workspace.builder.Sound
  stores : ∀ {id store}, workspace.store id = .ok store → store.Sound workspace.builder

/-- What an operation may do to a workspace. -/
structure Extends (workspace workspace' : Workspace) : Prop where
  /-- The netlist grows. -/
  builder : workspace.builder.Grows workspace'.builder
  /-- Stores stay, with as many elements of the same type. -/
  stores : ∀ {id store}, workspace.store id = .ok store → ∃ store',
    workspace'.store id = .ok store' ∧ store'.size = store.size ∧ store'.elemType = store.elemType
  /-- The workspace stays sound. -/
  sound : workspace.Sound → workspace'.Sound
  /-- Every new signal of the netlist is a port or has bits. -/
  grounded : workspace.Sound → workspace.builder.Grounded → workspace'.builder.Grounded

variable {workspace workspace' workspace'' : Workspace} {id : StoreId} {store : Store}

theorem Extends.refl (workspace : Workspace) : workspace.Extends workspace :=
  ⟨.refl _, fun h => ⟨_, h, rfl, rfl⟩, fun h => h, fun _ h => h⟩

theorem Extends.trans (h : workspace.Extends workspace') (h' : workspace'.Extends workspace'') :
    workspace.Extends workspace'' where
  builder := h.builder.trans h'.builder
  stores hid := by
    obtain ⟨store', hstore', hsize, htype⟩ := h.stores hid
    obtain ⟨store'', hstore'', hsize', htype'⟩ := h'.stores hstore'
    exact ⟨store'', hstore'', hsize'.trans hsize, htype'.trans htype⟩
  sound hsound := h'.sound (h.sound hsound)
  grounded hsound hgrounded := h'.grounded (h.sound hsound) (h.grounded hsound hgrounded)

theorem store_eq_ok : workspace.store id = .ok store ↔ workspace.stores[id.index]? = some store := by
  unfold Workspace.store
  split <;> simp [*]

/-- A workspace with another store in the place of one. -/
def replace (workspace : Workspace) (id : StoreId) (store : Store) : Workspace :=
  { workspace with stores := workspace.stores.setIfInBounds id.index store }

theorem store_replace_self {old : Store} (hold : workspace.store id = .ok old) :
    (workspace.replace id store).store id = .ok store := by
  obtain ⟨hlt, -⟩ := Array.getElem?_eq_some_iff.mp (store_eq_ok.mp hold)
  rw [store_eq_ok, replace, Array.getElem?_setIfInBounds, if_pos rfl, if_pos hlt]

theorem store_replace_of_ne {other : StoreId} (hne : other ≠ id) :
    (workspace.replace id store).store other = workspace.store other := by
  have hindex : id.index ≠ other.index := fun heq => hne (by cases id; cases other; cases heq; rfl)
  unfold Workspace.store replace
  rw [Array.getElem?_setIfInBounds, if_neg hindex]

/-- Exchanging a store for what a write left of it. -/
theorem extends_replace {old : Store} (hold : workspace.store id = .ok old)
    (h : Store.Extends workspace.builder old store) : workspace.Extends (workspace.replace id store) where
  builder := .refl _
  stores {id' store'} hstore' := by
    -- another store is not touched
    by_cases heq : id' = id
    · subst heq
      obtain rfl := Except.ok.inj (hold.symm.trans hstore')
      exact ⟨store, store_replace_self hold, h.size, h.elemType⟩
    · exact ⟨store', by rwa [store_replace_of_ne heq], rfl, rfl⟩
  sound hsound := by
    refine ⟨hsound.builder, fun {id' store'} hstore' => ?_⟩
    by_cases heq : id' = id
    · subst heq
      rw [store_replace_self hold] at hstore'
      cases hstore'
      exact h.sound (hsound.stores hold)
    · rw [store_replace_of_ne heq] at hstore'
      exact hsound.stores hstore'
  grounded _ hgrounded := hgrounded

/-- A workspace with a larger netlist. -/
theorem Sound.grows (h : workspace.Sound) {builder : Builder} (hgrows : workspace.builder.Grows builder) :
    Sound { workspace with builder := builder } :=
  ⟨hgrows.sound h.builder, fun hid => (h.stores hid).mono hgrows⟩

theorem extends_builder {builder : Builder} (hgrows : workspace.builder.Grows builder)
    (hgrounded : workspace.Sound → workspace.builder.Grounded → builder.Grounded) :
    workspace.Extends { workspace with builder := builder } where
  builder := hgrows
  stores hid := ⟨_, hid, rfl, rfl⟩
  sound hsound := hsound.grows hgrows
  grounded := hgrounded

end Workspace

namespace Session

open Workspace

variable {α : Type} {workspace workspace' : Workspace} {id : StoreId} {a : α}

/-! ### Operations on the netlist -/

theorem build_eq_ok {operation : Build α} :
    Session.build operation workspace = .ok a workspace' ↔ ∃ builder,
      operation workspace.builder = .ok a builder ∧
        workspace' = { workspace with builder := builder } := by
  unfold Session.build
  cases operation workspace.builder with
  | error failure builder => exact ⟨fun h => (nomatch h), fun ⟨_, h, _⟩ => (nomatch h)⟩
  | ok result builder =>
    constructor
    · intro h
      cases h
      exact ⟨builder, rfl, rfl⟩
    · rintro ⟨_, h, rfl⟩
      cases h
      rfl

theorem build_final (operation : Build α) (workspace : Workspace) :
    finalState (Session.build operation workspace)
      = { workspace with builder := finalState (operation workspace.builder) } := by
  unfold Session.build
  cases operation workspace.builder <;> rfl

theorem extends_build {operation : Build α} (h : Keeps Builder.Grows operation)
    (hgrounded : workspace.Sound → workspace.builder.Grounded → (finalState (operation workspace.builder)).Grounded) :
    workspace.Extends (finalState (Session.build operation workspace)) := by
  rw [build_final]
  exact extends_builder (h workspace.builder) hgrounded

/-! ### Operations on a store -/

theorem onStore_eq_ok {operation : Change Store ArrayError α} :
    onStore id operation workspace = .ok a workspace' ↔ ∃ store store',
      workspace.store id = .ok store ∧ operation store = .ok a store' ∧
        workspace' = workspace.replace id store' := by
  unfold onStore
  cases hstore : workspace.stores[id.index]? with
  | none =>
    refine ⟨fun h => (nomatch h), fun ⟨_, _, h, _⟩ => ?_⟩
    rw [store_eq_ok, hstore] at h
    cases h
  | some store =>
    have hid : workspace.store id = .ok store := store_eq_ok.mpr hstore
    constructor
    · intro h
      refine ⟨store, ?_⟩
      cases hrun : operation store with
      | ok result store' =>
        simp only [hrun] at h
        cases h
        exact ⟨store', hid, rfl, rfl⟩
      | error failure store' =>
        simp only [hrun] at h
        cases h
    · rintro ⟨_, store', h, hrun, rfl⟩
      obtain rfl := Except.ok.inj (hid.symm.trans h)
      simp only [hrun]
      rfl

theorem extends_onStore {operation : Change Store ArrayError α}
    (h : ∀ store, Store.Extends workspace.builder store (finalState (operation store))) :
    workspace.Extends (finalState (onStore id operation workspace)) := by
  unfold onStore
  cases hstore : workspace.stores[id.index]? with
  | none => exact .refl _
  | some store =>
    -- what the operation left of the store counts, whether it answered or failed
    have hextends := extends_replace (store_eq_ok.mpr hstore) (h store)
    cases hrun : operation store with
    | ok result store' =>
      rw [hrun] at hextends
      simp only [hrun]
      exact hextends
    | error failure store' =>
      rw [hrun] at hextends
      simp only [hrun]
      exact hextends

/-! ### Adding a store -/

theorem store_push_self (store : Store) (workspace : Workspace) :
    Workspace.store { workspace with stores := workspace.stores.push store } ⟨workspace.stores.size⟩
      = .ok store :=
  store_eq_ok.mpr Array.getElem?_push_size

/-- The stores that were there are still there. -/
theorem store_push_of_ok {held : Store} (store : Store) (hid : workspace.store id = .ok held) :
    Workspace.store { workspace with stores := workspace.stores.push store } id = .ok held := by
  obtain ⟨hlt, hget⟩ := Array.getElem?_eq_some_iff.mp (store_eq_ok.mp hid)
  rw [store_eq_ok]
  change (workspace.stores.push store)[id.index]? = _
  rw [Array.getElem?_push_lt hlt, hget]

theorem extends_push {store : Store} (h : workspace.Sound → store.Sound workspace.builder) :
    workspace.Extends { workspace with stores := workspace.stores.push store } where
  builder := .refl _
  stores {id' store'} hid := ⟨store', store_push_of_ok store hid, rfl, rfl⟩
  sound hsound := by
    refine ⟨hsound.builder, fun {id' store'} hid => ?_⟩
    rw [store_eq_ok] at hid
    change (workspace.stores.push store)[id'.index]? = _ at hid
    rw [Array.getElem?_push] at hid
    -- it is the new store or an old one
    split at hid
    · cases hid
      exact h hsound
    · exact hsound.stores (store_eq_ok.mpr hid)
  grounded _ hgrounded := hgrounded

end Session

end NetArray
