import NetArray.Array.Store

/-!
# Workspaces

A session works on one netlist and any number of element stores. Arrays refer to their store by number,
so that several of them can share one.

* `Workspace` is the netlist under construction with all stores, `Session` an operation on it.
* `Session.build` runs an operation of the netlist builder, `Session.onStore` one on a single store,
  `Session.addStore` adds a store.
-/

namespace NetArray

structure StoreId where
  index : Nat
  deriving DecidableEq, Repr

/-- What a session works on. -/
structure Workspace where
  builder : Builder
  stores : Array Store := #[]
  deriving DecidableEq, Repr

/-- The element store of an id that is known to name one. -/
def Workspace.store (workspace : Workspace) (id : StoreId) : Checked Store :=
  match workspace.stores[id.index]? with
  | some store => .ok store
  | none => .error .unknownId

/-- An operation on a workspace. -/
abbrev Session := Change Workspace ArrayError

namespace Session

/-- Runs an operation of the netlist builder. -/
def build {α : Type} (operation : Build α) : Session α := fun workspace =>
  match operation workspace.builder with
  | .ok a builder => .ok a { workspace with builder := builder }
  | .error failure builder => .error (failure.map .build) { workspace with builder := builder }

/-- Runs an operation on one store. -/
def onStore {α : Type} (id : StoreId) (operation : Change Store ArrayError α) : Session α :=
  fun workspace =>
    match workspace.stores[id.index]? with
    | none => .error (.fault .unknownId) workspace
    | some store =>
      match operation store with
      | .ok a store =>
        .ok a { workspace with stores := workspace.stores.setIfInBounds id.index store }
      -- what a failing operation wrote before it failed stays written
      | .error failure store =>
        .error failure { workspace with stores := workspace.stores.setIfInBounds id.index store }

def addStore (store : Store) : Session StoreId :=
  modifyGet fun workspace =>
    (⟨workspace.stores.size⟩, { workspace with stores := workspace.stores.push store })

end Session

end NetArray
