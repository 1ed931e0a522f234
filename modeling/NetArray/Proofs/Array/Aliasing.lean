import Mathlib
import NetArray.Proofs.Array.WriteThrough

/-!
# Views do not alias

An offset of a view goes through a chain of maps before it is a slot of the store. Nothing checks on the way that
the offset is one of the parent, or that another offset does not end up at the same slot. Neither can happen: the
chain leads distinct offsets to distinct slots, all of them inside the store, and to every slot where nothing was
selected on the way (`Scene.distinct_slots`).

A write looks up the slots of several offsets at once before it writes to any of them. `ArrayView.Resolves` says
that this lookup answers, with slots that are in the store and no two of which are the same; it holds of the
offsets of every write (`ArrayView.Fits.resolves`).
-/

namespace NetArray

namespace ArrayView

/-- The offsets have slots in the store, each one of its own. -/
def Resolves (view : ArrayView) (store : Store) (offsets : List Nat) : Prop :=
  ∃ targets, view.storeOffsets offsets = .ok targets ∧ targets.Nodup ∧
    ∀ target ∈ targets, target < store.size

variable {view : ArrayView} {store : Store} {offsets : List Nat}

/-- Distinct offsets of a view resolve. -/
theorem Fits.resolves (h : view.Fits store) (hnodup : offsets.Nodup)
    (hlt : ∀ offset ∈ offsets, offset < view.shape.prod) : view.Resolves store offsets := by
  have hslot : ∀ offset ∈ offsets, ∃ target, view.storeOffset offset = .ok target ∧ target < store.size := by
    intro offset hoffset
    obtain ⟨target, htarget, hview⟩ := h.embeds.lands offset (hlt offset hoffset)
    exact ⟨target, hview, htarget⟩
  obtain ⟨targets, htargets⟩ := exists_forall₂ hslot
  have hfound : List.Forall₂ (fun offset target => view.storeOffset offset = .ok target) offsets targets :=
    htargets.imp fun _ _ hboth => hboth.1
  refine ⟨targets, mapM_eq_ok.mpr hfound, nodup_targets h hnodup hlt hfound, ?_⟩
  intro target htarget
  obtain ⟨offset, -, -, hsize⟩ := exists_of_forall₂_of_mem htargets htarget
  exact hsize

/-- The offset of a coordinate, and those that follow it as far as a value of single bits goes. -/
theorem Fits.resolves_range' (h : view.Fits store) {offset width : Nat}
    (hend : offset + width ≤ view.shape.prod) : view.Resolves store (List.range' offset width) := by
  refine h.resolves List.nodup_range' fun place hplace => ?_
  obtain ⟨-, hplace⟩ := List.mem_range'_1.mp hplace
  exact hplace.trans_le hend

/-- The offsets that a selection keeps. -/
theorem Fits.resolves_region (h : view.Fits store) {selection : List Selector} {kept : Region}
    (hkept : region view.shape selection = .ok kept) : view.Resolves store kept.offsets := by
  obtain ⟨hascend, hlt⟩ := region_offsets hkept
  exact h.resolves (hascend.imp Nat.ne_of_lt) hlt

end ArrayView

namespace Scene

variable {scene : Scene} {view : ArrayView}

/-- **No aliasing.** The chain of maps of an array leads each of its offsets to a slot of the store, no two of
them to the same one, and reaches every slot unless something was selected on the way. The slots that a write
goes to are therefore distinct: those of the offsets that follow a coordinate, and those of a selection. -/
theorem distinct_slots (hscene : scene.Reachable) (hview : view ∈ scene.arrays) :
    ∃ store, scene.workspace.store view.store = .ok store ∧
      (∀ {count}, view.count = .ok count → count = view.shape.prod) ∧
      (0 < view.shape.prod → view.count = .ok view.shape.prod) ∧
      (∀ offset < view.shape.prod, ∃ slot < store.size, view.storeOffset offset = .ok slot) ∧
      (∀ {a b}, a < view.shape.prod → b < view.shape.prod →
        view.storeOffset a = view.storeOffset b → a = b) ∧
      ((∀ table, OffsetMap.gather table ∉ view.maps) → ∀ slot < store.size,
        ∃ offset < view.shape.prod, view.storeOffset offset = .ok slot) ∧
      (∀ {coordinate offset}, linearize view.shape coordinate = .ok offset →
        view.Resolves store [offset] ∧ ∀ {width}, offset + width ≤ view.shape.prod →
          view.Resolves store (List.range' offset width)) ∧
      ∀ {selection kept}, region view.shape selection = .ok kept →
        view.Resolves store kept.offsets := by
  obtain ⟨store, hstore, hfits, hsound⟩ := (sound_of_reachable hscene).fits hview
  refine ⟨store, hstore, fun hcount => (eq_of_elementCount hcount).1, hfits.count_eq hsound.addressable,
    hfits.embeds.lands, hfits.embeds.inj, fun hmaps => hfits.embeds.onto (hfits.full hmaps),
    fun hoffset => ⟨?_, hfits.resolves_range'⟩, hfits.resolves_region⟩
  -- a single offset is one that nothing follows
  obtain ⟨hwithin, rfl⟩ := eq_of_linearize hoffset
  have hsingle : view.Resolves store (List.range' _ 1) :=
    hfits.resolves_range' (Nat.succ_le_of_lt (position_lt hwithin))
  exact hsingle

/-- The columns of the grid go through a permutation, which reaches every slot, and what the index 1 selects of
them has distinct slots. -/
theorem distinct_slots_gridColumns :
    (∀ slot < gridStore.size, ∃ offset < 4, gridColumns.storeOffset offset = .ok slot) ∧
      gridColumns.Resolves gridStore [2, 3] := by
  have hcolumns : gridColumns ∈ grid.arrays := by decide +kernel
  have hgrid : grid.workspace.store gridColumns.store = .ok gridStore := by decide +kernel
  obtain ⟨store, hstore, -, -, -, -, honto, -, hregion⟩ := distinct_slots grid_reachable hcolumns
  obtain rfl := Except.ok.inj (hgrid.symm.trans hstore)
  have hmaps : ∀ table, OffsetMap.gather table ∉ gridColumns.maps := fun table hmem => by
    cases List.mem_singleton.mp hmem
  have hkept : region gridColumns.shape [.index 1] = .ok ⟨[2], [2, 3]⟩ := by decide +kernel
  exact ⟨honto hmaps, hregion hkept⟩

end Scene

end NetArray
