import Mathlib
import NetArray.Proofs.Array.EagerArray
import NetArray.Proofs.Array.Scenes

/-!
# Lazy views refine eager arrays

Deriving a view copies nothing: it puts one more map in front of a chain. An eager array does the same
transformation by building its list of elements anew. `Reads view store array` relates the two: same shape,
and what the view reads at an offset is the item of the array at that offset.

Every transformation keeps the relation (`Reads.transform`). The four cases differ only in where the element at
an offset of the result comes from; the lazy map and the eager list are each known to agree with the same
formula. By induction on the chain the relation holds at the end of any number of transformations
(`Reads.transformAll`), and `get_eq_eager` reads it off at coordinates.
-/

namespace NetArray

/-! ### The reference -/

/-- The eager counterpart of a way to derive a view. -/
def Eager.transform {α : Type} (array : Eager α) : Transform → Eager α
  | .select selection => array.select selection
  | .transpose permutation => array.transpose permutation
  | .reshape shape => array.reshape shape
  | .roll amount none => array.rollFlat amount
  | .roll amount (some axis) => array.rollAxis axis amount

/-- One transformation after the other. -/
def Eager.transformAll {α : Type} (array : Eager α) (steps : List Transform) : Eager α :=
  steps.foldl transform array

/-- The eager array of the elements that a view reads, in row-major order. -/
def ArrayView.eager (view : ArrayView) (store : Store) : Checked (Eager (Option BitRange)) := do
  let elements ← (List.range view.shape.prod).mapM (view.element store)
  return ⟨view.shape, elements.map (Option.map Element.range)⟩

/-! ### The relation -/

/-- The view reads the items of the array. -/
structure Reads (view : ArrayView) (store : Store) (array : Eager (Option BitRange)) : Prop where
  shape : array.shape = view.shape
  /-- There are as many items as the shape asks for. -/
  length : array.items.length = view.shape.prod
  /-- The item at an offset is the element that the view reads there. -/
  items : ∀ offset < view.shape.prod, ∃ found, view.element store offset = .ok found ∧
    array.items[offset]? = some (found.map Element.range)

namespace Reads

variable {view derived : ArrayView} {store : Store} {array array' : Eager (Option BitRange)}
  {builder : Builder}

/-- A view reads the eager array that is made of its own elements. -/
theorem of_eager (h : view.Fits store) (hbuilder : builder.Sound) (hstore : store.Sound builder) :
    ∃ array, view.eager store = .ok array ∧ Reads view store array := by
  have hread : ∀ offset ∈ List.range view.shape.prod, ∃ found, view.element store offset = .ok found := by
    intro offset hoffset
    obtain ⟨slot, -, hslot⟩ := h.embeds.lands offset (List.mem_range.mp hoffset)
    obtain ⟨found, hfound, -⟩ := hstore.element hbuilder slot
    exact ⟨found, ArrayView.element_eq_ok.mpr ⟨slot, hslot, hfound⟩⟩
  obtain ⟨elements, helements⟩ := exists_forall₂ hread
  obtain ⟨hlength, hall⟩ := forall₂_range helements
  refine ⟨⟨view.shape, elements.map (Option.map Element.range)⟩, ?_, rfl, ?_, fun offset hoffset => ?_⟩
  · exact bind_eq_ok.mpr ⟨elements, mapM_eq_ok.mpr helements, rfl⟩
  · rw [List.length_map, hlength]
  · obtain ⟨found, hget, hfound⟩ := hall offset hoffset
    exact ⟨found, hfound, by rw [List.getElem?_map, hget]; rfl⟩

/-- One more map in front of the chain: it has to lead to the offsets where the items of the new array
come from. -/
theorem derive (h : Reads view store array) {map : OffsetMap} {shape : List Nat}
    (hshape : array'.shape = shape) (hlength : array'.items.length = shape.prod)
    (hitems : ∀ offset < shape.prod, ∃ source < view.shape.prod, map.apply offset = .ok source ∧
      array'.items[offset]? = array.items[source]?) :
    Reads (view.derive shape map) store array' where
  shape := hshape
  length := hlength
  items offset hoffset := by
    obtain ⟨source, hsource, happly, hitem⟩ := hitems offset hoffset
    obtain ⟨found, hfound, hget⟩ := h.items source hsource
    obtain ⟨slot, hslot, helement⟩ := ArrayView.element_eq_ok.mp hfound
    refine ⟨found, ArrayView.element_eq_ok.mpr ⟨slot, ?_, helement⟩, hitem.trans hget⟩
    rw [ArrayView.storeOffset_derive, bind_eq_ok]
    exact ⟨source, happly, hslot⟩

/-- A map that moves the elements of a view within its shape. -/
private theorem rearrange (h : Reads view store array) {map : OffsetMap} {source : Nat → Nat}
    (hmap : Rearranges map view.shape.prod source) (hshape : array'.shape = view.shape)
    (hlength : array'.items.length = view.shape.prod)
    (hitems : ∀ offset < view.shape.prod, array'.items[offset]? = array.items[source offset]?) :
    Reads (view.derive view.shape map) store array' := by
  refine h.derive hshape hlength fun offset hoffset => ?_
  obtain ⟨target, htarget, happly⟩ := hmap.embeds.lands offset hoffset
  obtain rfl := Except.ok.inj ((hmap.apply offset hoffset).symm.trans happly)
  exact ⟨_, htarget, hmap.apply offset hoffset, hitems offset hoffset⟩

/-- **One transformation.** A view that is derived reads the array that is rebuilt. -/
theorem transform (h : Reads view store array) (hsize : view.shape.prod < signedBound)
    {step : Transform} (hstep : view.transform step = .ok derived) :
    Reads derived store (array.transform step) := by
  have hlength : array.items.length = array.shape.prod := by rw [h.shape, h.length]
  cases step with
  | select selection =>
    obtain ⟨kept, hkept, rfl⟩ := ArrayView.eq_of_select (lift_index_eq_ok.mp hstep)
    obtain ⟨-, hlt⟩ := region_offsets hkept
    have hcount := (region_eq_ok hkept).2.2
    rw [← h.shape] at hkept
    obtain ⟨hshape, hlength', hitems⟩ := Eager.select_items hkept hlength
    -- without an axis there is one element, and the view has an axis of length one for it
    have hprod : (if kept.shape.isEmpty then [1] else kept.shape).prod = kept.shape.prod := by
      cases kept.shape <;> rfl
    refine h.derive hshape (by rw [hprod]; exact hlength') fun offset hoffset => ?_
    rw [hprod, ← hcount] at hoffset
    refine ⟨kept.offsets[offset], hlt _ (List.getElem_mem hoffset), gather_apply hoffset, ?_⟩
    rw [Eager.transform, hitems, List.getElem?_eq_getElem hoffset, Option.bind_some]
  | transpose permutation =>
    obtain ⟨hperm, rfl⟩ := ArrayView.eq_of_transpose (lift_shape_eq_ok.mp hstep)
    have hprod := prod_permuted hperm
    have hbound : view.shape.prod < sizeBound := hsize.trans signedBound_lt_sizeBound
    rw [← h.shape] at hperm hprod hbound ⊢
    obtain ⟨hlength', hitems⟩ := Eager.transpose_items hperm hlength
    refine h.derive rfl hlength' fun offset hoffset => ?_
    -- an offset of the result is a coordinate of the array with its axes put back
    have hpos : 0 < (permuted permutation array.shape).prod := Nat.zero_lt_of_lt hoffset
    have hwithin := within_scatter hperm (within_digits hpos offset)
    rw [hprod] at hoffset
    refine ⟨_, ?_, permute_apply hperm hbound hoffset, hitems offset hoffset⟩
    rw [← h.shape]
    exact position_lt hwithin
  | reshape shape =>
    -- the offsets stay the same, whatever the axes are now
    obtain ⟨hprod, rfl⟩ := ArrayView.eq_of_reshape (lift_shape_eq_ok.mp hstep)
    refine h.derive rfl (h.length.trans hprod) fun offset hoffset => ⟨offset, ?_, rfl, rfl⟩
    rwa [hprod]
  | roll amount axis =>
    obtain ⟨map, rfl, hmap⟩ := ArrayView.eq_of_roll (lift_index_eq_ok.mp hstep)
    cases axis with
    | none =>
      -- in row-major order there are as many places as items
      have hrearranges := rollMap_eq_ok hsize hmap
      rw [← h.length] at hrearranges
      obtain ⟨hlength', hitems⟩ : (array.rollFlat amount).items.length = array.items.length ∧ _ :=
        Eager.rollFlat_items amount
      refine h.rearrange (by rwa [← h.length]) h.shape (hlength'.trans h.length) fun offset hoffset => ?_
      rw [← h.length] at hoffset
      exact hitems offset hoffset
    | some axis =>
      obtain ⟨size, haxis, hrearranges⟩ := rollAxisMap_eq_ok hsize hmap
      rw [← h.shape] at haxis hrearranges
      obtain ⟨hlength', hitems⟩ := Eager.rollAxis_items amount haxis hlength
      have hsame : (array.rollAxis axis amount).items.length = view.shape.prod := by
        rw [← h.shape]
        exact hlength'
      refine h.rearrange (by rwa [← h.shape]) h.shape hsame fun offset hoffset => ?_
      rw [← h.shape] at hoffset
      exact hitems offset hoffset

/-- **A chain of transformations**, of any length and in any order. -/
theorem transformAll (h : Reads view store array) (hfits : view.Fits store)
    (hsize : store.size * 24 < signedBound) {steps : List Transform}
    (hsteps : view.transformAll steps = .ok derived) :
    Reads derived store (array.transformAll steps) ∧ derived.store = view.store := by
  induction steps generalizing view array with
  | nil =>
    cases hsteps
    exact ⟨h, rfl⟩
  | cons step steps ih =>
    obtain ⟨middle, hstep, hrest⟩ := ArrayView.transformAll_cons.mp hsteps
    -- the view in the middle fits the same store, so its offsets are machine numbers too
    have hshape := hfits.shape_lt hsize
    obtain ⟨hreads, hstore⟩ := ih (h.transform hshape hstep) (hfits.transform hshape hstep) hrest
    exact ⟨hreads, hstore.trans (ArrayView.store_of_transform hstep)⟩

/-- At a coordinate of the view there is the element at this coordinate of the array. -/
theorem get_eq (h : Reads view store array) (hsize : view.shape.prod < signedBound)
    {coordinate : List Nat} (hwithin : Within view.shape coordinate) :
    ∃ item, array.at? coordinate = some item ∧ view.get store coordinate = .ok item := by
  have hoffset := position_lt hwithin
  obtain ⟨found, hfound, hitem⟩ := h.items _ hoffset
  refine ⟨found.map Element.range, ?_, ?_⟩
  · rw [← h.shape] at hwithin hitem
    exact (Eager.at?_eq hwithin).trans hitem
  · have hlinear := linearize_eq hwithin (hsize.trans signedBound_lt_sizeBound)
    rw [ArrayView.get, bind_eq_ok]
    exact ⟨_, hlinear, bind_eq_ok.mpr ⟨found, lift_checked_eq_ok.mpr hfound, rfl⟩⟩

end Reads

namespace Scene

variable {scene : Scene} {view derived : ArrayView} {store : Store} {steps : List Transform}

/-- **Lazy views refine eager arrays.** Take an array that somebody made, and read its elements into an eager
array. However the array is transformed, the view and the eager result have the same shape, and at each of
its coordinates the same element, or both none. -/
theorem get_eq_eager (hscene : scene.Reachable) (hview : view ∈ scene.arrays)
    (hstore : scene.workspace.store view.store = .ok store)
    (hsteps : view.transformAll steps = .ok derived) :
    ∃ array, view.eager store = .ok array ∧ derived.store = view.store ∧
      derived.shape = (array.transformAll steps).shape ∧
      ∀ {coordinate}, Within derived.shape coordinate → ∃ item,
        (array.transformAll steps).at? coordinate = some item ∧
          derived.get store coordinate = .ok item := by
  have hsound := sound_of_reachable hscene
  obtain ⟨store', hstore', hfits, hstoreSound⟩ := hsound.fits hview
  obtain rfl := Except.ok.inj (hstore.symm.trans hstore')
  obtain ⟨array, harray, hreads⟩ := Reads.of_eager hfits hsound.workspace.builder hstoreSound
  have hsize := hstoreSound.addressable
  obtain ⟨hderived, hsame⟩ := hreads.transformAll hfits hsize hsteps
  refine ⟨array, harray, hsame, hderived.shape.symm, fun {coordinate} hwithin => ?_⟩
  have hderivedFits := hfits.transformAll hsize hsteps
  exact hderived.get_eq (hderivedFits.shape_lt hsize) hwithin

/-- A chain of all four transformations. -/
def gridSteps : List Transform :=
  [.roll (-1) none, .transpose [1, 0], .select [.index 1], .reshape [2, 1]]

/-- The last element that is left of the grid at the end of the chain. -/
theorem get_eq_eager_gridSteps : ∃ derived array item, gridRows.transformAll gridSteps = .ok derived ∧
    gridRows.eager gridStore = .ok array ∧ (array.transformAll gridSteps).at? [1, 0] = some item ∧
      derived.get gridStore [1, 0] = .ok item := by
  have hview : gridRows ∈ grid.arrays := by decide +kernel
  have hstore : grid.workspace.store gridRows.store = .ok gridStore := by decide +kernel
  have hsteps : gridRows.transformAll gridSteps = .ok { gridRows with
    shape := [2, 1]
    maps := [.gather #[2, 3], .permute [2, 2] [2, 2] [1, 0], .roll 4 3] } := by decide +kernel
  obtain ⟨array, harray, -, -, hget⟩ := get_eq_eager grid_reachable hview hstore hsteps
  have hwithin : Within [2, 1] [1, 0] := .cons (by decide) (.cons (by decide) .nil)
  obtain ⟨item, hitem, hread⟩ := hget hwithin
  exact ⟨_, array, item, hsteps, harray, hitem, hread⟩

end Scene

end NetArray
