import Mathlib
import NetArray.Proofs.Index.Coordinates
import NetArray.Index.OffsetMap

/-!
# What offset maps do to offsets

A view reads the element at an offset from wherever its offset maps send that offset. Two facts about
these maps carry everything that is said about views:

* each map is computed without a fault, and its value is a plain formula on row-major positions
  (`permute_apply`, `unshift_eq`, `rollAxis_apply`, `gather_apply`);
* each map sends distinct offsets to distinct offsets inside the parent (`Embeds`), and so does a chain of
  them (`Embeds.comp`).

The second is proved through `Embeds.of_back`: a map that can be undone sends no two offsets to one. The
machine-sized sums in a roll fit because no view has `signedBound` elements, half of what a count can hold.
-/

namespace NetArray

/-- The function sends distinct offsets below `size` to distinct offsets below `parentSize`. -/
structure Embeds (f : Nat → Checked Nat) (size parentSize : Nat) : Prop where
  /-- Every offset has an image, inside the parent. -/
  lands : ∀ offset < size, ∃ target < parentSize, f offset = .ok target
  /-- No two offsets have the same image. -/
  inj : ∀ {a b}, a < size → b < size → f a = f b → a = b

namespace Embeds

variable {f g : Nat → Checked Nat} {size parentSize storeSize : Nat}

/-- A function that can be undone sends no two offsets to one. -/
theorem of_back (back : Nat → Nat)
    (h : ∀ offset < size, ∃ target < parentSize, f offset = .ok target ∧ back target = offset) :
    Embeds f size parentSize where
  lands offset hoffset := by
    obtain ⟨target, htarget, hf, -⟩ := h offset hoffset
    exact ⟨target, htarget, hf⟩
  inj := by
    intro a b ha hb heq
    obtain ⟨ta, -, hfa, hba⟩ := h a ha
    obtain ⟨tb, -, hfb, hbb⟩ := h b hb
    rw [hfa, hfb, Except.ok.injEq] at heq
    rw [← hba, ← hbb, heq]

/-- Where there is no offset, any function will do. -/
theorem of_empty (f : Nat → Checked Nat) (parentSize : Nat) : Embeds f 0 parentSize :=
  ⟨fun _ h => absurd h (Nat.not_lt_zero _), fun h => absurd h (Nat.not_lt_zero _)⟩

theorem id (size : Nat) : Embeds .ok size size :=
  of_back (fun target => target) fun offset h => ⟨offset, h, rfl, rfl⟩

/-- One function after the other. -/
theorem comp (hf : Embeds f size parentSize) (hg : Embeds g parentSize storeSize) :
    Embeds (fun offset => f offset >>= g) size storeSize where
  lands offset hoffset := by
    obtain ⟨middle, hmiddle, hfo⟩ := hf.lands offset hoffset
    obtain ⟨target, htarget, hgo⟩ := hg.lands middle hmiddle
    exact ⟨target, htarget, bind_eq_ok.mpr ⟨middle, hfo, hgo⟩⟩
  inj := by
    intro a b ha hb heq
    obtain ⟨ma, hma, hfa⟩ := hf.lands a ha
    obtain ⟨mb, hmb, hfb⟩ := hf.lands b hb
    simp only [hfa, hfb] at heq
    have hmiddle : ma = mb := hg.inj hma hmb heq
    exact hf.inj ha hb (by rw [hfa, hfb, hmiddle])

/-- The images as a function that is injective on the offsets. -/
theorem exists_injOn (h : Embeds f size parentSize) :
    ∃ target : Nat → Nat, (∀ offset < size, f offset = .ok (target offset)) ∧
      (∀ offset ∈ Finset.range size, target offset ∈ Finset.range parentSize) ∧
      Set.InjOn target (Finset.range size) := by
  choose! target htarget hf using h.lands
  refine ⟨target, hf, fun offset hoffset => ?_, fun a ha b hb heq => ?_⟩
  · exact Finset.mem_range.mpr (htarget offset (Finset.mem_range.mp hoffset))
  · rw [Finset.mem_coe, Finset.mem_range] at ha hb
    exact h.inj ha hb (by rw [hf a ha, hf b hb, heq])

/-- There are at least as many offsets in the parent. -/
theorem le (h : Embeds f size parentSize) : size ≤ parentSize := by
  -- an injection of the numbers below the one bound into those below the other
  obtain ⟨target, -, hmaps, hinj⟩ := h.exists_injOn
  simpa using Finset.card_le_card_of_injOn target hmaps hinj

/-- Where the parent has no more offsets, each of them is an image. -/
theorem onto (h : Embeds f size parentSize) (hsize : size = parentSize) :
    ∀ target < parentSize, ∃ offset < size, f offset = .ok target := by
  obtain ⟨image, hf, hmaps, hinj⟩ := h.exists_injOn
  -- the images are as many as the offsets of the parent, so they are all of them
  have hcard : ((Finset.range size).image image).card = size := by
    rw [Finset.card_image_of_injOn hinj, Finset.card_range]
  have hall : (Finset.range size).image image = Finset.range parentSize := by
    refine Finset.eq_of_subset_of_card_le (Finset.image_subset_iff.mpr hmaps) ?_
    rw [hcard, Finset.card_range, hsize]
  intro target htarget
  have hmem : target ∈ (Finset.range size).image image := by
    rw [hall]
    exact Finset.mem_range.mpr htarget
  obtain ⟨offset, hoffset, rfl⟩ := Finset.mem_image.mp hmem
  exact ⟨offset, Finset.mem_range.mp hoffset, hf offset (Finset.mem_range.mp hoffset)⟩

end Embeds

/-! ### Axis permutations -/

/-- The entries of a list in the order in which a permutation names them. -/
def permuted (permutation entries : List Nat) : List Nat :=
  permutation.map fun axis => entries.getD axis 0

section Permute

variable {permutation entries shape coordinate : List Nat}

/-- The permutations of the first numbers name each of them once. -/
theorem perm_range_iff {rank : Nat} : permutation.Perm (List.range rank) ↔
    permutation.length = rank ∧ (∀ axis ∈ permutation, axis < rank) ∧ permutation.Nodup := by
  constructor
  · intro h
    exact ⟨by simpa using h.length_eq, fun axis haxis => List.mem_range.mp (h.mem_iff.mp haxis),
      h.nodup_iff.mpr List.nodup_range⟩
  · rintro ⟨hlength, hlt, hnodup⟩
    have hsubset : permutation ⊆ List.range rank := fun axis haxis => List.mem_range.mpr (hlt axis haxis)
    exact (List.subperm_of_subset hnodup hsubset).perm_of_length_le
      (by rw [List.length_range, hlength])

theorem permuted_range (entries : List Nat) :
    permuted (List.range entries.length) entries = entries := by
  refine List.ext_getElem (by simp [permuted]) fun axis h h' => ?_
  simp only [permuted, List.getElem_map, List.getElem_range]
  exact List.getD_eq_getElem _ _ h'

theorem prod_permuted (h : permutation.Perm (List.range shape.length)) :
    (permuted permutation shape).prod = shape.prod := by
  conv_rhs => rw [← permuted_range shape]
  exact (h.map _).prod_eq

@[simp] theorem length_permuted : (permuted permutation entries).length = permutation.length :=
  List.length_map ..

@[simp] theorem length_scatter :
    (OffsetMap.scatter permutation coordinate).length = permutation.length := by
  simp [OffsetMap.scatter]

/-- Scattering a permuted coordinate gives the coordinate back. -/
theorem scatter_permuted (h : permutation.Perm (List.range coordinate.length)) :
    OffsetMap.scatter permutation (permuted permutation coordinate) = coordinate := by
  have hlength : permutation.length = coordinate.length := by simpa using h.length_eq
  refine List.ext_getElem (by simp [hlength]) fun axis haxis haxis' => ?_
  have hmem : axis ∈ permutation := h.mem_iff.mpr (List.mem_range.mpr haxis')
  have hidx : permutation.idxOf axis < permutation.length := List.idxOf_lt_length_iff.mpr hmem
  -- the index on an axis was put where the permutation names the axis
  simp only [OffsetMap.scatter, List.getElem_map, List.getElem_range]
  rw [List.getD_eq_getElem _ _ (by simpa using hidx)]
  simp only [permuted, List.getElem_map, List.getElem_idxOf]
  exact List.getD_eq_getElem _ _ haxis'

/-- Permuting a scattered coordinate gives the coordinate back. -/
theorem permuted_scatter (h : permutation.Perm (List.range coordinate.length)) :
    permuted permutation (OffsetMap.scatter permutation coordinate) = coordinate := by
  have hlength : permutation.length = coordinate.length := by simpa using h.length_eq
  have hnodup : permutation.Nodup := h.nodup_iff.mpr List.nodup_range
  refine List.ext_getElem (by simp [hlength]) fun place hplace hplace' => ?_
  have hlt : place < permutation.length := by omega
  have haxis : permutation[place] < permutation.length := by
    rw [hlength]
    exact List.mem_range.mp (h.mem_iff.mp (List.getElem_mem hlt))
  simp only [permuted, List.getElem_map]
  rw [List.getD_eq_getElem _ _ (by simpa using haxis)]
  simp only [OffsetMap.scatter, List.getElem_map, List.getElem_range, hnodup.idxOf_getElem]
  exact List.getD_eq_getElem _ _ hplace'

theorem within_scatter (h : permutation.Perm (List.range shape.length))
    (hwithin : Within (permuted permutation shape) coordinate) :
    Within shape (OffsetMap.scatter permutation coordinate) := by
  have hlength : permutation.length = shape.length := by simpa using h.length_eq
  have hcoordinate : coordinate.length = shape.length := by
    rw [hwithin.length_eq, length_permuted, hlength]
  refine within_iff_getElem.mpr ⟨by simp [hlength], fun axis haxis => ?_⟩
  have hmem : axis ∈ permutation := h.mem_iff.mpr (List.mem_range.mpr haxis)
  have hidx : permutation.idxOf axis < permutation.length := List.idxOf_lt_length_iff.mpr hmem
  have := (within_iff_getElem.mp hwithin).2 (permutation.idxOf axis) (by simpa using hidx)
  rw [List.getD_eq_getElem (permuted permutation shape) _ (by simpa using hidx)] at this
  rw [List.getD_eq_getElem _ _ (by simpa [hlength] using haxis)]
  simpa [OffsetMap.scatter, permuted] using this

/-- The parent offset of an offset of a permuted view. -/
theorem permute_apply (h : permutation.Perm (List.range shape.length))
    (hsize : shape.prod < sizeBound) {offset : Nat} (hoffset : offset < shape.prod) :
    (OffsetMap.permute (permuted permutation shape) shape permutation).apply offset
      = .ok (position shape
          (OffsetMap.scatter permutation (digits (permuted permutation shape) offset))) := by
  have hprod := prod_permuted h
  have hpos : 0 < (permuted permutation shape).prod := by omega
  have hwithin := within_scatter h (within_digits hpos offset)
  rw [OffsetMap.apply, delinearize_eq hpos]
  exact offsetOf_eq hwithin hsize

theorem permute_embeds (h : permutation.Perm (List.range shape.length))
    (hsize : shape.prod < sizeBound) :
    Embeds (OffsetMap.permute (permuted permutation shape) shape permutation).apply
      (permuted permutation shape).prod shape.prod := by
  have hprod := prod_permuted h
  -- undone by permuting the coordinate of the target
  refine .of_back (fun target => position (permuted permutation shape)
    (permuted permutation (digits shape target))) fun offset hoffset => ?_
  have hpos : 0 < (permuted permutation shape).prod := by omega
  have hdigits := within_digits hpos offset
  have hwithin := within_scatter h hdigits
  refine ⟨_, position_lt hwithin, permute_apply h hsize (by omega), ?_⟩
  have hlength : (digits (permuted permutation shape) offset).length = shape.length := by
    rw [hdigits.length_eq, length_permuted]
    simpa using h.length_eq
  simp only [digits_position hwithin]
  rw [permuted_scatter (by rwa [hlength]), position_digits hoffset]

end Permute

/-! ### Rolls -/

theorem signedBound_add_self : signedBound + signedBound = sizeBound := by decide

theorem unshift_eq {size shift index : Nat} (hsize : size ≤ signedBound) (hindex : index < size)
    (hshift : shift ≤ size) :
    OffsetMap.unshift size shift index = .ok ((index + size - shift) % size) := by
  have hfits : index + size < sizeBound := calc
    index + size < size + size := Nat.add_lt_add_right hindex size
    _ ≤ signedBound + signedBound := Nat.add_le_add hsize hsize
    _ = sizeBound := signedBound_add_self
  rw [OffsetMap.unshift, bind_eq_ok]
  refine ⟨index + size, sized_eq_ok.mpr ⟨hfits, rfl⟩, ?_⟩
  rw [if_neg (by omega), if_neg (by omega)]

/-- Moving an index up by the shift undoes the roll. -/
theorem unshift_back {size shift index : Nat} (hindex : index < size) (hshift : shift ≤ size) :
    ((index + size - shift) % size + shift) % size = index := by
  rw [Nat.mod_add_mod, Nat.sub_add_cancel (by omega), Nat.add_mod_right, Nat.mod_eq_of_lt hindex]

theorem roll_embeds {total shift : Nat} (htotal : total ≤ signedBound) (hshift : shift ≤ total) :
    Embeds (OffsetMap.roll total shift).apply total total := by
  refine .of_back (fun target => (target + shift) % total) fun offset hoffset => ?_
  exact ⟨_, Nat.mod_lt _ (by omega), unshift_eq htotal hoffset hshift, unshift_back hoffset hshift⟩

section RollAxis

variable {shape coordinate : List Nat} {axis size shift : Nat}

theorem within_set {index : Nat} (hwithin : Within shape coordinate)
    (haxis : shape[axis]? = some size) (hindex : index < size) :
    Within shape (coordinate.set axis index) := by
  obtain ⟨hlt, hsize⟩ := List.getElem?_eq_some_iff.mp haxis
  refine within_iff_getElem.mpr ⟨by rw [List.length_set, hwithin.length_eq], fun i hi => ?_⟩
  have hci : i < coordinate.length := by rwa [hwithin.length_eq]
  rw [List.getD_eq_getElem _ _ (by simpa using hci), List.getElem_set]
  split
  · next heq =>
    subst heq
    rwa [List.getD_eq_getElem _ _ hi, hsize]
  · rw [← List.getD_eq_getElem _ 0 hci]
    exact (within_iff_getElem.mp hwithin).2 i hi

/-- An axis of a shape is at most as long as the shape has elements. -/
theorem size_le_prod (haxis : shape[axis]? = some size) (hpos : 0 < shape.prod) :
    size ≤ shape.prod :=
  Nat.le_of_dvd hpos (List.dvd_prod (List.mem_of_getElem? haxis))

theorem Within.getD_lt (hwithin : Within shape coordinate) (haxis : shape[axis]? = some size) :
    coordinate.getD axis 0 < size := by
  obtain ⟨hlt, rfl⟩ := List.getElem?_eq_some_iff.mp haxis
  rw [← List.getD_eq_getElem _ 0 hlt]
  exact (within_iff_getElem.mp hwithin).2 axis hlt

/-- Where a coordinate was before its index on one axis moved up. -/
def unrolled (axis size shift : Nat) (coordinate : List Nat) : List Nat :=
  coordinate.set axis ((coordinate.getD axis 0 + size - shift) % size)

theorem within_unrolled (hwithin : Within shape coordinate) (haxis : shape[axis]? = some size) :
    Within shape (unrolled axis size shift coordinate) := by
  have := hwithin.getD_lt haxis
  exact within_set hwithin haxis (Nat.mod_lt _ (by omega))

theorem unrolled_back (hwithin : Within shape coordinate) (haxis : shape[axis]? = some size)
    (hshift : shift ≤ size) :
    (unrolled axis size shift coordinate).set axis
      (((unrolled axis size shift coordinate).getD axis 0 + shift) % size) = coordinate := by
  have hindex := hwithin.getD_lt haxis
  obtain ⟨hlt, -⟩ := List.getElem?_eq_some_iff.mp haxis
  have hlt' : axis < coordinate.length := by rwa [hwithin.length_eq]
  have hget : (unrolled axis size shift coordinate).getD axis 0
      = (coordinate.getD axis 0 + size - shift) % size := by
    rw [unrolled, List.getD_eq_getElem _ _ (by simpa using hlt'), List.getElem_set_self]
  rw [hget, unshift_back hindex hshift, unrolled, List.set_set, List.getD_eq_getElem _ _ hlt',
    List.set_getElem_self]

/-- The parent offset of an offset of a view that is rolled along an axis. -/
theorem rollAxis_apply (haxis : shape[axis]? = some size) (hshift : shift ≤ size)
    (hsize : shape.prod ≤ signedBound) {offset : Nat} (hoffset : offset < shape.prod) :
    (OffsetMap.rollAxis shape axis shift).apply offset
      = .ok (position shape (unrolled axis size shift (digits shape offset))) := by
  have hpos : 0 < shape.prod := by omega
  have hwithin := within_digits hpos offset
  have hindex := hwithin.getD_lt haxis
  obtain ⟨hlt, -⟩ := List.getElem?_eq_some_iff.mp haxis
  have hlt' : axis < (digits shape offset).length := by rwa [hwithin.length_eq]
  have hcoordinate : itemAt (digits shape offset) axis = .ok ((digits shape offset).getD axis 0) :=
    itemAt_eq_ok.mpr (by rw [List.getD_eq_getElem _ _ hlt', List.getElem?_eq_getElem hlt'])
  have hunrolled : Within shape (unrolled axis size shift (digits shape offset)) :=
    within_unrolled hwithin haxis
  rw [OffsetMap.apply, delinearize_eq hpos]
  simp only [bind_eq_ok, itemAt_eq_ok]
  refine ⟨_, rfl, size, haxis, _, itemAt_eq_ok.mp hcoordinate, _,
    unshift_eq ((size_le_prod haxis hpos).trans hsize) hindex hshift, ?_⟩
  exact offsetOf_eq hunrolled (hsize.trans_lt signedBound_lt_sizeBound)

theorem rollAxis_embeds (haxis : shape[axis]? = some size) (hshift : shift ≤ size)
    (hsize : shape.prod ≤ signedBound) :
    Embeds (OffsetMap.rollAxis shape axis shift).apply shape.prod shape.prod := by
  -- undone by moving the index of the target up again
  refine .of_back (fun target => position shape ((digits shape target).set axis
    (((digits shape target).getD axis 0 + shift) % size))) fun offset hoffset => ?_
  have hpos : 0 < shape.prod := by omega
  have hwithin := within_digits hpos offset
  have hunrolled : Within shape (unrolled axis size shift (digits shape offset)) :=
    within_unrolled hwithin haxis
  refine ⟨_, position_lt hunrolled, rollAxis_apply haxis hshift hsize hoffset, ?_⟩
  simp only [digits_position hunrolled]
  rw [unrolled_back hwithin haxis hshift, position_digits hoffset]

end RollAxis

/-! ### Gather tables -/

theorem gather_apply {offsets : List Nat} {place : Nat} (hplace : place < offsets.length) :
    (OffsetMap.gather offsets.toArray).apply place = .ok offsets[place] := by
  simp [OffsetMap.apply, hplace]

theorem gather_embeds {offsets : List Nat} {parentSize : Nat} (hnodup : offsets.Nodup)
    (hlt : ∀ offset ∈ offsets, offset < parentSize) :
    Embeds (OffsetMap.gather offsets.toArray).apply offsets.length parentSize := by
  refine .of_back offsets.idxOf fun place hplace => ?_
  exact ⟨_, hlt _ (List.getElem_mem hplace), gather_apply hplace, hnodup.idxOf_getElem place hplace⟩

/-! ### How the maps of a view are made -/

/-- **The search for a repeated axis.** It gets to the end just when no axis occurs twice and none was seen before. -/
theorem visitsOnce_iff {seen : List Bool} {axes : List Nat} :
    visitsOnce seen axes = true ↔ axes.Nodup ∧ ∀ axis ∈ axes, seen[axis]? = some false := by
  induction axes generalizing seen with
  | nil => simp [visitsOnce]
  | cons axis axes ih =>
    rw [visitsOnce, List.nodup_cons, List.forall_mem_cons]
    cases hseen : seen[axis]? with
    | none => simp
    | some mark =>
      cases mark with
      | true => simp
      | false =>
        have hlt : axis < seen.length := (List.getElem?_eq_some_iff.mp hseen).1
        have hmarked : (seen.set axis true)[axis]? = some true := List.getElem?_set_self hlt
        change visitsOnce (seen.set axis true) axes = true ↔ _
        rw [ih]
        constructor
        · rintro ⟨hnodup, hunseen⟩
          -- the axis is marked by now, so it is none of the others
          have hnotMem : axis ∉ axes := by
            intro hmem
            rw [hunseen axis hmem] at hmarked
            cases hmarked
          refine ⟨⟨hnotMem, hnodup⟩, rfl, fun other hmem => ?_⟩
          have hne : axis ≠ other := ne_of_mem_of_not_mem hmem hnotMem |>.symm
          rw [← hunseen other hmem, List.getElem?_set_ne hne]
        · rintro ⟨⟨hnotMem, hnodup⟩, -, hunseen⟩
          refine ⟨hnodup, fun other hmem => ?_⟩
          have hne : axis ≠ other := ne_of_mem_of_not_mem hmem hnotMem |>.symm
          rw [List.getElem?_set_ne hne, hunseen other hmem]

/-- The search with a fresh table decides whether as many axes as there are permute them. -/
theorem visitsOnce_iff_perm {permutation : List Nat} {rank : Nat} (hlength : permutation.length = rank) :
    visitsOnce (List.replicate rank false) permutation = true ↔ permutation.Perm (List.range rank) := by
  have hfresh : ∀ axis : Nat, (List.replicate rank false)[axis]? = some false ↔ axis < rank := by
    intro axis
    rw [List.getElem?_replicate]
    split <;> simp [*]
  rw [visitsOnce_iff, perm_range_iff, and_comm]
  simp only [hfresh, hlength, true_and]

/-- The map of a transpose is the permutation of the axes, and only permutations have one. -/
theorem transposeMap_eq_ok {shape permutation newShape : List Nat} {map : OffsetMap}
    (h : transposeMap shape permutation = .ok (newShape, map)) :
    permutation.Perm (List.range shape.length) ∧ newShape = permuted permutation shape ∧
      map = .permute (permuted permutation shape) shape permutation := by
  rw [transposeMap] at h
  split at h
  · cases h
  · next hlength =>
    split at h
    · next haxes =>
      cases h
      exact ⟨(visitsOnce_iff_perm (not_not.mp hlength)).mp haxes, rfl, rfl⟩
    · cases h

theorem reshapeMap_eq_ok {oldShape newShape : List Nat} {map : OffsetMap}
    (h : reshapeMap oldShape newShape = .ok map) :
    newShape ≠ [] ∧ oldShape.prod = newShape.prod ∧ map = .identity := by
  simp only [reshapeMap, bind_eq_ok, lift_checked_eq_ok] at h
  obtain ⟨oldCount, hold, newCount, hnew, h⟩ := h
  split at h
  · cases h
  · next hcounts =>
    cases h
    rw [not_or, not_not, List.isEmpty_iff] at hcounts
    rw [← (eq_of_elementCount hold).1, ← (eq_of_elementCount hnew).1]
    exact ⟨hcounts.1, hcounts.2, rfl⟩

/-- A shift of a length that is a signed number is its remainder. -/
theorem normalShift_eq {amount : Int} {length : Nat} (hpos : 0 < length)
    (hlength : length < signedBound) : normalShift amount length = .ok (amount % length).toNat := by
  -- read as a signed number, the length is still positive
  have hsigned : Int.bmod (length : Int) sizeBound = length := by
    have := signedBound_add_self
    rw [Int.bmod_eq_of_le] <;> omega
  rw [normalShift, hsigned, if_neg (by omega), if_neg (by omega)]

theorem normalShift_zero (amount : Int) : normalShift amount 0 = .ok 0 := by
  rw [normalShift, if_pos rfl]

/-- A remainder is a shift below the length. -/
theorem toNat_emod_lt (amount : Int) {length : Nat} (hpos : 0 < length) :
    (amount % length).toNat < length := by
  have := Int.emod_lt_of_pos amount (by omega : (0 : Int) < length)
  have := Int.emod_nonneg amount (by omega : (length : Int) ≠ 0)
  omega

/-- What a map other than a gather table says: it sends the offsets of a view to all offsets of a parent of
the same size, each to the given one. -/
structure Rearranges (map : OffsetMap) (size : Nat) (source : Nat → Nat) : Prop where
  /-- The map is no table. -/
  noTable : ∀ table, map ≠ .gather table
  /-- Where an offset is sent. -/
  apply : ∀ offset < size, map.apply offset = .ok (source offset)
  /-- Distinct offsets have distinct images. -/
  embeds : Embeds map.apply size size

theorem rearranges_identity {size : Nat} {source : Nat → Nat}
    (h : ∀ offset < size, source offset = offset) : Rearranges .identity size source where
  noTable _ := nofun
  apply offset hoffset := congrArg Except.ok (h offset hoffset).symm
  embeds := .id size

/-- The map of a flat roll. A shift by nothing is the identity. -/
theorem rollMap_eq_ok {shape : List Nat} {amount : Int} {map : OffsetMap}
    (hsize : shape.prod < signedBound) (h : rollMap shape amount = .ok map) :
    Rearranges map shape.prod
      fun offset => (offset + shape.prod - (amount % shape.prod).toNat) % shape.prod := by
  simp only [rollMap, bind_eq_ok] at h
  obtain ⟨total, htotal, shift, hshift, h⟩ := h
  obtain ⟨rfl, -⟩ := eq_of_elementCount htotal
  rcases Nat.eq_zero_or_pos shape.prod with hzero | hpos
  · -- there is no offset
    rw [hzero, normalShift_zero] at hshift
    cases hshift
    cases h
    exact rearranges_identity fun offset hoffset => by omega
  · rw [normalShift_eq hpos hsize] at hshift
    have hlt := toNat_emod_lt amount hpos
    rw [Except.ok.inj hshift] at hlt ⊢
    cases shift with
    | zero =>
      -- a shift by nothing has no map of its own, so the formula has to be the identity
      cases h
      refine rearranges_identity fun offset hoffset => ?_
      rw [Nat.sub_zero, Nat.add_mod_right, Nat.mod_eq_of_lt hoffset]
    | succ shift =>
      cases h
      refine ⟨fun table hgather => ?_, fun offset hoffset => unshift_eq hsize.le hoffset hlt.le,
        roll_embeds hsize.le hlt.le⟩
      cases hgather

/-- The map of a roll along an axis, which must be there. -/
theorem rollAxisMap_eq_ok {shape : List Nat} {axis : Nat} {amount : Int} {map : OffsetMap}
    (hsize : shape.prod < signedBound) (h : rollAxisMap shape axis amount = .ok map) :
    ∃ size, shape[axis]? = some size ∧ Rearranges map shape.prod fun offset =>
      position shape (unrolled axis size (amount % size).toNat (digits shape offset)) := by
  rw [rollAxisMap] at h
  cases haxis : shape[axis]? with
  | none => rw [haxis] at h; cases h
  | some size =>
    simp only [haxis, bind_eq_ok, lift_checked_eq_ok] at h
    obtain ⟨shift, hshift, h⟩ := h
    refine ⟨size, rfl, ?_⟩
    rcases Nat.eq_zero_or_pos shape.prod with hzero | hpos
    · -- an array without elements has no offset to be sent anywhere
      rw [hzero]
      have hmap : ∀ table, map ≠ .gather table := by
        rintro table rfl
        split at h <;> cases h
      exact ⟨hmap, fun _ hoffset => absurd hoffset (Nat.not_lt_zero _), .of_empty _ _⟩
    · have hle := size_le_prod haxis hpos
      have hsizepos : 0 < size :=
        Nat.pos_of_dvd_of_pos (List.dvd_prod (List.mem_of_getElem? haxis)) hpos
      rw [normalShift_eq hsizepos (hle.trans_lt hsize)] at hshift
      have hlt := toNat_emod_lt amount hsizepos
      rw [Except.ok.inj hshift] at hlt ⊢
      cases shift with
      | zero =>
        cases h
        refine rearranges_identity fun offset hoffset => ?_
        have hwithin := within_digits hpos offset
        obtain ⟨haxislt, -⟩ := List.getElem?_eq_some_iff.mp haxis
        rw [unrolled, Nat.sub_zero, Nat.add_mod_right, Nat.mod_eq_of_lt (hwithin.getD_lt haxis),
          List.getD_eq_getElem _ _ (by rwa [hwithin.length_eq]), List.set_getElem_self,
          position_digits hoffset]
      | succ shift =>
        cases h
        refine ⟨fun table hgather => ?_, fun offset hoffset => rollAxis_apply haxis hlt.le hsize.le hoffset,
          rollAxis_embeds haxis hlt.le hsize.le⟩
        cases hgather

end NetArray
