import NetArray.Proofs.Index.OffsetMaps
import Mathlib

/-!
# Transposing is a group action

The permutations of the axes act on shapes, on coordinates and on offsets. Axis `i` of the transposed
array is axis `p[i]` of the original, so `permuted p` takes a shape or a coordinate of the original to one of
the transposed array, and `OffsetMap.scatter p` goes back. Transposing by `p` and then by `q` permutes by
`permuted q p`, which is `p[q[i]]` at `i`: the later permutation selects from the earlier one. With the
composition the other way round the statements below fail as soon as `p` and `q` do not commute.

* `permuted_permuted` and `scatter_scatter` are the two actions on lists.
* `transposed` is where an offset of the transposed array lies in the original; `transposed_transposed`
  and `transposed_range` say that this is an action too, through `position` and `digits`.
* `transpose_acts` says the same of the maps that `transposeMap` makes.
-/

namespace NetArray

/-! ### Permutations of the first numbers -/

section

variable {p q entries coordinate : List Nat} {rank : Nat}

/-- One permutation after another is a permutation. -/
theorem permuted_perm (hp : p.Perm (List.range rank)) (hq : q.Perm (List.range rank)) :
    (permuted q p).Perm (List.range rank) := by
  have hlength : p.length = rank := (perm_range_iff.mp hp).1
  have hall : (permuted q p).Perm (permuted (List.range p.length) p) := by
    rw [hlength]
    exact hq.map _
  rw [permuted_range] at hall
  exact hall.trans hp

/-- Permuting a list keeps its rank, so what permutes the list permutes the result too. -/
theorem perm_rank_permuted (hp : p.Perm (List.range entries.length))
    (hq : q.Perm (List.range entries.length)) : q.Perm (List.range (permuted p entries).length) := by
  rwa [length_permuted, (perm_range_iff.mp hp).1]

theorem permuted_permuted (hp : p.Perm (List.range rank)) (hq : q.Perm (List.range rank)) :
    permuted q (permuted p entries) = permuted (permuted q p) entries := by
  unfold permuted
  rw [List.map_map]
  refine List.map_congr_left fun axis haxis => ?_
  have hlt : axis < p.length := by
    rw [(perm_range_iff.mp hp).1]
    exact (perm_range_iff.mp hq).2.1 axis haxis
  rw [Function.comp_apply, List.getD_eq_getElem _ _ (by simpa using hlt), List.getElem_map,
    List.getD_eq_getElem _ _ hlt]

/-- Scattering goes the other way, so the later permutation comes off first. -/
theorem scatter_scatter (hp : p.Perm (List.range coordinate.length))
    (hq : q.Perm (List.range coordinate.length)) :
    OffsetMap.scatter p (OffsetMap.scatter q coordinate) =
      OffsetMap.scatter (permuted q p) coordinate := by
  have hlength : p.length = coordinate.length := (perm_range_iff.mp hp).1
  -- both sides are the coordinate that permuting by both gives `coordinate`
  obtain ⟨source, hsource⟩ : ∃ source, OffsetMap.scatter (permuted q p) coordinate = source := ⟨_, rfl⟩
  have hsize : source.length = coordinate.length := by
    rw [← hsource, length_scatter, length_permuted, (perm_range_iff.mp hq).1]
  have hcoordinate : permuted q (permuted p source) = coordinate := by
    rw [permuted_permuted hp hq, ← hsource, permuted_scatter (permuted_perm hp hq)]
  have houter : OffsetMap.scatter q (permuted q (permuted p source)) = permuted p source :=
    scatter_permuted (by rwa [length_permuted, hlength])
  have hinner : OffsetMap.scatter p (permuted p source) = source :=
    scatter_permuted (by rwa [hsize])
  rw [hsource, ← hcoordinate, houter, hinner]

theorem scatter_range (coordinate : List Nat) :
    OffsetMap.scatter (List.range coordinate.length) coordinate = coordinate := by
  have h := scatter_permuted (List.Perm.refl (List.range coordinate.length))
  rwa [permuted_range] at h

/-- The permutation that undoes another: it has at each axis the place where the other names the axis. -/
def inversePermutation (p : List Nat) : List Nat :=
  (List.range p.length).map p.idxOf

theorem permuted_inversePermutation (hp : p.Perm (List.range rank)) :
    permuted (inversePermutation p) p = List.range rank := by
  rw [permuted, inversePermutation, List.map_map, (perm_range_iff.mp hp).1]
  refine (List.map_congr_left fun axis haxis => ?_).trans (List.map_id _)
  have hplace : p.idxOf axis < p.length := List.idxOf_lt_length_iff.mpr (hp.mem_iff.mpr haxis)
  rw [Function.comp_apply, List.getD_eq_getElem _ _ hplace, List.getElem_idxOf]
  rfl

theorem inversePermutation_perm (hp : p.Perm (List.range rank)) :
    (inversePermutation p).Perm (List.range rank) := by
  obtain ⟨hlength, -, -⟩ := perm_range_iff.mp hp
  refine perm_range_iff.mpr ⟨?_, fun place hplace => ?_, ?_⟩
  · rw [inversePermutation, List.length_map, List.length_range, hlength]
  · obtain ⟨axis, haxis, rfl⟩ := List.mem_map.mp hplace
    rw [hlength] at haxis
    rw [← hlength]
    exact List.idxOf_lt_length_iff.mpr (hp.mem_iff.mpr haxis)
  · -- what it is permuted to has no repetition
    have hnodup : (permuted (inversePermutation p) p).Nodup := by
      rw [permuted_inversePermutation hp]
      exact List.nodup_range
    exact List.Nodup.of_map _ hnodup

end

/-! ### Offsets -/

/-- Where an offset of the transposed array lies in the original. -/
def transposed (shape p : List Nat) (offset : Nat) : Nat :=
  position shape (OffsetMap.scatter p (digits (permuted p shape) offset))

section

variable {shape p q : List Nat} {offset : Nat}

theorem transposed_lt (hp : p.Perm (List.range shape.length)) (hoffset : offset < shape.prod) :
    transposed shape p offset < shape.prod := by
  have hpos : 0 < (permuted p shape).prod := by
    rw [prod_permuted hp]
    omega
  exact position_lt (within_scatter hp (within_digits hpos offset))

/-- A coordinate of the original lies where its permuted coordinate is sent. -/
theorem transposed_position {coordinate : List Nat}
    (hwithin : Within (permuted p shape) coordinate) :
    transposed shape p (position (permuted p shape) coordinate) =
      position shape (OffsetMap.scatter p coordinate) := by
  rw [transposed, digits_position hwithin]

/-- Transposing twice is transposing once. -/
theorem transposed_transposed (hp : p.Perm (List.range shape.length))
    (hq : q.Perm (List.range shape.length)) (hoffset : offset < shape.prod) :
    transposed shape p (transposed (permuted p shape) q offset) =
      transposed shape (permuted q p) offset := by
  have hq' : q.Perm (List.range (permuted p shape).length) := perm_rank_permuted hp hq
  have hprod : (permuted q (permuted p shape)).prod = shape.prod := by
    rw [prod_permuted hq', prod_permuted hp]
  have hwithin : Within (permuted q (permuted p shape)) (digits (permuted q (permuted p shape)) offset) :=
    within_digits (by omega) offset
  have hsize : (digits (permuted q (permuted p shape)) offset).length = shape.length := by
    rw [hwithin.length_eq, length_permuted, (perm_range_iff.mp hq).1]
  calc transposed shape p (transposed (permuted p shape) q offset)
      = position shape (OffsetMap.scatter p
          (OffsetMap.scatter q (digits (permuted q (permuted p shape)) offset))) :=
        transposed_position (within_scatter hq' hwithin)
    _ = position shape
          (OffsetMap.scatter (permuted q p) (digits (permuted q (permuted p shape)) offset)) := by
        rw [scatter_scatter (by rwa [hsize]) (by rwa [hsize])]
    _ = transposed shape (permuted q p) offset := by rw [permuted_permuted hp hq, transposed]

theorem transposed_range (hoffset : offset < shape.prod) :
    transposed shape (List.range shape.length) offset = offset := by
  have hwithin : Within shape (digits shape offset) := within_digits (by omega) offset
  rw [transposed, permuted_range]
  conv_lhs => rw [← hwithin.length_eq]
  rw [scatter_range, position_digits hoffset]

end

/-! ### The maps of transposed views -/

section

variable {shape p q : List Nat} {offset : Nat}

theorem transposeMap_eq (hp : p.Perm (List.range shape.length)) :
    transposeMap shape p =
      .ok (permuted p shape, .permute (permuted p shape) shape p) := by
  have hlength : p.length = shape.length := (perm_range_iff.mp hp).1
  rw [transposeMap, if_neg (not_not.mpr hlength), if_pos ((visitsOnce_iff_perm hlength).mpr hp)]
  rfl

/-- Everything but a permutation is refused: repeated axes, missing axes and axes that are too large. -/
theorem transposeMap_refused (hp : ¬p.Perm (List.range shape.length)) :
    ∃ cause, transposeMap shape p = .error (.refused cause) := by
  unfold transposeMap
  split
  · exact ⟨_, rfl⟩
  · next hlength =>
    split
    · next haxes => exact absurd ((visitsOnce_iff_perm (not_not.mp hlength)).mp haxes) hp
    · exact ⟨_, rfl⟩

/-- What a transposed view says of coordinates: the offset of a coordinate goes to the offset of the
coordinate whose entry `p[i]` is entry `i` of the first. -/
structure Transposes (shape p newShape : List Nat) (map : OffsetMap) : Prop where
  /-- Axis `i` of the view is axis `p[i]` of its parent. -/
  shape_eq : ∀ i axis : Nat, p[i]? = some axis → newShape[i]? = shape[axis]?
  /-- Where the view reads. -/
  reads : ∀ coordinate, Within newShape coordinate → ∃ source, Within shape source ∧
    (∀ i axis : Nat, p[i]? = some axis → source[axis]? = coordinate[i]?) ∧
    ∃ offset target, linearize newShape coordinate = .ok offset ∧
      linearize shape source = .ok target ∧ map.apply offset = .ok target

theorem getElem?_permuted {entries : List Nat} (hlt : ∀ axis ∈ p, axis < entries.length) {i axis : Nat}
    (hi : p[i]? = some axis) : (permuted p entries)[i]? = entries[axis]? := by
  have haxis : axis < entries.length := hlt axis (List.mem_of_getElem? hi)
  rw [permuted, List.getElem?_map, hi, Option.map_some, List.getD_eq_getElem _ _ haxis,
    List.getElem?_eq_getElem haxis]

theorem transposes (hp : p.Perm (List.range shape.length)) (hsize : shape.prod < sizeBound) :
    Transposes shape p (permuted p shape) (.permute (permuted p shape) shape p) := by
  obtain ⟨hlength, hlt, -⟩ := perm_range_iff.mp hp
  refine ⟨fun i axis hi => getElem?_permuted hlt hi, fun coordinate hwithin => ?_⟩
  have hsource : Within shape (OffsetMap.scatter p coordinate) := within_scatter hp hwithin
  have hrank : coordinate.length = shape.length := by
    rw [hwithin.length_eq, length_permuted, hlength]
  have hprod : (permuted p shape).prod = shape.prod := prod_permuted hp
  have hoffset : position (permuted p shape) coordinate < shape.prod := hprod ▸ position_lt hwithin
  refine ⟨_, hsource, fun i axis hi => ?_, _, _, linearize_eq hwithin (by rwa [hprod]),
    linearize_eq hsource hsize, ?_⟩
  · -- permuting the scattered coordinate gives the coordinate back
    have hback : permuted p (OffsetMap.scatter p coordinate) = coordinate :=
      permuted_scatter (by rwa [hrank])
    have hget := getElem?_permuted (by rwa [hsource.length_eq]) hi
    rw [← hget, hback]
  · rw [← transposed_position hwithin]
    exact permute_apply hp hsize hoffset

/-- The view of a view is a view of the parent by the composed permutation. -/
theorem transposeMap_twice (hp : p.Perm (List.range shape.length))
    (hq : q.Perm (List.range shape.length)) :
    transposeMap (permuted p shape) q = .ok (permuted (permuted q p) shape,
      .permute (permuted (permuted q p) shape) (permuted p shape) q) := by
  rw [transposeMap_eq (perm_rank_permuted hp hq), permuted_permuted hp hq]

/-- The two maps of a view of a view send an offset where the composed permutation sends it. -/
theorem permute_permute (hp : p.Perm (List.range shape.length))
    (hq : q.Perm (List.range shape.length)) (hsize : shape.prod < sizeBound)
    (hoffset : offset < shape.prod) :
    ((OffsetMap.permute (permuted (permuted q p) shape) (permuted p shape) q).apply offset >>=
        (OffsetMap.permute (permuted p shape) shape p).apply) =
      .ok (transposed shape (permuted q p) offset) := by
  have hprod : (permuted p shape).prod = shape.prod := prod_permuted hp
  have hq' : q.Perm (List.range (permuted p shape).length) := perm_rank_permuted hp hq
  have hinner : transposed (permuted p shape) q offset < (permuted p shape).prod :=
    transposed_lt hq' (by omega)
  rw [← permuted_permuted hp hq, permute_apply hq' (by omega) (by omega)]
  refine (permute_apply hp hsize (hprod ▸ hinner)).trans ?_
  exact congrArg Except.ok (transposed_transposed hp hq hoffset)

end

/-- **Transposing is a group action.** A list of axes has a transposed view exactly if it is a permutation
of the axes, and is refused otherwise. For a shape whose count is a machine number, the transposed view
reads where `Transposes` says; transposing by `p` and then by `q` is transposing by `p[q[i]]`, in shape and
on every offset; and transposing by `p` and then by its inverse changes nothing. -/
theorem transpose_acts (shape : List Nat) :
    (∀ p : List Nat, ((∃ view, transposeMap shape p = .ok view) ↔ p.Perm (List.range shape.length)) ∧
      (¬p.Perm (List.range shape.length) →
        ∃ cause, transposeMap shape p = .error (.refused cause))) ∧
    ∀ count, elementCount shape = .ok count →
      ∀ p q : List Nat, p.Perm (List.range shape.length) → q.Perm (List.range shape.length) →
        ∃ newShape first, transposeMap shape p = .ok (newShape, first) ∧
          Transposes shape p newShape first ∧
          (∃ bothShape second both, transposeMap newShape q = .ok (bothShape, second) ∧
            transposeMap shape (q.map fun i => p.getD i 0) = .ok (bothShape, both) ∧
            ∀ offset < count, ∃ target < count, both.apply offset = .ok target ∧
              (second.apply offset >>= first.apply) = .ok target) ∧
          ∃ back, transposeMap newShape (inversePermutation p) = .ok (shape, back) ∧
            ∀ offset < count, (back.apply offset >>= first.apply) = .ok offset := by
  refine ⟨fun p => ?_, fun count hcount p q hp hq => ?_⟩
  · refine ⟨⟨fun ⟨view, hview⟩ => ?_, fun hp => ⟨_, transposeMap_eq hp⟩⟩, transposeMap_refused⟩
    exact (transposeMap_eq_ok hview).1
  obtain ⟨rfl, hsize⟩ := eq_of_elementCount hcount
  have hboth : (permuted q p).Perm (List.range shape.length) := permuted_perm hp hq
  refine ⟨_, _, transposeMap_eq hp, transposes hp hsize, ⟨_, _, _, transposeMap_twice hp hq,
    transposeMap_eq hboth, fun offset hoffset => ?_⟩, ?_⟩
  · exact ⟨_, transposed_lt hboth hoffset, permute_apply hboth hsize hoffset,
      permute_permute hp hq hsize hoffset⟩
  · have hinverse := inversePermutation_perm hp
    have hback := transposeMap_twice hp hinverse
    have htwice (offset : Nat) (hoffset : offset < shape.prod) :=
      permute_permute hp hinverse hsize hoffset
    -- the composed permutation names the axes in their order
    rw [permuted_inversePermutation hp, permuted_range] at hback htwice
    refine ⟨_, hback, fun offset hoffset => ?_⟩
    rw [htwice offset hoffset, transposed_range hoffset]

/-- The axes are turned, which is not its own inverse, and then two change places. -/
theorem transpose_acts_boxes :
    elementCount [2, 3, 4] = .ok 24 ∧
      (∃ newShape first, transposeMap [2, 3, 4] [2, 0, 1] = .ok (newShape, first) ∧
        Transposes [2, 3, 4] [2, 0, 1] newShape first ∧
        ∃ second both, transposeMap newShape [1, 0, 2] = .ok ([2, 4, 3], second) ∧
          transposeMap [2, 3, 4] [0, 2, 1] = .ok ([2, 4, 3], both) ∧
          ∀ offset < 24, (second.apply offset >>= first.apply) = both.apply offset) ∧
      ¬[0, 0, 1].Perm (List.range 3) ∧
      ∃ cause, transposeMap [2, 3, 4] [0, 0, 1] = .error (.refused cause) := by
  have hcount : elementCount [2, 3, 4] = .ok 24 := rfl
  have hrepeated : ¬[0, 0, 1].Perm (List.range 3) := by decide
  obtain ⟨hviews, hacts⟩ := transpose_acts [2, 3, 4]
  obtain ⟨newShape, first, hfirst, htransposes, ⟨bothShape, second, both, hsecond, hboth, happly⟩, -⟩ :=
    hacts 24 hcount [2, 0, 1] [1, 0, 2] (by decide) (by decide)
  have hshape : bothShape = [2, 4, 3] := congrArg Prod.fst (Except.ok.inj hboth).symm
  rw [hshape] at hsecond hboth
  refine ⟨hcount, ⟨newShape, first, hfirst, htransposes, second, both, hsecond, hboth,
    fun offset hoffset => ?_⟩, hrepeated, (hviews [0, 0, 1]).2 hrepeated⟩
  obtain ⟨target, -, hone, htwo⟩ := happly offset hoffset
  rw [hone, htwo]

end NetArray
