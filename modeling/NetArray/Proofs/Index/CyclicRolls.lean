import NetArray.Proofs.Array.EagerArray
import Mathlib

/-!
# Rolls form cyclic groups

The signed numbers act on the indices of an axis by `Eager.shifted`: the indices move up by an amount, around
the end, and the amounts that are multiples of the length move nothing. A flat roll is this action on the
offsets of an array, a roll along an axis is the action on one entry of each coordinate (`movedAlong`).

An offset map looks the other way. It says where an element came from, with an amount that was reduced to a
shift below the length and is then subtracted, after one lap was added so that the difference is not
negative. `unshift_shifted` takes this back to the action: the maps move by the opposite amount.

* `ActsCyclically` is what an action needs, once for both kinds of rolls, and `RollsCyclically` is what follows
  for the maps.
* `rolls_cyclic` says it of `rollMap` and `rollAxisMap`.
-/

namespace NetArray

open Eager (shifted)

/-! ### Moving an index around the end -/

section

variable {size index : Nat} {a b amount : Int}

theorem shifted_lt (hpos : 0 < size) : shifted size amount index < size := by
  rw [shifted_eq hpos]
  exact Nat.mod_lt _ hpos

/-- Two moves in turn are a move by the sum. -/
theorem shifted_shifted (hpos : 0 < size) :
    shifted size b (shifted size a index) = shifted size (a + b) index := by
  have hindex : (shifted size a index : Int) = (index + a) % size :=
    Int.toNat_of_nonneg (Int.emod_nonneg _ (by omega))
  rw [shifted, hindex, Int.emod_add_emod, Int.add_assoc, shifted]

/-- An index stays exactly if all of them do: when the amount is a number of laps. -/
theorem shifted_eq_self_iff (hindex : index < size) :
    shifted size amount index = index ↔ (size : Int) ∣ amount := by
  have hmoved : (shifted size amount index : Int) = (index + amount) % size :=
    Int.toNat_of_nonneg (Int.emod_nonneg _ (by omega))
  constructor
  · intro hstays
    rw [hstays] at hmoved
    have hlaps := Int.emod_add_mul_ediv (index + amount) size
    exact ⟨(index + amount) / size, by omega⟩
  · rintro ⟨laps, rfl⟩
    rw [Int.add_mul_emod_self_left, Int.emod_eq_of_lt (by omega) (by omega)] at hmoved
    exact Int.ofNat.inj hmoved

/-- What the offset maps compute is a move by the opposite amount. -/
theorem unshift_shifted (hindex : index < size) :
    (index + size - (amount % size).toNat) % size = shifted size (-amount) index := by
  have hpos : 0 < size := by omega
  have hlt : (index + size - (amount % size).toNat) % size < size := Nat.mod_lt _ hpos
  -- moved by the amount, it gets to the index, and moving both ways is moving by nothing
  have hforth : shifted size amount ((index + size - (amount % size).toNat) % size) = index := by
    rw [shifted_eq hpos]
    exact unshift_back hindex (toNat_emod_lt amount hpos).le
  rw [← hforth, shifted_shifted hpos, hforth, Int.add_right_neg]
  exact ((shifted_eq_self_iff hlt).mpr (Int.dvd_zero _)).symm

end

/-! ### Actions and the maps that undo them -/

/-- The amounts act on the numbers below `count` as the numbers modulo `length` do. -/
structure ActsCyclically (length count : Nat) (moved : Int → Nat → Nat) : Prop where
  lt : ∀ amount, ∀ offset < count, moved amount offset < count
  add : ∀ a b, ∀ offset < count, moved b (moved a offset) = moved (a + b) offset
  fixed : ∀ amount, ∀ offset < count, moved amount offset = offset ↔ (length : Int) ∣ amount

/-- The maps that `roll` makes read from where `moved` brought the elements, and compose as the numbers
modulo `length` do. -/
structure RollsCyclically {ε : Type} (roll : Int → Except ε OffsetMap) (length count : Nat)
    (moved : Int → Nat → Nat) : Prop where
  /-- There is a map for every amount. -/
  made : ∀ amount, ∃ map, roll amount = .ok map
  /-- No map faults or leaves the array. It reads from where the opposite amount moves to. -/
  reads : ∀ {amount map}, roll amount = .ok map →
    ∀ offset < count, moved (-amount) offset < count ∧
      map.apply offset = .ok (moved (-amount) offset)
  /-- The element at an offset moves to the place that `moved` says. -/
  moves : ∀ {amount map}, roll amount = .ok map →
    ∀ offset < count, moved amount offset < count ∧ map.apply (moved amount offset) = .ok offset
  /-- Two rolls in turn are a roll by the sum. -/
  add : ∀ {a b first second both}, roll a = .ok first → roll b = .ok second →
    roll (a + b) = .ok both →
      ∀ offset < count, (second.apply offset >>= first.apply) = both.apply offset
  /-- Whole laps change nothing, and nothing else does. -/
  fixed : ∀ {amount map}, roll amount = .ok map →
    ((∀ offset < count, map.apply offset = .ok offset) ↔ (length : Int) ∣ amount)
  /-- They are no step at all. -/
  identity : ∀ {amount map}, roll amount = .ok map → (map = .identity ↔ (length : Int) ∣ amount)

namespace ActsCyclically

variable {ε : Type} {roll : Int → Except ε OffsetMap} {length count : Nat} {moved : Int → Nat → Nat}

theorem zero (h : ActsCyclically length count moved) {offset : Nat} (hoffset : offset < count) :
    moved 0 offset = offset :=
  (h.fixed 0 offset hoffset).mpr (Int.dvd_zero _)

/-- Maps that move by the opposite amount roll cyclically. -/
theorem rolls (h : ActsCyclically length count moved) (hpos : 0 < count)
    (hroll : ∀ amount, ∃ map, roll amount = .ok map ∧
      (∀ offset < count, map.apply offset = .ok (moved (-amount) offset)) ∧
      (map = .identity ↔ (length : Int) ∣ amount)) : RollsCyclically roll length count moved := by
  -- whatever map `roll` makes for an amount is the one of the hypothesis
  have happly {amount : Int} {map : OffsetMap} (hmap : roll amount = .ok map) (offset : Nat)
      (hoffset : offset < count) : map.apply offset = .ok (moved (-amount) offset) := by
    obtain ⟨map', hmap', happly, -⟩ := hroll amount
    cases hmap.symm.trans hmap'
    exact happly offset hoffset
  constructor
  case made =>
    intro amount
    obtain ⟨map, hmap, -⟩ := hroll amount
    exact ⟨map, hmap⟩
  case reads =>
    intro amount map hmap offset hoffset
    exact ⟨h.lt _ offset hoffset, happly hmap offset hoffset⟩
  case moves =>
    intro amount map hmap offset hoffset
    have hlt := h.lt amount offset hoffset
    refine ⟨hlt, ?_⟩
    rw [happly hmap _ hlt, h.add _ _ offset hoffset, Int.add_right_neg, h.zero hoffset]
  case add =>
    intro a b first second both hfirst hsecond hboth offset hoffset
    have hlt := h.lt (-b) offset hoffset
    -- the second roll is looked through first
    rw [happly hsecond offset hoffset, happly hboth offset hoffset]
    refine (happly hfirst _ hlt).trans ?_
    rw [h.add _ _ offset hoffset, Int.neg_add, Int.add_comm]
  case fixed =>
    intro amount map hmap
    have hstays (offset : Nat) (hoffset : offset < count) :
        map.apply offset = .ok offset ↔ (length : Int) ∣ amount := by
      rw [happly hmap offset hoffset, Except.ok.injEq, h.fixed _ offset hoffset, Int.dvd_neg]
    exact ⟨fun hall => (hstays 0 hpos).mp (hall 0 hpos), fun hlaps offset hoffset =>
      (hstays offset hoffset).mpr hlaps⟩
  case identity =>
    intro amount map hmap
    obtain ⟨map', hmap', -, hidentity⟩ := hroll amount
    cases hmap.symm.trans hmap'
    exact hidentity

end ActsCyclically

/-! ### Flat rolls -/

theorem shifted_acts {count : Nat} (hpos : 0 < count) :
    ActsCyclically count count (shifted count) where
  lt _ _ _ := shifted_lt hpos
  add _ _ _ _ := shifted_shifted hpos
  fixed _ _ hoffset := shifted_eq_self_iff hoffset

/-- A shift is nothing exactly if the amount is a number of laps. -/
theorem toNat_emod_eq_zero_iff {amount : Int} {length : Nat} (hpos : 0 < length) :
    (amount % length).toNat = 0 ↔ (length : Int) ∣ amount := by
  have hnonneg : 0 ≤ amount % length := Int.emod_nonneg _ (by omega)
  rw [Int.dvd_iff_emod_eq_zero]
  omega

private theorem ite_identity_iff {shift : Nat} {map : OffsetMap} (hmap : map ≠ .identity) :
    (if shift = 0 then .identity else map) = .identity ↔ shift = 0 := by
  split
  · next hzero => exact ⟨fun _ => hzero, fun _ => rfl⟩
  · next hshift => exact ⟨fun hidentity => absurd hidentity hmap, fun hzero => absurd hzero hshift⟩

section Flat

variable {shape : List Nat} {amount : Int}

theorem rollMap_eq (hpos : 0 < shape.prod) (hsize : shape.prod < signedBound) :
    rollMap shape amount = .ok (if (amount % shape.prod).toNat = 0 then .identity
      else .roll shape.prod (amount % shape.prod).toNat) := by
  rw [rollMap, elementCount_eq hpos (hsize.trans signedBound_lt_sizeBound)]
  change (normalShift amount shape.prod >>= _) = _
  rw [normalShift_eq hpos hsize]
  cases (amount % shape.prod).toNat with
  | zero => rfl
  | succ shift => rfl

theorem rollMap_rolls (hpos : 0 < shape.prod) (hsize : shape.prod < signedBound) :
    RollsCyclically (rollMap shape) shape.prod shape.prod (shifted shape.prod) := by
  refine (shifted_acts hpos).rolls hpos fun amount => ⟨_, rollMap_eq hpos hsize, ?_, ?_⟩
  · intro offset hoffset
    rw [(rollMap_eq_ok hsize (rollMap_eq hpos hsize)).apply offset hoffset, unshift_shifted hoffset]
  · exact (ite_identity_iff (by simp)).trans (toNat_emod_eq_zero_iff hpos)

end Flat

/-! ### Rolls along an axis -/

/-- Where the element at an offset gets to when the indices on one axis move up. -/
def movedAlong (shape : List Nat) (axis : Nat) (amount : Int) (offset : Nat) : Nat :=
  position shape ((digits shape offset).modify axis (shifted (shape.getD axis 0) amount))

section Along

variable {shape coordinate : List Nat} {axis axis' size offset : Nat} {a b amount : Int}

theorem within_moved (hwithin : Within shape coordinate) :
    Within shape (coordinate.modify axis (shifted (shape.getD axis 0) amount)) := by
  rw [within_iff_getElem] at hwithin ⊢
  obtain ⟨hlength, hlt⟩ := hwithin
  refine ⟨by rw [List.length_modify, hlength], fun i hi => ?_⟩
  have hindex := hlt i hi
  rw [List.getD_eq_getElem _ _ (by rwa [hlength])] at hindex
  rw [List.getD_eq_getElem _ _ (by rwa [List.length_modify, hlength]), List.getElem_modify]
  split
  · next heq =>
    rw [heq]
    exact shifted_lt (by omega)
  · exact hindex

theorem movedAlong_lt (hoffset : offset < shape.prod) :
    movedAlong shape axis amount offset < shape.prod :=
  position_lt (within_moved (within_digits (by omega) offset))

theorem digits_movedAlong (hoffset : offset < shape.prod) :
    digits shape (movedAlong shape axis amount offset) =
      (digits shape offset).modify axis (shifted (shape.getD axis 0) amount) :=
  digits_position (within_moved (within_digits (by omega) offset))

private theorem getD_of_getElem? (haxis : shape[axis]? = some size) : shape.getD axis 0 = size := by
  rw [List.getD_eq_getElem?_getD, haxis, Option.getD_some]

private theorem modify_eq_self_iff {f : Nat → Nat} (haxis : axis < coordinate.length) :
    coordinate.modify axis f = coordinate ↔ f (coordinate.getD axis 0) = coordinate.getD axis 0 := by
  rw [Eager.modify_eq_set f haxis, List.getD_eq_getElem _ _ haxis]
  constructor
  · intro hstays
    have hget := congrArg (·[axis]?) hstays
    simpa [haxis] using hget
  · intro hindex
    rw [hindex, List.set_getElem_self]

theorem movedAlong_eq_self_iff (haxis : shape[axis]? = some size) (hoffset : offset < shape.prod) :
    movedAlong shape axis amount offset = offset ↔ (size : Int) ∣ amount := by
  have hwithin : Within shape (digits shape offset) := within_digits (by omega) offset
  obtain ⟨hlt, -⟩ := List.getElem?_eq_some_iff.mp haxis
  calc movedAlong shape axis amount offset = offset
      ↔ (digits shape offset).modify axis (shifted (shape.getD axis 0) amount) =
          digits shape offset := by
        rw [← digits_movedAlong hoffset]
        refine ⟨fun h => congrArg _ h, fun h => ?_⟩
        rw [← position_digits (movedAlong_lt hoffset), h, position_digits hoffset]
    _ ↔ shifted size amount ((digits shape offset).getD axis 0) = (digits shape offset).getD axis 0 := by
        rw [modify_eq_self_iff (by rwa [hwithin.length_eq]), getD_of_getElem? haxis]
    _ ↔ (size : Int) ∣ amount := shifted_eq_self_iff (hwithin.getD_lt haxis)

theorem movedAlong_acts (haxis : shape[axis]? = some size) :
    ActsCyclically size shape.prod (movedAlong shape axis) where
  lt _ _ hoffset := movedAlong_lt hoffset
  add a b offset hoffset := by
    have hpos : 0 < shape.getD axis 0 := by
      have := (within_digits (by omega : 0 < shape.prod) offset).getD_lt haxis
      rw [getD_of_getElem? haxis]
      omega
    rw [movedAlong, digits_movedAlong hoffset, List.modify_modify_eq, movedAlong]
    congr 2
    funext index
    exact shifted_shifted hpos
  fixed _ _ hoffset := movedAlong_eq_self_iff haxis hoffset

/-- Moves along different axes do not see each other. -/
theorem movedAlong_comm (haxes : axis ≠ axis') (hoffset : offset < shape.prod) :
    movedAlong shape axis a (movedAlong shape axis' b offset) =
      movedAlong shape axis' b (movedAlong shape axis a offset) := by
  unfold movedAlong
  rw [digits_position (within_moved (within_digits (by omega) offset)),
    digits_position (within_moved (within_digits (by omega) offset)),
    List.modify_modify_ne _ _ _ haxes]

/-- On one axis the index is the offset. -/
theorem movedAlong_single (hoffset : offset < size) :
    movedAlong [size] 0 amount offset = shifted size amount offset := by
  have hdigits : digits [size] offset = [offset] := by
    rw [digits, List.prod_nil, Nat.div_one, Nat.mod_eq_of_lt hoffset, digits]
  rw [movedAlong, hdigits]
  show shifted size amount offset * 1 + 0 = _
  rw [Nat.mul_one, Nat.add_zero]

theorem rollAxisMap_eq (haxis : shape[axis]? = some size) (hpos : 0 < size)
    (hsize : size < signedBound) :
    rollAxisMap shape axis amount = .ok (if (amount % size).toNat = 0 then .identity
      else .rollAxis shape axis (amount % size).toNat) := by
  rw [rollAxisMap, haxis]
  change (liftM (normalShift amount size) >>= _) = _
  rw [normalShift_eq hpos hsize]
  cases (amount % size).toNat with
  | zero => rfl
  | succ shift => rfl

theorem rollAxisMap_rolls (haxis : shape[axis]? = some size) (hpos : 0 < shape.prod)
    (hsize : shape.prod < signedBound) :
    RollsCyclically (rollAxisMap shape axis) size shape.prod (movedAlong shape axis) := by
  have hsizepos : 0 < size :=
    Nat.pos_of_dvd_of_pos (List.dvd_prod (List.mem_of_getElem? haxis)) hpos
  have hmap (amount : Int) : rollAxisMap shape axis amount =
      .ok (if (amount % size).toNat = 0 then .identity
        else .rollAxis shape axis (amount % size).toNat) :=
    rollAxisMap_eq haxis hsizepos ((size_le_prod haxis hpos).trans_lt hsize)
  refine (movedAlong_acts haxis).rolls hpos fun amount => ⟨_, hmap amount, ?_, ?_⟩
  · intro offset hoffset
    obtain ⟨size', haxis', hrearranges⟩ := rollAxisMap_eq_ok hsize (hmap amount)
    cases haxis.symm.trans haxis'
    have hwithin := within_digits hpos offset
    obtain ⟨hlt, -⟩ := List.getElem?_eq_some_iff.mp haxis
    -- the map unshifts one entry of the coordinate, which is to move it by the opposite amount
    rw [hrearranges.apply offset hoffset, unrolled, unshift_shifted (hwithin.getD_lt haxis),
      movedAlong, Eager.modify_eq_set _ (by rwa [hwithin.length_eq]), getD_of_getElem? haxis]
  · exact (ite_identity_iff (by simp)).trans (toNat_emod_eq_zero_iff hsizepos)

/-- Every map of a roll along an axis, the axis that it names being there. -/
theorem rollAxisMap_reads {map : OffsetMap} (hpos : 0 < shape.prod) (hsize : shape.prod < signedBound)
    (hmap : rollAxisMap shape axis amount = .ok map) (offset : Nat) (hoffset : offset < shape.prod) :
    map.apply offset = .ok (movedAlong shape axis (-amount) offset) := by
  obtain ⟨size, haxis, -⟩ := rollAxisMap_eq_ok hsize hmap
  exact ((rollAxisMap_rolls haxis hpos hsize).reads hmap offset hoffset).2

end Along

/-- **Rolls form cyclic groups.** For a shape of positive dimensions whose count is below 2 to the power of
63, a flat roll moves the element at `i` to `i + amount` modulo the count, and a roll along an axis does so
with one index of every coordinate, modulo the length of the axis. Rolls of either kind compose as their
amounts add, change nothing exactly when the amount is a number of laps, which is exactly when the map is the
identity, and never fault on an offset of the array. Rolls along different axes commute, and on one axis the
two kinds are the same. -/
theorem rolls_cyclic (shape : List Nat) (count : Nat) (hcount : elementCount shape = .ok count)
    (hdims : ∀ size ∈ shape, 0 < size) (hfits : count < signedBound) :
    RollsCyclically (rollMap shape) count count (fun amount i => ((i + amount) % count).toNat) ∧
      (∀ axis size, shape[axis]? = some size →
        RollsCyclically (rollAxisMap shape axis) size count (movedAlong shape axis)) ∧
      (∀ axis axis' a b first second, axis ≠ axis' → rollAxisMap shape axis a = .ok first →
        rollAxisMap shape axis' b = .ok second → ∀ offset < count, ∃ source < count,
          (second.apply offset >>= first.apply) = .ok source ∧
            (first.apply offset >>= second.apply) = .ok source) ∧
      ∀ amount flat along, shape.length = 1 → rollMap shape amount = .ok flat →
        rollAxisMap shape 0 amount = .ok along →
          ∀ offset < count, along.apply offset = flat.apply offset := by
  obtain ⟨rfl, -⟩ := eq_of_elementCount hcount
  have hpos : 0 < shape.prod := List.prod_pos hdims
  refine ⟨rollMap_rolls hpos hfits, fun axis size haxis => rollAxisMap_rolls haxis hpos hfits, ?_, ?_⟩
  · intro axis axis' a b first second haxes hfirst hsecond offset hoffset
    have hreads := rollAxisMap_reads hpos hfits hfirst
    have hreads' := rollAxisMap_reads hpos hfits hsecond
    have hlt : movedAlong shape axis (-a) offset < shape.prod := movedAlong_lt hoffset
    have hlt' : movedAlong shape axis' (-b) offset < shape.prod := movedAlong_lt hoffset
    refine ⟨movedAlong shape axis (-a) (movedAlong shape axis' (-b) offset), movedAlong_lt hlt', ?_, ?_⟩
    · rw [hreads' offset hoffset]
      exact hreads _ hlt'
    · rw [hreads offset hoffset, movedAlong_comm haxes hoffset]
      exact hreads' _ hlt
  · intro amount flat along hrank hflat halong offset hoffset
    obtain ⟨size, rfl⟩ := List.length_eq_one_iff.mp hrank
    have hsize : [size].prod = size := List.prod_singleton
    rw [(rollAxisMap_reads hpos hfits halong) offset hoffset,
      ((rollMap_rolls hpos hfits).reads hflat offset hoffset).2, movedAlong_single (by omega), hsize]

/-- A table of two rows, rolled flat by the least signed amount and along its rows. -/
theorem rolls_cyclic_table :
    elementCount [2, 3] = .ok 6 ∧ (∀ size ∈ [2, 3], 0 < size) ∧ 6 < signedBound ∧
      (rollMap [2, 3] (-signedBound)).bind (·.apply 0) = .ok 2 ∧
      RollsCyclically (rollMap [2, 3]) 6 6 (fun amount i => ((i + amount) % 6).toNat) ∧
      RollsCyclically (rollAxisMap [2, 3] 1) 3 6 (movedAlong [2, 3] 1) := by
  have hcount : elementCount [2, 3] = .ok 6 := rfl
  have hdims : ∀ size ∈ [2, 3], 0 < size := by decide
  have hfits : 6 < signedBound := by decide
  obtain ⟨hflat, halong, -, -⟩ := rolls_cyclic [2, 3] 6 hcount hdims hfits
  exact ⟨hcount, hdims, hfits, by decide, hflat, halong 1 3 rfl⟩

end NetArray
