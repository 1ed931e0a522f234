import Mathlib
import NetArray.Proofs.Outcome
import NetArray.Index.RowMajor

/-!
# Coordinates and row-major positions

The row-major arithmetic of `Index/RowMajor.lean` runs on machine-sized counts and may fault. This file
states what it computes, without any bound:

* `Within shape coordinate` — the coordinate lies inside the shape;
* `position shape coordinate` — its place in row-major order;
* `digits shape offset` — the coordinate at a place;
* `coordinates shape` — all coordinates, in row-major order.

`position` and `digits` are inverse to each other between the coordinates inside a shape and the numbers
below its product (`position_digits`, `digits_position`), and places are in the lexicographic order of the
coordinates (`position_lt_position_iff`). The checked functions agree with them as soon as the number of
elements fits (`linearize_eq`, `offsetOf_eq`, `delinearize_eq`, `elementCount_eq`): an intermediate result
of a row-major offset never exceeds the offset itself (`offsetFrom_eq`), so only the last one has to fit.
-/

namespace NetArray

/-- The coordinate has an index on every axis of the shape, and no others. -/
def Within (shape coordinate : List Nat) : Prop :=
  List.Forall₂ (fun size index => index < size) shape coordinate

/-- The place of a coordinate in row-major order. -/
def position : List Nat → List Nat → Nat
  | _ :: shape, index :: coordinate => index * shape.prod + position shape coordinate
  | _, _ => 0

/-- The coordinate at a place of the row-major order. -/
def digits : List Nat → Nat → List Nat
  | [], _ => []
  | size :: shape, offset => offset / shape.prod % size :: digits shape offset

/-! ### Numbers of two digits -/

section Digits

variable {base count first first' second second' : Nat}

theorem mul_add_lt_mul (hfirst : first < count) (hsecond : second < base) :
    first * base + second < count * base := by
  calc first * base + second
      < first * base + base := Nat.add_lt_add_left hsecond _
    _ = (first + 1) * base := (Nat.succ_mul _ _).symm
    _ ≤ count * base := Nat.mul_le_mul_right _ hfirst

/-- The first digits decide which number is smaller, and the second ones where the first agree. -/
theorem mul_add_lt_mul_add_iff (hsecond : second < base) (hsecond' : second' < base) :
    first * base + second < first' * base + second' ↔ first < first' ∨ first = first' ∧ second < second' := by
  rcases lt_trichotomy first first' with hlt | rfl | hgt
  · have hbelow : first * base + second < first' * base := mul_add_lt_mul hlt hsecond
    exact iff_of_true (by omega) (.inl hlt)
  · omega
  · have habove : first' * base + second' < first * base := mul_add_lt_mul hgt hsecond'
    exact iff_of_false (by omega) (by omega)

end Digits

section Within

variable {shape coordinate : List Nat}

theorem within_nil_iff : Within [] coordinate ↔ coordinate = [] :=
  List.forall₂_nil_left_iff

theorem Within.length_eq (h : Within shape coordinate) : coordinate.length = shape.length :=
  (List.Forall₂.length_eq h).symm

theorem within_iff_getElem :
    Within shape coordinate ↔ coordinate.length = shape.length ∧
      ∀ axis < shape.length, coordinate.getD axis 0 < shape.getD axis 0 := by
  unfold Within
  rw [List.forall₂_iff_get]
  constructor
  · rintro ⟨hlen, h⟩
    refine ⟨hlen.symm, fun axis haxis => ?_⟩
    have := h axis haxis (hlen ▸ haxis)
    rwa [List.getD_eq_getElem _ _ (hlen ▸ haxis), List.getD_eq_getElem _ _ haxis]
  · rintro ⟨hlen, h⟩
    refine ⟨hlen.symm, fun axis haxis hcoord => ?_⟩
    have := h axis haxis
    rwa [List.getD_eq_getElem _ _ hcoord, List.getD_eq_getElem _ _ haxis] at this

/-- A shape with a coordinate has no empty axis. -/
theorem Within.prod_pos (h : Within shape coordinate) : 0 < shape.prod := by
  induction h with
  | nil => exact Nat.one_pos
  | cons hindex _ ih =>
    rw [List.prod_cons]
    exact Nat.mul_pos (by omega) ih

theorem position_lt (h : Within shape coordinate) : position shape coordinate < shape.prod := by
  induction h with
  | nil => exact Nat.one_pos
  | @cons size index shape coordinate hindex _ ih =>
    rw [List.prod_cons, position]
    exact mul_add_lt_mul hindex ih

/-- Places are in the lexicographic order of the coordinates. -/
theorem position_lt_position_iff {coordinate' : List Nat} (h : Within shape coordinate)
    (h' : Within shape coordinate') :
    position shape coordinate < position shape coordinate' ↔ coordinate < coordinate' := by
  induction h generalizing coordinate' with
  | nil =>
    rw [within_nil_iff.mp h']
    exact iff_of_false (lt_irrefl 0) (List.lt_irrefl [])
  | @cons size index shape coordinate _ hrest ih =>
    obtain ⟨index', rest', -, hrest', rfl⟩ := List.forall₂_cons_left_iff.mp h'
    rw [position, position, mul_add_lt_mul_add_iff (position_lt hrest) (position_lt hrest'), ih hrest',
      List.cons_lt_cons_iff]

/-- Coordinates at the same place are the same. -/
theorem position_inj {coordinate' : List Nat} (h : Within shape coordinate)
    (h' : Within shape coordinate') (heq : position shape coordinate = position shape coordinate') :
    coordinate = coordinate' := by
  rcases lt_trichotomy coordinate coordinate' with hlt | hsame | hgt
  · exact absurd heq ((position_lt_position_iff h h').mpr hlt).ne
  · exact hsame
  · exact absurd heq ((position_lt_position_iff h' h).mpr hgt).ne'

end Within

/-! ### Digits -/

/-- The axes of a shape without empty axes have positive lengths. -/
theorem prod_pos_cons {size : Nat} {shape : List Nat} (h : 0 < (size :: shape).prod) :
    0 < size ∧ 0 < shape.prod := by
  rw [List.prod_cons] at h
  exact ⟨Nat.pos_of_mul_pos_right h, Nat.pos_of_mul_pos_left h⟩

/-- Where no axis is empty, the products of the first axes only grow. -/
theorem prod_prefix_le {front shape : List Nat} (hfront : front <+: shape) (hpos : 0 < shape.prod) :
    front.prod ≤ shape.prod := by
  obtain ⟨back, rfl⟩ := hfront
  rw [List.prod_append] at hpos ⊢
  exact Nat.le_mul_of_pos_right _ (Nat.pos_of_mul_pos_left hpos)

theorem within_digits {shape : List Nat} (h : 0 < shape.prod) (offset : Nat) :
    Within shape (digits shape offset) := by
  induction shape with
  | nil => exact .nil
  | cons size shape ih =>
    obtain ⟨hsize, hshape⟩ := prod_pos_cons h
    exact .cons (Nat.mod_lt _ hsize) (ih hshape)

/-- The digits say where an offset lies within a period of the shape. -/
theorem position_digits_mod {shape : List Nat} (h : 0 < shape.prod) (offset : Nat) :
    position shape (digits shape offset) = offset % shape.prod := by
  induction shape with
  | nil => rw [List.prod_nil, Nat.mod_one]; rfl
  | cons size shape ih =>
    rw [digits, position, ih (prod_pos_cons h).2, List.prod_cons, Nat.mul_comm size,
      Nat.mod_mul, Nat.mul_comm, Nat.add_comm]

/-- The place of the coordinate at a place. -/
theorem position_digits {shape : List Nat} {offset : Nat} (h : offset < shape.prod) :
    position shape (digits shape offset) = offset := by
  rw [position_digits_mod (by omega), Nat.mod_eq_of_lt h]

/-- The coordinate at the place of a coordinate. -/
theorem digits_position {shape coordinate : List Nat} (h : Within shape coordinate) :
    digits shape (position shape coordinate) = coordinate :=
  position_inj (within_digits h.prod_pos _) h (position_digits (position_lt h))

theorem digits_add_mul (shape : List Nat) (offset count : Nat) :
    digits shape (count * shape.prod + offset) = digits shape offset := by
  rcases Nat.eq_zero_or_pos shape.prod with hzero | hpos
  · -- with an empty axis there is nothing to add
    rw [hzero, Nat.mul_zero, Nat.zero_add]
  · refine position_inj (within_digits hpos _) (within_digits hpos _) ?_
    rw [position_digits_mod hpos, position_digits_mod hpos, Nat.mul_comm, Nat.mul_add_mod]

/-! ### All coordinates of a shape -/

/-- All coordinates inside a shape, in row-major order. -/
def coordinates : List Nat → List (List Nat)
  | [] => [[]]
  | size :: shape => (List.range size).flatMap fun index => (coordinates shape).map (index :: ·)

/-- Counting in blocks of `block` numbers. -/
private theorem range_mul (count block : Nat) :
    List.range (count * block)
      = (List.range count).flatMap fun number => (List.range block).map (number * block + ·) := by
  induction count with
  | zero => rw [Nat.zero_mul]; rfl
  | succ count ih =>
    rw [Nat.succ_mul, List.range_add, ih, List.range_succ, List.flatMap_append, List.flatMap_singleton]

/-- The coordinates of a shape are those at its places, in this order. -/
theorem coordinates_eq (shape : List Nat) :
    coordinates shape = (List.range shape.prod).map (digits shape) := by
  induction shape with
  | nil => rfl
  | cons size shape ih =>
    rw [coordinates, ih, List.prod_cons, range_mul, List.map_flatMap]
    -- block number `index` of the places has this leading index
    refine List.flatMap_congr fun index hindex => ?_
    rw [List.map_map, List.map_map]
    refine List.map_congr_left fun offset hoffset => ?_
    rw [List.mem_range] at hindex hoffset
    simp only [Function.comp_apply, digits]
    rw [digits_add_mul, Nat.mul_comm index, Nat.mul_add_div (by omega), Nat.div_eq_of_lt hoffset,
      Nat.add_zero, Nat.mod_eq_of_lt hindex]

/-- The places of all coordinates are the numbers below the number of elements. -/
theorem positions_coordinates (shape : List Nat) :
    (coordinates shape).map (position shape) = List.range shape.prod := by
  rw [coordinates_eq, List.map_map]
  refine (List.map_congr_left fun offset hoffset => ?_).trans (List.map_id _)
  exact position_digits (List.mem_range.mp hoffset)

@[simp] theorem length_coordinates (shape : List Nat) :
    (coordinates shape).length = shape.prod := by
  rw [coordinates_eq, List.length_map, List.length_range]

theorem getElem?_coordinates {shape coordinate : List Nat} (h : Within shape coordinate) :
    (coordinates shape)[position shape coordinate]? = some coordinate := by
  rw [coordinates_eq, List.getElem?_map, List.getElem?_range (position_lt h), Option.map_some,
    digits_position h]

theorem mem_coordinates {shape coordinate : List Nat} :
    coordinate ∈ coordinates shape ↔ Within shape coordinate := by
  constructor
  · rw [coordinates_eq, List.mem_map]
    rintro ⟨offset, hoffset, rfl⟩
    rw [List.mem_range] at hoffset
    exact within_digits (by omega) offset
  · exact fun h => List.mem_of_getElem? (getElem?_coordinates h)

theorem nodup_coordinates (shape : List Nat) : (coordinates shape).Nodup := by
  rw [coordinates_eq]
  refine List.Nodup.map_on (fun a ha b hb heq => ?_) List.nodup_range
  rw [List.mem_range] at ha hb
  rw [← position_digits ha, ← position_digits hb, heq]

/-! ### What the checked arithmetic computes -/

theorem productFrom_eq {start : Nat} {shape : List Nat} (hpos : 0 < shape.prod)
    (h : start * shape.prod < sizeBound) : productFrom start shape = .ok (start * shape.prod) := by
  induction shape generalizing start with
  | nil => rw [List.prod_nil, Nat.mul_one]; rfl
  | cons dim shape ih =>
    have hshape := (prod_pos_cons hpos).2
    -- the product so far is at most the whole one, as no later axis is empty
    rw [List.prod_cons, ← Nat.mul_assoc] at h ⊢
    have hstep : start * dim < sizeBound := lt_of_le_of_lt (Nat.le_mul_of_pos_right _ hshape) h
    rw [productFrom, bind_eq_ok]
    exact ⟨_, sized_eq_ok.mpr ⟨hstep, rfl⟩, ih hshape h⟩

theorem eq_of_productFrom {start count : Nat} {shape : List Nat} (hstart : start < sizeBound)
    (h : productFrom start shape = .ok count) : count = start * shape.prod ∧ count < sizeBound := by
  induction shape generalizing start with
  | nil =>
    cases h
    exact ⟨by rw [List.prod_nil, Nat.mul_one], hstart⟩
  | cons dim shape ih =>
    rw [productFrom, bind_eq_ok] at h
    obtain ⟨scaled, hscaled, h⟩ := h
    obtain ⟨hlt, rfl⟩ := sized_eq_ok.mp hscaled
    rw [List.prod_cons, ← Nat.mul_assoc]
    exact ih hlt h

theorem elementCount_eq {shape : List Nat} (hpos : 0 < shape.prod) (h : shape.prod < sizeBound) :
    elementCount shape = .ok shape.prod := by
  have hfits : 1 * shape.prod < sizeBound := by rwa [Nat.one_mul]
  have := productFrom_eq hpos hfits
  rwa [Nat.one_mul] at this

theorem eq_of_elementCount {shape : List Nat} {count : Nat} (h : elementCount shape = .ok count) :
    count = shape.prod ∧ count < sizeBound := by
  have := eq_of_productFrom (by decide) h
  rwa [Nat.one_mul] at this

/-- Appending one digit, and then the others, is appending all of them. -/
theorem append_position_cons (offset dim index : Nat) (shape coordinate : List Nat) :
    offset * (dim :: shape).prod + position (dim :: shape) (index :: coordinate)
      = (offset * dim + index) * shape.prod + position shape coordinate := by
  rw [List.prod_cons, position]
  ring

/-- Appending the digits of a coordinate to a number whose result fits. -/
theorem offsetFrom_eq {offset : Nat} {shape coordinate : List Nat} (hwithin : Within shape coordinate)
    (h : offset * shape.prod + position shape coordinate < sizeBound) :
    offsetFrom offset shape coordinate = .ok (offset * shape.prod + position shape coordinate) := by
  induction hwithin generalizing offset with
  | nil => rw [List.prod_nil, Nat.mul_one]; rfl
  | @cons dim index shape coordinate _ hrest ih =>
    rw [append_position_cons] at h ⊢
    -- the number so far is at most its own multiple by the axes that follow
    have hnext : offset * dim + index ≤ (offset * dim + index) * shape.prod :=
      Nat.le_mul_of_pos_right _ (Within.prod_pos hrest)
    simp only [offsetFrom, bind_eq_ok, sized_eq_ok]
    exact ⟨_, ⟨by omega, rfl⟩, _, ⟨by omega, rfl⟩, ih h⟩

theorem offsetOf_eq {shape coordinate : List Nat} (hwithin : Within shape coordinate)
    (hsize : shape.prod < sizeBound) : offsetOf shape coordinate = .ok (position shape coordinate) := by
  have hfits : 0 * shape.prod + position shape coordinate < sizeBound := by
    rw [Nat.zero_mul, Nat.zero_add]
    exact (position_lt hwithin).trans hsize
  have := offsetFrom_eq hwithin hfits
  rwa [Nat.zero_mul, Nat.zero_add] at this

/-- Appending digits with a check of each index is appending digits, inside the shape. -/
theorem linearizeFrom_eq {axis offset : Nat} {shape coordinate : List Nat}
    (hwithin : Within shape coordinate) :
    linearizeFrom axis offset shape coordinate
      = (liftM (offsetFrom offset shape coordinate) : Attempt IndexError Nat) := by
  induction hwithin generalizing axis offset with
  | nil => rfl
  | @cons dim index shape coordinate hindex _ ih =>
    rw [linearizeFrom, offsetFrom, if_pos hindex, lift_checked_bind]
    simp only [lift_checked_bind, ih]

theorem linearize_eq {shape coordinate : List Nat} (hwithin : Within shape coordinate)
    (hsize : shape.prod < sizeBound) : linearize shape coordinate = .ok (position shape coordinate) := by
  rw [linearize, if_pos hwithin.length_eq, linearizeFrom_eq hwithin]
  exact congrArg liftM (offsetOf_eq hwithin hsize)

theorem within_of_linearizeFrom {axis offset result : Nat} {shape coordinate : List Nat}
    (hlength : coordinate.length = shape.length)
    (h : linearizeFrom axis offset shape coordinate = .ok result) : Within shape coordinate := by
  induction shape generalizing axis offset coordinate with
  | nil => rw [List.length_eq_zero_iff.mp hlength]; exact .nil
  | cons dim shape ih =>
    obtain ⟨index, coordinate, rfl⟩ := List.exists_cons_of_length_eq_add_one hlength
    rw [linearizeFrom] at h
    split at h
    · next hindex =>
      simp only [bind_eq_ok] at h
      obtain ⟨_, -, _, -, h⟩ := h
      exact .cons hindex (ih (Nat.succ.inj hlength) h)
    · cases h

theorem eq_of_offsetFrom {offset result : Nat} {shape coordinate : List Nat}
    (hwithin : Within shape coordinate) (h : offsetFrom offset shape coordinate = .ok result) :
    result = offset * shape.prod + position shape coordinate := by
  induction hwithin generalizing offset with
  | nil => cases h; rw [List.prod_nil, Nat.mul_one]; rfl
  | @cons dim index shape coordinate _ _ ih =>
    simp only [offsetFrom, bind_eq_ok, sized_eq_ok] at h
    obtain ⟨_, ⟨-, rfl⟩, _, ⟨-, rfl⟩, h⟩ := h
    rw [ih h, append_position_cons]

/-- A coordinate that has an offset lies inside the shape, and the offset is its place. -/
theorem eq_of_linearize {shape coordinate : List Nat} {offset : Nat}
    (h : linearize shape coordinate = .ok offset) :
    Within shape coordinate ∧ offset = position shape coordinate := by
  rw [linearize] at h
  split at h
  · next hlength =>
    have hwithin := within_of_linearizeFrom hlength h
    rw [linearizeFrom_eq hwithin, lift_checked_eq_ok] at h
    refine ⟨hwithin, ?_⟩
    rw [eq_of_offsetFrom hwithin h, Nat.zero_mul, Nat.zero_add]
  · cases h

theorem splitDigits_eq {shape : List Nat} (h : 0 < shape.prod) (offset : Nat) :
    splitDigits shape offset = .ok (digits shape offset, offset / shape.prod) := by
  induction shape with
  | nil => rw [List.prod_nil, Nat.div_one]; rfl
  | cons size shape ih =>
    obtain ⟨hsize, hshape⟩ := prod_pos_cons h
    rw [splitDigits, ih hshape]
    change (if size = 0 then _ else _) = _
    rw [if_neg (by omega), digits, List.prod_cons, Nat.div_div_eq_div_mul, Nat.mul_comm size]

theorem delinearize_eq {shape : List Nat} (h : 0 < shape.prod) (offset : Nat) :
    delinearize shape offset = .ok (digits shape offset) := by
  rw [delinearize, splitDigits_eq h]
  rfl

end NetArray
