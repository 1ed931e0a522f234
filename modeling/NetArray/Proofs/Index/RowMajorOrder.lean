import Mathlib
import NetArray.Proofs.Index.Coordinates

/-!
# Row-major indexing is an order isomorphism

The loop that computes an offset goes through the axes from the first to the last and appends one index after the other
to a number; the loop that undoes it splits the indices off from the last axis to the first. Neither is written in terms
of the other. What relates them is the place of a coordinate in row-major order (`position`), to which both are equal,
and which orders the coordinates as the dictionary does.

* `linearizeFrom_cons` is one step of the first loop, `linearizeFrom_append` a run of it over any number of axes. The
  number it holds stays below the number of places that the axes so far make up, so that it fits whenever the elements
  can be counted (`runsBelow`), and no coordinate leads to a fault (`linearize_cases`).
* `rowMajor` is the isomorphism, between the coordinates inside a shape and the numbers below the number of elements.
* `linearize_orderIso` says that the machine arithmetic computes it.
-/

namespace NetArray

variable {shape coordinate front back first last : List Nat} {axis offset size index : Nat}

/-! ### The loop over a coordinate -/

/-- **One step.** An index on its axis is appended to the number, if the result fits. -/
theorem linearizeFrom_cons (hindex : index < size) (hnext : offset * size + index < sizeBound) :
    linearizeFrom axis offset (size :: shape) (index :: coordinate)
      = linearizeFrom (axis + 1) (offset * size + index) shape coordinate := by
  have hscaled : sized (offset * size) = .ok (offset * size) := sized_eq_ok.mpr ⟨by omega, rfl⟩
  have hsum : sized (offset * size + index) = .ok (offset * size + index) := sized_eq_ok.mpr ⟨hnext, rfl⟩
  rw [linearizeFrom, if_pos hindex, hscaled]
  change (liftM (sized (offset * size + index)) >>= _ : Attempt IndexError Nat) = _
  rw [hsum]
  rfl

/-- **A whole run.** Behind axes whose indices lie inside, the loop holds their place, appended to what it started
with. -/
theorem linearizeFrom_append (hfirst : Within front first)
    (hfits : offset * front.prod + position front first < sizeBound) :
    linearizeFrom axis offset (front ++ back) (first ++ last)
      = linearizeFrom (axis + front.length) (offset * front.prod + position front first) back last := by
  induction hfirst generalizing axis offset with
  | nil =>
    rw [List.prod_nil, Nat.mul_one]
    rfl
  | @cons size index front first hindex hrest ih =>
    rw [append_position_cons] at hfits ⊢
    -- what one step holds is at most what the run holds in the end
    have hnext : offset * size + index ≤ (offset * size + index) * front.prod :=
      Nat.le_mul_of_pos_right _ (Within.prod_pos hrest)
    rw [List.cons_append, List.cons_append, linearizeFrom_cons hindex (by omega), ih hfits, List.length_cons,
      Nat.add_assoc, Nat.add_comm 1]

/-- An index that is not on its axis is found before anything outgrows a machine number, if the elements can be
counted. -/
theorem linearizeFrom_ne_fault {start count : Nat} (hcount : productFrom start shape = .ok count)
    (hoffset : offset < start) (kind : Fault) : linearizeFrom axis offset shape coordinate ≠ .error (.fault kind) := by
  induction shape generalizing axis start offset coordinate with
  | nil => cases coordinate <;> (intro hfault; cases hfault)
  | cons size shape ih =>
    cases coordinate with
    | nil => intro hfault; cases hfault
    | cons index coordinate =>
      obtain ⟨scaled, hscaled, hrest⟩ := bind_eq_ok.mp hcount
      obtain ⟨hlt, rfl⟩ := sized_eq_ok.mp hscaled
      by_cases hindex : index < size
      · -- the number stays below the product of the axes so far
        have hnext : offset * size + index < start * size := mul_add_lt_mul hoffset hindex
        rw [linearizeFrom_cons hindex (hnext.trans hlt)]
        exact ih hrest hnext
      · rw [linearizeFrom, if_neg hindex]
        intro hfault
        cases hfault

/-- A coordinate has an offset if it lies inside the shape, and is refused otherwise. -/
theorem linearize_cases {count : Nat} (hcount : elementCount shape = .ok count) (coordinate : List Nat) :
    Within shape coordinate ∧ linearize shape coordinate = .ok (position shape coordinate) ∨
      ¬Within shape coordinate ∧ ∃ cause, linearize shape coordinate = .error (.refused cause) := by
  cases hoffset : linearize shape coordinate with
  | ok offset =>
    obtain ⟨hwithin, rfl⟩ := eq_of_linearize hoffset
    exact .inl ⟨hwithin, rfl⟩
  | error failure =>
    obtain ⟨rfl, hlt⟩ := eq_of_elementCount hcount
    refine .inr ⟨fun hwithin => ?_, ?_⟩
    · cases hoffset.symm.trans (linearize_eq hwithin hlt)
    · cases failure with
      | refused cause => exact ⟨cause, rfl⟩
      | fault kind =>
        rw [linearize] at hoffset
        split at hoffset
        · exact absurd hoffset (linearizeFrom_ne_fault hcount Nat.one_pos kind)
        · cases hoffset

/-! ### What the loop holds on its way -/

/-- All that is computed on the way to the offset of a coordinate is below a bound. When the loop gets to an axis, it
holds the offset of the indices before it, in the axes before it; this is multiplied by the size of the axis, and then
the index is added. -/
def RunsBelow (bound : Nat) (shape coordinate : List Nat) : Prop :=
  ∀ axis size index, shape[axis]? = some size → coordinate[axis]? = some index →
    ∃ held, linearize (shape.take axis) (coordinate.take axis) = .ok held ∧
      linearize shape coordinate = linearizeFrom axis held (shape.drop axis) (coordinate.drop axis) ∧
      held * size + index < bound

theorem Within.take (h : Within shape coordinate) (axis : Nat) :
    Within (shape.take axis) (coordinate.take axis) :=
  List.forall₂_take axis h

/-- Nothing on the way to an offset reaches the number of elements. -/
theorem runsBelow (hwithin : Within shape coordinate) (hfits : shape.prod < sizeBound) :
    RunsBelow shape.prod shape coordinate := by
  intro axis size index hsize hindex
  obtain ⟨haxis, rfl⟩ := List.getElem?_eq_some_iff.mp hsize
  obtain ⟨haxis', rfl⟩ := List.getElem?_eq_some_iff.mp hindex
  have hfront : Within (shape.take axis) (coordinate.take axis) := hwithin.take axis
  have hplaces (axes : Nat) : (shape.take axes).prod ≤ shape.prod :=
    prod_prefix_le (List.take_prefix axes shape) hwithin.prod_pos
  have hheld : (shape.take axis).prod < sizeBound := (hplaces axis).trans_lt hfits
  refine ⟨_, linearize_eq hfront hheld, ?_, ?_⟩
  · -- the loop over all axes runs over the first ones before it gets to the others
    have hrun := @linearizeFrom_append _ (shape.drop axis) _ (coordinate.drop axis) 0 0 hfront
      (by rw [Nat.zero_mul, Nat.zero_add]; exact (position_lt hfront).trans hheld)
    rw [List.take_append_drop, List.take_append_drop, Nat.zero_mul, Nat.zero_add, Nat.zero_add,
      List.length_take_of_le haxis.le] at hrun
    rw [linearize, if_pos hwithin.length_eq, hrun]
  · have hindexed : coordinate[axis] < shape[axis] := hwithin.get haxis haxis'
    calc position (shape.take axis) (coordinate.take axis) * shape[axis] + coordinate[axis]
        < (shape.take axis).prod * shape[axis] := mul_add_lt_mul (position_lt hfront) hindexed
      _ = (shape.take (axis + 1)).prod := (List.prod_take_succ shape axis haxis).symm
      _ ≤ shape.prod := hplaces (axis + 1)

/-! ### The isomorphism -/

/-- A coordinate inside a shape. Lists of indices are ordered lexicographically, and so are coordinates. -/
abbrev Coordinate (shape : List Nat) : Type :=
  {coordinate : List Nat // Within shape coordinate}

/-- Row-major order: the coordinates inside a shape are, in lexicographic order, the numbers below the number of its
elements. -/
def rowMajor (shape : List Nat) : Coordinate shape ≃o Fin shape.prod where
  toFun coordinate := ⟨position shape coordinate, position_lt coordinate.property⟩
  invFun offset := ⟨digits shape offset, within_digits (Nat.zero_lt_of_lt offset.isLt) offset⟩
  left_inv coordinate := Subtype.ext (digits_position coordinate.property)
  right_inv offset := Fin.ext (position_digits offset.isLt)
  map_rel_iff' := by
    intro coordinate coordinate'
    have hlt := position_lt_position_iff coordinate'.property coordinate.property
    exact not_lt.symm.trans ((not_congr hlt).trans not_lt)

/-- **Row-major indexing is an order isomorphism.** Let no axis of a shape be empty and its number of elements be a
machine number, so that they can be counted. Then exactly the coordinates inside the shape have an offset, and the
others are refused; on the way to an offset nothing reaches the number of elements; and there is an isomorphism between
the coordinates inside the shape, in lexicographic order, and the offsets below the number of elements, such that
`linearize` computes its values (as `offsetOf` does, without the checks) and `delinearize` those of its inverse. So
each of the two undoes the other. -/
theorem linearize_orderIso {shape : List Nat} (hpos : ∀ size ∈ shape, 0 < size) (hfits : shape.prod < sizeBound) :
    elementCount shape = .ok shape.prod ∧
      (∀ coordinate, ((∃ offset, linearize shape coordinate = .ok offset) ↔ Within shape coordinate) ∧
        (¬Within shape coordinate → ∃ cause, linearize shape coordinate = .error (.refused cause))) ∧
      (∀ coordinate, Within shape coordinate → RunsBelow shape.prod shape coordinate) ∧
      ∃ order : Coordinate shape ≃o Fin shape.prod,
        (∀ coordinate coordinate' : Coordinate shape, order coordinate < order coordinate' ↔
          List.Lex (· < ·) coordinate.val coordinate'.val) ∧
        (∀ coordinate : Coordinate shape, linearize shape coordinate = .ok (order coordinate : Nat) ∧
          offsetOf shape coordinate = .ok (order coordinate : Nat)) ∧
        ∀ offset : Fin shape.prod, delinearize shape offset = .ok (order.symm offset).val := by
  have hprod : 0 < shape.prod := List.prod_pos hpos
  have hcount : elementCount shape = .ok shape.prod := elementCount_eq hprod hfits
  refine ⟨hcount, fun coordinate => ?_, fun _ hwithin => runsBelow hwithin hfits, rowMajor shape, ?_, ?_, ?_⟩
  · rcases linearize_cases hcount coordinate with ⟨hwithin, hoffset⟩ | ⟨houtside, hrefused⟩
    · exact ⟨⟨fun _ => hwithin, fun _ => ⟨_, hoffset⟩⟩, fun houtside => absurd hwithin houtside⟩
    · refine ⟨⟨fun hanswer => ?_, fun hwithin => absurd hwithin houtside⟩, fun _ => hrefused⟩
      obtain ⟨offset, hoffset⟩ := hanswer
      exact (eq_of_linearize hoffset).1
  · intro coordinate coordinate'
    exact position_lt_position_iff coordinate.property coordinate'.property
  · intro coordinate
    exact ⟨linearize_eq coordinate.property hfits, offsetOf_eq coordinate.property hfits⟩
  · intro offset
    exact delinearize_eq hprod offset

/-- Three axes that have together almost as many elements as a machine can count. -/
def longAxes : List Nat := [65536, 4294967295, 65536]

/-- The last coordinate has the last offset, and leads back. The next index on the middle axis is one too many. -/
theorem linearize_orderIso_longAxes :
    (∀ size ∈ longAxes, 0 < size) ∧ longAxes.prod < sizeBound ∧
      RunsBelow longAxes.prod longAxes [65535, 4294967294, 65535] ∧
      linearize longAxes [65535, 4294967294, 65535] = .ok 18446744069414584319 ∧
      delinearize longAxes 18446744069414584319 = .ok [65535, 4294967294, 65535] ∧
      ∃ cause, linearize longAxes [0, 4294967295, 0] = .error (.refused cause) := by
  have hpos : ∀ size ∈ longAxes, 0 < size := by decide
  have hfits : longAxes.prod < sizeBound := by decide
  have hlast : Within longAxes [65535, 4294967294, 65535] :=
    .cons (by decide) (.cons (by decide) (.cons (by decide) .nil))
  have hbeyond : ¬Within longAxes [0, 4294967295, 0] := by
    intro hwithin
    have hmiddle := (within_iff_getElem.mp hwithin).2 1 (by decide)
    exact absurd hmiddle (by decide)
  obtain ⟨-, hcoordinates, hruns, order, -, hlinearize, hdelinearize⟩ := linearize_orderIso hpos hfits
  have hoffset : linearize longAxes [65535, 4294967294, 65535] = .ok 18446744069414584319 := rfl
  have hback := hdelinearize (order ⟨_, hlast⟩)
  have hplace : (order ⟨_, hlast⟩).val = 18446744069414584319 :=
    Except.ok.inj ((hlinearize ⟨_, hlast⟩).1.symm.trans hoffset)
  rw [order.symm_apply_apply, hplace] at hback
  exact ⟨hpos, hfits, hruns _ hlast, hoffset, hback, (hcoordinates _).2 hbeyond⟩

end NetArray
