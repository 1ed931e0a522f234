import Mathlib
import NetArray.Proofs.Index.Coordinates
import NetArray.Index.Selection

/-!
# An odometer runs through all tuples

`readOdometer` reads an odometer off, turns it one on, and stops when all its wheels have come round. Read as digits,
the wheels count: if they stand at the digits of a number, one turn leads to those of the next number, and they come
round where the number would outgrow the product of the sizes (`turn_digits`). So the odometer shows each combination
of indices once, in lexicographic order, and stops after as many readings as there are combinations
(`readOdometer_eq`).

`tuples` lists the combinations without any wheels.
-/

namespace NetArray

/-- All ways to take one entry of each list, in lexicographic order. -/
def tuples : List (List Nat) → List (List Nat)
  | [] => [[]]
  | entries :: lists =>
    let rest := tuples lists
    entries.flatMap fun entry => rest.map (entry :: ·)

/-- The tuples of all indices of all axes are the coordinates. -/
theorem tuples_whole (shape : List Nat) : tuples (shape.map (List.range' 0)) = coordinates shape := by
  induction shape with
  | nil => rfl
  | cons size shape ih => rw [List.map_cons, tuples, coordinates, ih, List.range_eq_range']

/-- The offsets of a list of coordinates that lie inside the shape. -/
def offsetsOf (shape : List Nat) (coordinates : List (List Nat)) : Checked (List Nat) :=
  coordinates.mapM (offsetOf shape)

/-- The indices that the wheels stand for. -/
def shown : List AxisChoice → (wheels : List Nat) → List Nat :=
  List.zipWith fun choice wheel => choice.first + choice.step * wheel

/-- How many indices there are along each axis. -/
def sizes (axes : List AxisChoice) : List Nat :=
  axes.map (·.count)

variable {shape : List Nat} {axes : List AxisChoice} {wheels : List Nat}

/-! ### Readings -/

/-- The indices along an axis, in the order of their places. -/
theorem AxisChoice.indices_eq_map (choice : AxisChoice) :
    choice.indices = (List.range choice.count).map fun place => choice.first + choice.step * place := by
  refine List.ext_getElem ?_ fun place _ _ => ?_
  · rw [indices, List.length_range', List.length_map, List.length_range]
  · simp only [indices, List.getElem_range', List.getElem_map, List.getElem_range]

/-- Wheels that stand at places of their lists can be read off. -/
theorem reading_eq (h : Within (sizes axes) wheels) : reading axes wheels = .ok (shown axes wheels) := by
  induction axes generalizing wheels with
  | nil => rfl
  | cons choice axes ih =>
    obtain ⟨wheel, wheels, hwheel, hwheels, rfl⟩ := List.forall₂_cons_left_iff.mp h
    rw [reading, AxisChoice.index, if_pos hwheel, ih hwheels]
    rfl

/-- The tuples of the listed indices are what the wheels show, at one combination of places after the other. -/
theorem tuples_eq (axes : List AxisChoice) :
    tuples (axes.map (·.indices)) = (coordinates (sizes axes)).map (shown axes) := by
  induction axes with
  | nil => rfl
  | cons choice axes ih =>
    change tuples (choice.indices :: axes.map (·.indices))
      = (coordinates (choice.count :: sizes axes)).map (shown (choice :: axes))
    rw [tuples, coordinates, ih, List.map_flatMap, AxisChoice.indices_eq_map, List.flatMap_map]
    refine List.flatMap_congr fun place _ => ?_
    rw [List.map_map, List.map_map]
    rfl

/-! ### Turning -/

/-- **One turn.** Wheels that stand at the digits of a number turn to those of the next number. They have come round
when that is a multiple of the product of the sizes. -/
theorem turn_digits (hpos : 0 < (sizes axes).prod) (number : Nat) :
    turn axes (digits (sizes axes) number)
      = (decide ((number + 1) % (sizes axes).prod = 0), digits (sizes axes) (number + 1)) := by
  induction axes with
  | nil => simp [turn, sizes, digits, Nat.mod_one]
  | cons choice axes ih =>
    obtain ⟨hsize, hrest⟩ := prod_pos_cons (show 0 < (choice.count :: sizes axes).prod from hpos)
    change turn (choice :: axes) (number / (sizes axes).prod % choice.count :: digits (sizes axes) number)
      = (decide ((number + 1) % (choice.count * (sizes axes).prod) = 0),
        (number + 1) / (sizes axes).prod % choice.count :: digits (sizes axes) (number + 1))
    rw [turn, ih hrest, Nat.mul_comm, Nat.mod_mul]
    by_cases hround : (number + 1) % (sizes axes).prod = 0
    · -- the wheels behind have come round, so this one turns
      have hnext : (number + 1) / (sizes axes).prod = number / (sizes axes).prod + 1 := by
        rw [Nat.succ_div, if_pos (Nat.dvd_of_mod_eq_zero hround)]
      have hwheel : (number / (sizes axes).prod + 1) % choice.count
          = (number / (sizes axes).prod % choice.count + 1) % choice.count := (Nat.mod_add_mod ..).symm
      rw [hnext, hwheel, hround]
      by_cases hturn : number / (sizes axes).prod % choice.count + 1 < choice.count
      · simp [hturn, Nat.mod_eq_of_lt hturn, hrest.ne']
      · have hfull : number / (sizes axes).prod % choice.count + 1 = choice.count :=
          le_antisymm (Nat.mod_lt _ hsize) (Nat.not_lt.mp hturn)
        simp [hfull]
    · -- a wheel behind has not come round, so this one stands still
      have hsame : (number + 1) / (sizes axes).prod = number / (sizes axes).prod := by
        rw [Nat.succ_div, if_neg fun hdvd => hround (Nat.mod_eq_zero_of_dvd hdvd), Nat.add_zero]
      rw [hsame]
      simp [hround]

/-- At the start all wheels stand at zero. -/
theorem digits_zero (shape : List Nat) : digits shape 0 = shape.map fun _ => 0 := by
  induction shape with
  | nil => rfl
  | cons size shape ih => rw [digits, ih, Nat.zero_div, Nat.zero_mod, List.map_cons]

/-! ### All readings -/

/-- **The loop.** From the digits of a number on, an odometer reads off what is left, and then stops. -/
theorem readOdometer_digits {bound number : Nat} (hbound : 0 < bound) (hend : number + bound = (sizes axes).prod)
    (offsets : Array Nat) :
    readOdometer shape axes bound (digits (sizes axes) number) offsets
      = (offsets.toList ++ ·) <$> offsetsOf shape
        ((List.range' number bound).map fun number => shown axes (digits (sizes axes) number)) := by
  -- how many readings are left decides when to stop, and it is also how many numbers there are up to the product
  induction bound generalizing number offsets with
  | zero => exact absurd hbound (lt_irrefl 0)
  | succ bound ih =>
    have hpos : 0 < (sizes axes).prod := by omega
    rw [readOdometer, reading_eq (within_digits hpos number), turn_digits hpos, List.range'_succ,
      List.map_cons, offsetsOf, List.mapM_cons]
    change (offsetOf shape _ >>= _) = _ <$> (offsetOf shape _ >>= _)
    cases hoffset : offsetOf shape (shown axes (digits (sizes axes) number)) with
    | error kind => rfl
    | ok offset =>
      by_cases hlast : bound = 0
      · -- the number after this one is the product, where all wheels have come round
        subst hlast
        rw [hend, Nat.mod_self]
        change Except.ok (offsets.push offset).toList = .ok (offsets.toList ++ [offset])
        rw [Array.toList_push]
      · have hnext : (number + 1) % (sizes axes).prod ≠ 0 := by
          rw [Nat.mod_eq_of_lt (by omega)]
          exact Nat.succ_ne_zero number
        simp only [hnext, decide_false]
        change readOdometer shape axes bound (digits (sizes axes) (number + 1)) (offsets.push offset) = _
        rw [ih (by omega) (by omega)]
        change _ <$> offsetsOf shape _ = _ <$> ((offset :: ·) <$> offsetsOf shape _)
        rw [Functor.map_map]
        refine congrArg (· <$> _) (funext fun rest => ?_)
        rw [Array.toList_push, List.append_assoc, List.singleton_append]

/-- **All readings.** An odometer that starts at zero shows every tuple of indices once, in lexicographic order. -/
theorem readOdometer_eq (hpos : 0 < (sizes axes).prod) :
    readOdometer shape axes (sizes axes).prod (axes.map fun _ => 0) #[]
      = offsetsOf shape (tuples (axes.map (·.indices))) := by
  have hstart : axes.map (fun _ => 0) = digits (sizes axes) 0 := by
    rw [digits_zero, sizes, List.map_map]
    rfl
  rw [hstart, readOdometer_digits hpos (Nat.zero_add _), tuples_eq, coordinates_eq, List.map_map,
    ← List.range_eq_range']
  exact id_map _

/-- A table of offsets that is not too long holds those of all tuples. Where an axis has no index there is no tuple
either. -/
theorem keptOffsets_eq {count : Nat} (hcount : elementCount (sizes axes) = .ok count)
    (hlisted : listed count = .ok count) :
    keptOffsets shape axes = offsetsOf shape (tuples (axes.map (·.indices))) := by
  obtain ⟨rfl, -⟩ := eq_of_elementCount hcount
  unfold keptOffsets
  rw [show axes.map (·.count) = sizes axes from rfl, hcount]
  change (listed (sizes axes).prod >>= _) = _
  rw [hlisted]
  cases hprod : (sizes axes).prod with
  | zero =>
    rw [tuples_eq, coordinates_eq, hprod]
    rfl
  | succ count =>
    -- there are as many readings as offsets in the table
    change readOdometer shape axes (count + 1) (axes.map fun _ => 0) #[] = _
    rw [← hprod]
    exact readOdometer_eq (by omega)

/-- The table is allocated before the odometer starts. -/
theorem keptOffsets_eq_error {count : Nat} {kind : Fault} (hcount : elementCount (sizes axes) = .ok count)
    (hlisted : listed count = .error kind) : keptOffsets shape axes = .error kind := by
  unfold keptOffsets
  rw [show axes.map (·.count) = sizes axes from rfl, hcount]
  change (listed count >>= _) = _
  rw [hlisted]
  rfl

theorem keptOffsets_eq_ok {offsets : List Nat} : keptOffsets shape axes = .ok offsets ↔
    ∃ count, elementCount (sizes axes) = .ok count ∧ listed count = .ok count ∧
      offsetsOf shape (tuples (axes.map (·.indices))) = .ok offsets := by
  constructor
  · intro h
    obtain ⟨count, hcount, hrest⟩ := bind_eq_ok.mp h
    obtain ⟨count', hlisted, -⟩ := bind_eq_ok.mp hrest
    obtain ⟨-, rfl⟩ := addressable_eq_ok.mp hlisted
    exact ⟨count, hcount, hlisted, by rw [← keptOffsets_eq hcount hlisted]; exact h⟩
  · rintro ⟨count, hcount, hlisted, h⟩
    rw [keptOffsets_eq hcount hlisted]
    exact h

end NetArray
