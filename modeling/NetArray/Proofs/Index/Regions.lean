import Mathlib
import NetArray.Proofs.Index.Odometers

/-!
# What a selection keeps

`region` computes the offsets of a selection from lists of indices, one list for each axis. This file says
what a selection means without such lists: `Selector.keeps` decides for a single index whether it stays,
and `selects` decides it for a coordinate, axis by axis.

The main statement is `region_eq_ok`: the offsets of a region are the places of exactly the selected
coordinates, in their row-major order, and its shape counts the indices that stay on each kept axis. The
order is the point: the lists of indices ascend, so taking their tuples in lexicographic order is the same
as going through all coordinates and leaving some out.
-/

namespace NetArray

/-- Whether an index stays. A range keeps the indices from its start on, below its stop, that are a
multiple of its step above the start. -/
def Selector.keeps (index : Nat) : Selector → Bool
  | .index place => index = place
  | .range bounds =>
    bounds.start.getD 0 ≤ index && bounds.stop.all (index < ·) &&
      (index - bounds.start.getD 0) % bounds.step = 0

/-- Whether a coordinate is selected. Axes without a selector are kept whole. -/
def selects : List Selector → List Nat → Bool
  | selector :: selectors, index :: coordinate => selector.keeps index && selects selectors coordinate
  | _, _ => true

/-- How many indices of an axis stay. -/
def Selector.count (size : Nat) (selector : Selector) : Nat :=
  (List.range size).countP (selector.keeps ·)

/-- The lengths of the axes that stay. A single index drops its axis. -/
def keptShape : List Nat → List Selector → List Nat
  | [], _ => []
  | shape, [] => shape
  | _ :: shape, .index _ :: selectors => keptShape shape selectors
  | size :: shape, .range bounds :: selectors =>
    (Selector.range bounds).count size :: keptShape shape selectors

/-! ### Axes without a selector -/

theorem keeps_full (index : Nat) : Selector.keeps index (.range {}) = true := by
  simp [Selector.keeps, Nat.mod_one]

theorem count_full (size : Nat) : Selector.count size (.range {}) = size := by
  simp [Selector.count, keeps_full]

theorem selects_nil (coordinate : List Nat) : selects [] coordinate = true := by
  cases coordinate <;> rfl

theorem selects_cons (selectors : List Selector) (index : Nat) (coordinate : List Nat) :
    selects selectors (index :: coordinate)
      = ((selectors.headD (.range {})).keeps index && selects selectors.tail coordinate) := by
  cases selectors with
  | nil => simp [selects, keeps_full, selects_nil]
  | cons selector selectors => rfl

theorem keptShape_nil_right (shape : List Nat) : keptShape shape [] = shape := by
  cases shape <;> rfl

theorem keptShape_cons (size : Nat) (shape : List Nat) (selectors : List Selector) :
    keptShape (size :: shape) selectors = match selectors.headD (.range {}) with
      | .index _ => keptShape shape selectors.tail
      | .range bounds => (Selector.range bounds).count size :: keptShape shape selectors.tail := by
  cases selectors with
  | nil => simp [keptShape, count_full, keptShape_nil_right]
  | cons selector selectors => cases selector <;> rfl

/-! ### A single axis -/

/-- The `number`th step from a start stays below a stop just when it is one of those that are counted. -/
private theorem lt_ceil_div {number length step : Nat} (hstep : 0 < step) :
    number < (length + step - 1) / step ↔ number * step < length := by
  rw [Nat.lt_iff_add_one_le, Nat.le_div_iff_mul_le hstep, Nat.succ_mul]
  omega

theorem choose_eq_ok {range : IndexRange} {size : Nat} {choice : AxisChoice}
    (h : range.choose size = .ok choice) :
    0 < range.step ∧ choice = ⟨min (range.start.getD 0) size, range.step,
      (min (range.stop.getD size) size - min (range.start.getD 0) size + range.step - 1)
        / range.step, true⟩ := by
  simp only [IndexRange.choose] at h
  split at h
  · cases h
  · next hstep =>
    simp only [bind_eq_ok, lift_checked_eq_ok, listed, addressable_eq_ok, pure_eq_ok] at h
    obtain ⟨_, ⟨-, rfl⟩, rfl⟩ := h
    exact ⟨by omega, rfl⟩

/-- **One range.** The indices from the one bound to the other, both clipped to the axis, are those that the range
keeps. -/
theorem steps_eq {bounds : IndexRange} (size : Nat) (hstep : 0 < bounds.step) :
    List.range' (min (bounds.start.getD 0) size)
        ((min (bounds.stop.getD size) size - min (bounds.start.getD 0) size + bounds.step - 1) / bounds.step)
        bounds.step
      = (List.range size).filter (Selector.keeps · (.range bounds)) := by
  -- both lists ascend, so it is enough to compare what is in them
  refine (List.pairwise_lt_range' _ hstep).eq_of_mem_iff (List.pairwise_lt_range.filter _)
    fun index => ?_
  have hstop : index < size → (index < min (bounds.stop.getD size) size
      ↔ bounds.stop.all (index < ·) = true) := by
    intro hindex
    cases bounds.stop <;> simp [hindex]
  simp only [List.mem_range', lt_ceil_div hstep, List.mem_filter, List.mem_range, Selector.keeps,
    Bool.and_eq_true, decide_eq_true_eq]
  constructor
  · rintro ⟨number, hnumber, hindex⟩
    rw [Nat.mul_comm number] at hnumber
    have hstart : min (bounds.start.getD 0) size = bounds.start.getD 0 := by omega
    have hsize : index < size := by omega
    refine ⟨hsize, ⟨by omega, (hstop hsize).mp (by omega)⟩, ?_⟩
    rw [hindex, hstart, Nat.add_sub_cancel_left, Nat.mul_mod_right]
  · rintro ⟨hindex, ⟨hstart, hall⟩, hmod⟩
    have hlt := (hstop hindex).mpr hall
    have hmul : bounds.step * ((index - bounds.start.getD 0) / bounds.step)
        = index - bounds.start.getD 0 := Nat.mul_div_cancel' (Nat.dvd_of_mod_eq_zero hmod)
    refine ⟨(index - bounds.start.getD 0) / bounds.step, ?_, ?_⟩
    · rw [Nat.mul_comm, hmul]
      omega
    · rw [hmul]
      omega

/-- A single index is the only one that it keeps. -/
theorem singleton_eq {size place : Nat} (hplace : place < size) :
    [place] = (List.range size).filter (Selector.keeps · (.index place)) := by
  refine (List.pairwise_singleton _ _).eq_of_mem_iff (List.pairwise_lt_range.filter _)
    fun index => ?_
  simp only [List.mem_singleton, List.mem_filter, List.mem_range, Selector.keeps,
    decide_eq_true_eq]
  exact ⟨fun heq => ⟨heq ▸ hplace, heq⟩, fun hmem => hmem.2⟩

/-- **One axis.** The indices that are listed for an axis are those that stay, in ascending order. -/
theorem indices_eq {axis size : Nat} {selector : Selector} {choice : AxisChoice}
    (h : selector.choose axis size = .ok choice) :
    choice.indices = (List.range size).filter (selector.keeps ·) := by
  cases selector with
  | index place =>
    rw [Selector.choose] at h
    split at h
    · next hplace =>
      cases h
      exact singleton_eq hplace
    · cases h
  | range bounds =>
    obtain ⟨hstep, rfl⟩ := choose_eq_ok h
    exact steps_eq size hstep

theorem count_choose {axis size : Nat} {selector : Selector} {choice : AxisChoice}
    (h : selector.choose axis size = .ok choice) : choice.count = selector.count size := by
  have := congrArg List.length (indices_eq h)
  rwa [AxisChoice.indices, List.length_range', ← List.countP_eq_length_filter] at this

/-- An index drops its axis and a range keeps it. -/
theorem kept_choose {axis size : Nat} {selector : Selector} {choice : AxisChoice}
    (h : selector.choose axis size = .ok choice) :
    (choice.kept = false ∧ choice.count = 1 ∧ ∃ place, selector = .index place)
      ∨ (choice.kept = true ∧ ∃ bounds, selector = .range bounds) := by
  cases selector with
  | index place =>
    rw [Selector.choose] at h
    split at h
    · cases h
      exact .inl ⟨rfl, rfl, place, rfl⟩
    · cases h
  | range bounds =>
    obtain ⟨-, rfl⟩ := choose_eq_ok h
    exact .inr ⟨rfl, bounds, rfl⟩

/-! ### All axes -/

private theorem flatMap_filter {α β : Type} (p : α → Bool) (f : α → List β) (items : List α) :
    (items.filter p).flatMap f = items.flatMap fun item => if p item then f item else [] := by
  induction items with
  | nil => rfl
  | cons item items ih =>
    rw [List.filter_cons, List.flatMap_cons, ← ih]
    split <;> rfl

/-- The first selector chooses from the first axis, the others from the other axes. -/
theorem choices_cons_eq_ok {axis size : Nat} {shape : List Nat} {selectors : List Selector}
    {axes : List AxisChoice} (h : choices axis (size :: shape) selectors = .ok axes) :
    ∃ choice rest, (selectors.headD (.range {})).choose axis size = .ok choice
      ∧ choices (axis + 1) shape selectors.tail = .ok rest ∧ axes = choice :: rest := by
  simp only [choices, bind_eq_ok, pure_eq_ok] at h
  obtain ⟨choice, hchoice, rest, hrest, rfl⟩ := h
  exact ⟨choice, rest, hchoice, hrest, rfl⟩

/-- The tuples of the listed indices are the selected coordinates, in the same order. -/
theorem tuples_choices {axis : Nat} {shape : List Nat} {selectors : List Selector}
    {axes : List AxisChoice} (h : choices axis shape selectors = .ok axes) :
    tuples (axes.map (·.indices)) = (coordinates shape).filter (selects selectors ·) := by
  induction shape generalizing axis selectors axes with
  | nil =>
    cases h
    cases selectors <;> rfl
  | cons size shape ih =>
    obtain ⟨choice, rest, hchoice, hrest, rfl⟩ := choices_cons_eq_ok h
    rw [List.map_cons, tuples, coordinates, List.filter_flatMap, indices_eq hchoice, ih hrest,
      flatMap_filter]
    refine List.flatMap_congr fun index _ => ?_
    rw [List.filter_map]
    -- an index that stays leaves the rest to the other selectors, any other one leaves nothing
    split
    · next hkeeps =>
      refine congrArg _ (List.filter_congr fun coordinate _ => ?_)
      rw [Function.comp_apply, selects_cons, hkeeps, Bool.true_and]
    · next hdrops =>
      refine Eq.symm (List.map_eq_nil_iff.mpr (List.filter_eq_nil_iff.mpr fun coordinate _ => ?_))
      rw [Function.comp_apply, selects_cons, Bool.and_eq_true]
      exact fun hselects => hdrops hselects.1

theorem shape_choices {axis : Nat} {shape : List Nat} {selectors : List Selector}
    {axes : List AxisChoice} (h : choices axis shape selectors = .ok axes) :
    (axes.filter (·.kept)).map (·.count) = keptShape shape selectors := by
  induction shape generalizing axis selectors axes with
  | nil =>
    cases h
    rfl
  | cons size shape ih =>
    obtain ⟨choice, rest, hchoice, hrest, rfl⟩ := choices_cons_eq_ok h
    rw [keptShape_cons, ← ih hrest, List.filter_cons]
    have hcount := count_choose hchoice
    rcases kept_choose hchoice with ⟨hkept, -, place, hselector⟩ | ⟨hkept, bounds, hselector⟩
    · rw [hkept, hselector]
      rfl
    · rw [hkept, hselector, if_pos rfl, List.map_cons, hcount, hselector]

/-- Dropped axes count one index each, so the kept axes count all elements. -/
theorem prod_choices {axis : Nat} {shape : List Nat} {selectors : List Selector}
    {axes : List AxisChoice} (h : choices axis shape selectors = .ok axes) :
    (axes.map (·.count)).prod = (keptShape shape selectors).prod := by
  rw [← shape_choices h]
  induction shape generalizing axis selectors axes with
  | nil =>
    cases h
    rfl
  | cons size shape ih =>
    obtain ⟨choice, rest, hchoice, hrest, rfl⟩ := choices_cons_eq_ok h
    rw [List.map_cons, List.prod_cons, ih hrest, List.filter_cons]
    rcases kept_choose hchoice with ⟨hkept, hone, -⟩ | ⟨hkept, -⟩
    · rw [hkept, hone, Nat.one_mul]
      rfl
    · rw [hkept, if_pos rfl, List.map_cons, List.prod_cons]

theorem length_tuples (lists : List (List Nat)) :
    (tuples lists).length = (lists.map (·.length)).prod := by
  induction lists with
  | nil => rfl
  | cons entries lists ih =>
    rw [tuples, List.map_cons, List.prod_cons, ← ih, List.length_flatMap]
    simp

theorem offsetsOf_eq_ok {shape : List Nat} {coordinates : List (List Nat)} {offsets : List Nat}
    (hwithin : ∀ coordinate ∈ coordinates, Within shape coordinate)
    (h : offsetsOf shape coordinates = .ok offsets) :
    offsets = coordinates.map (position shape) := by
  rw [offsetsOf, mapM_eq_ok] at h
  induction h with
  | nil => rfl
  | @cons coordinate offset rest offsets hoffset _ ih =>
    rw [List.map_cons, ← ih fun c hc => hwithin c (List.mem_cons_of_mem _ hc)]
    have := eq_of_offsetFrom (hwithin coordinate List.mem_cons_self) hoffset
    rw [this, Nat.zero_mul, Nat.zero_add]

/-- **What a region is.** Its offsets are the places of the selected coordinates, in row-major order, and
its shape has as many of them. -/
theorem region_eq_ok {shape : List Nat} {selection : List Selector} {kept : Region}
    (h : region shape selection = .ok kept) :
    kept.shape = keptShape shape selection ∧
      kept.offsets = ((coordinates shape).filter (selects selection ·)).map (position shape) ∧
      kept.offsets.length = kept.shape.prod := by
  rw [region] at h
  split at h
  · cases h
  · simp only [bind_eq_ok, lift_checked_eq_ok, pure_eq_ok] at h
    obtain ⟨axes, haxes, offsets, hoffsets, rfl⟩ := h
    have hshape := shape_choices haxes
    have htuples := tuples_choices haxes
    have hlength : (tuples (axes.map (·.indices))).length = (keptShape shape selection).prod := by
      rw [length_tuples, ← prod_choices haxes, List.map_map]
      refine congrArg _ (List.map_congr_left fun choice _ => ?_)
      rw [Function.comp_apply, AxisChoice.indices, List.length_range']
    have hall : offsets = (tuples (axes.map (·.indices))).map (position shape) := by
      obtain ⟨-, -, -, hoffsets⟩ := keptOffsets_eq_ok.mp hoffsets
      refine offsetsOf_eq_ok (fun coordinate hmem => ?_) hoffsets
      rw [htuples] at hmem
      exact mem_coordinates.mp (List.mem_of_mem_filter hmem)
    refine ⟨hshape, hall.trans (congrArg _ htuples), ?_⟩
    change offsets.length = _
    rw [hall, List.length_map, hlength]
    exact congrArg _ hshape.symm

/-- The offsets of a region ascend. They are places of the shape. -/
theorem region_offsets {shape : List Nat} {selection : List Selector} {kept : Region}
    (h : region shape selection = .ok kept) :
    kept.offsets.Pairwise (· < ·) ∧ ∀ offset ∈ kept.offsets, offset < shape.prod := by
  have hsublist : kept.offsets.Sublist (List.range shape.prod) := by
    rw [(region_eq_ok h).2.1, ← positions_coordinates]
    exact List.filter_sublist.map _
  refine ⟨List.pairwise_lt_range.sublist hsublist, fun offset hoffset => ?_⟩
  exact List.mem_range.mp (hsublist.subset hoffset)

end NetArray
