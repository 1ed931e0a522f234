import Mathlib
import NetArray.Proofs.Index.Regions

/-!
# When a selection has a region

A selection is looked through axis by axis, and there are two things that can go wrong on the way: the selection does
not make sense, or memory cannot address the indices that it keeps. `Screened` says of a check that it tells the two
apart: it answers just when neither is the case, refuses only what is not valid, and faults only where something is too
long.

That is so for the choice on one axis, for the choices on all axes, and for the region as a whole (`screened_region`).
The region then has what one expects of it (`Region.Lists`): one offset for each tuple of the indices that are kept, in
lexicographic order.

What is left out are selections of shapes without elements where the numbers of indices, multiplied up from the first
axis on, outgrow a machine number before the empty axis is reached.
-/

namespace NetArray

/-! ### Selections -/

/-- A selector that makes sense on an axis of this length: an index that is on it, or a range that takes steps. -/
def Selector.Valid (size : Nat) : Selector → Prop
  | .index place => place < size
  | .range bounds => bounds.step ≠ 0

instance (size : Nat) (selector : Selector) : Decidable (selector.Valid size) :=
  match selector with
  | .index place => inferInstanceAs (Decidable (place < size))
  | .range bounds => inferInstanceAs (Decidable (bounds.step ≠ 0))

/-- Each selector makes sense on its axis. -/
def AxesValid : List Nat → List Selector → Prop
  | size :: shape, selector :: selection => selector.Valid size ∧ AxesValid shape selection
  | _, _ => True

instance decidableAxesValid : (shape : List Nat) → (selection : List Selector) → Decidable (AxesValid shape selection)
  | size :: shape, selector :: selection =>
    have := decidableAxesValid shape selection
    inferInstanceAs (Decidable (selector.Valid size ∧ AxesValid shape selection))
  | [], _ => .isTrue trivial
  | _ :: _, [] => .isTrue trivial

/-- There is at most one selector for each axis, and it makes sense there. -/
def ValidSelection (shape : List Nat) (selection : List Selector) : Prop :=
  selection.length ≤ shape.length ∧ AxesValid shape selection

instance (shape : List Nat) (selection : List Selector) : Decidable (ValidSelection shape selection) :=
  inferInstanceAs (Decidable (_ ∧ _))

/-- The indices that are kept on an axis: the one that is named, or those of the axis that the range keeps. -/
def Selector.entries (size : Nat) : Selector → List Nat
  | .index place => [place]
  | .range bounds => (List.range size).filter (Selector.keeps · (.range bounds))

/-- The indices that are kept on each axis. An axis that is not named is kept whole. -/
def axisLists : List Nat → List Selector → List (List Nat)
  | [], _ => []
  | size :: shape, selection =>
    (selection.headD (.range {})).entries size :: axisLists shape selection.tail

/-- Memory can address the list of indices of each axis, and the table of all offsets. -/
structure AddressableSelection (shape : List Nat) (selection : List Selector) : Prop where
  lists : ∀ list ∈ axisLists shape selection, list.length * 8 < signedBound
  table : ((axisLists shape selection).map List.length).prod * 8 < signedBound

/-- What a region should be: as many indices along each axis that stays as the selection keeps there, and the offset of
every tuple of indices that are kept, the last axis fastest. -/
structure Region.Lists (kept : Region) (shape : List Nat) (selection : List Selector) : Prop where
  lengths : kept.shape = keptShape shape selection
  offsets : List.Forall₂ (fun tuple offset => linearize shape tuple = .ok offset)
    (tuples (axisLists shape selection)) kept.offsets
  ascending : kept.offsets.Pairwise (· < ·)
  below : ∀ offset ∈ kept.offsets, offset < shape.prod
  length : kept.offsets.length = kept.shape.prod

/-- What comes of a check that refuses only what is not valid and faults only at what memory cannot address. -/
inductive Screened {ε α : Type} (valid addressable : Prop) (right : α → Prop) : Attempt ε α → Prop where
  | answered {a : α} (hvalid : valid) (haddressable : addressable) (hright : right a) :
    Screened valid addressable right (.ok a)
  | refused {cause : ε} (hinvalid : ¬valid) : Screened valid addressable right (.error (.refused cause))
  | exhausted (hlong : ¬addressable) : Screened valid addressable right (.error (.fault .capacity))

/-- Such a check answers just when nothing is wrong. -/
theorem Screened.ok_iff {ε α : Type} {valid addressable : Prop} {right : α → Prop} {result : Attempt ε α}
    (h : Screened valid addressable right result) : (∃ a, result = .ok a) ↔ valid ∧ addressable := by
  cases h with
  | answered hvalid haddressable _ => exact ⟨fun _ => ⟨hvalid, haddressable⟩, fun _ => ⟨_, rfl⟩⟩
  | refused hinvalid => exact ⟨nofun, fun hboth => absurd hboth.1 hinvalid⟩
  | exhausted hlong => exact ⟨nofun, fun hboth => absurd hboth.2 hlong⟩

/-! ### One axis -/

theorem listed_of_lt {count : Nat} (h : count * 8 < signedBound) : listed count = .ok count :=
  addressable_eq_ok.mpr ⟨h, rfl⟩

theorem listed_of_not_lt {count : Nat} (h : ¬count * 8 < signedBound) : listed count = .error .capacity := by
  rw [listed, addressable, if_neg h]

/-- **One axis.** -/
theorem screened_choose (axis size : Nat) (selector : Selector) :
    Screened (selector.Valid size) ((selector.entries size).length * 8 < signedBound)
      (fun choice => choice.indices = selector.entries size) (selector.choose axis size) := by
  cases selector with
  | index place =>
    rw [Selector.choose]
    by_cases hplace : place < size
    · rw [if_pos hplace]
      exact .answered hplace (show 1 * 8 < signedBound by decide) rfl
    · rw [if_neg hplace]
      exact .refused hplace
  | range bounds =>
    change Screened _ _ _ (bounds.choose size)
    unfold IndexRange.choose
    by_cases hstep : bounds.step = 0
    · rw [if_pos hstep]
      exact .refused fun hvalid => hvalid hstep
    · rw [if_neg hstep]
      have hsteps := steps_eq size (Nat.pos_of_ne_zero hstep)
      -- the number of steps is that of the indices
      have hcount := congrArg List.length hsteps
      rw [List.length_range'] at hcount
      by_cases hlist : ((Selector.range bounds).entries size).length * 8 < signedBound
      · have hlisted := listed_of_lt hlist
        rw [Selector.entries, ← hcount] at hlisted
        rw [hlisted]
        exact .answered hstep hlist hsteps
      · have hlisted := listed_of_not_lt hlist
        rw [Selector.entries, ← hcount] at hlisted
        rw [hlisted]
        exact .exhausted hlist

/-! ### All axes -/

theorem axesValid_cons (size : Nat) (shape : List Nat) (selection : List Selector) :
    AxesValid (size :: shape) selection
      ↔ (selection.headD (.range {})).Valid size ∧ AxesValid shape selection.tail := by
  cases selection with
  | nil =>
    -- the whole axis is always a choice
    have hrest : AxesValid shape [] := by cases shape <;> trivial
    exact ⟨fun _ => ⟨Nat.one_ne_zero, hrest⟩, fun _ => trivial⟩
  | cons selector selection => exact Iff.rfl

/-- **All axes.** The first axis where something is wrong decides. -/
theorem screened_choices (axis : Nat) (shape : List Nat) (selection : List Selector) :
    Screened (AxesValid shape selection) (∀ list ∈ axisLists shape selection, list.length * 8 < signedBound)
      (fun axes => axes.map (·.indices) = axisLists shape selection) (choices axis shape selection) := by
  induction shape generalizing axis selection with
  | nil =>
    refine .answered ?_ (fun list hmem => nomatch hmem) rfl
    cases selection <;> trivial
  | cons size shape ih =>
    rw [axesValid_cons, choices]
    have hhead := screened_choose axis size (selection.headD (.range {}))
    generalize (selection.headD (.range {})).choose axis size = chosen at hhead ⊢
    cases hhead with
    | refused hinvalid => exact .refused fun hvalid => hinvalid hvalid.1
    | exhausted hlong => exact .exhausted fun hlists => hlong (hlists _ List.mem_cons_self)
    | @answered choice hvalid hlist hindices =>
      have htail := ih (axis + 1) selection.tail
      generalize choices (axis + 1) shape selection.tail = rest at htail ⊢
      cases htail with
      | refused hinvalid => exact .refused fun hvalid => hinvalid hvalid.2
      | exhausted hlong => exact .exhausted fun hlists => hlong fun _ hmem => hlists _ (List.mem_cons_of_mem _ hmem)
      | @answered axes hrest hlists haxes =>
        refine .answered ⟨hvalid, hrest⟩ (List.forall_mem_cons.mpr ⟨hlist, hlists⟩) ?_
        change choice.indices :: axes.map (·.indices) = _
        rw [hindices, haxes]
        rfl

theorem sizes_eq {axes : List AxisChoice} {lists : List (List Nat)} (h : axes.map (·.indices) = lists) :
    sizes axes = lists.map List.length := by
  rw [← h, List.map_map]
  refine List.map_congr_left fun choice _ => ?_
  rw [Function.comp_apply, AxisChoice.indices, List.length_range']

/-! ### The number of tuples -/

/-- An axis that has elements, or on which the selector makes sense, has at least as many as are kept of it. -/
theorem length_entries_le {size : Nat} {selector : Selector} (h : 0 < size ∨ selector.Valid size) :
    (selector.entries size).length ≤ size := by
  cases selector with
  | index place =>
    have hsize : 0 < size := h.elim id (Nat.zero_lt_of_lt ·)
    exact hsize
  | range bounds => exact (List.length_filter_le _ _).trans_eq List.length_range

theorem lengths_le {shape : List Nat} {selection : List Selector}
    (h : 0 < shape.prod ∨ AxesValid shape selection) :
    List.Forall₂ (· ≤ ·) ((axisLists shape selection).map List.length) shape := by
  induction shape generalizing selection with
  | nil => exact .nil
  | cons size shape ih =>
    rw [axesValid_cons] at h
    refine .cons (length_entries_le ?_) (ih ?_)
    · exact h.imp (fun hpos => (prod_pos_cons hpos).1) (·.1)
    · exact h.imp (fun hpos => (prod_pos_cons hpos).2) (·.2)

/-- Numbers that are at most others can be multiplied up if these can. -/
theorem exists_productFrom {start start' product : Nat} {counts shape : List Nat}
    (h : List.Forall₂ (· ≤ ·) counts shape) (hstart : start' ≤ start)
    (hproduct : productFrom start shape = .ok product) : ∃ number, productFrom start' counts = .ok number := by
  induction h generalizing start start' with
  | nil => exact ⟨start', rfl⟩
  | @cons count size counts shape hle _ ih =>
    obtain ⟨scaled, hscaled, hrest⟩ := bind_eq_ok.mp hproduct
    obtain ⟨hlt, rfl⟩ := sized_eq_ok.mp hscaled
    have hscale : start' * count ≤ start * size := Nat.mul_le_mul hstart hle
    obtain ⟨number, hnumber⟩ := ih hscale hrest
    exact ⟨number, bind_eq_ok.mpr ⟨_, sized_eq_ok.mpr ⟨hscale.trans_lt hlt, rfl⟩, hnumber⟩⟩

/-- What is kept of a shape can be counted if the shape can. -/
theorem exists_counts {shape : List Nat} {selection : List Selector} {count : Nat}
    (hcount : elementCount shape = .ok count) (h : 0 < shape.prod ∨ AxesValid shape selection) :
    ∃ number, elementCount ((axisLists shape selection).map List.length) = .ok number :=
  exists_productFrom (lengths_le h) le_rfl hcount

/-- Memory can address what is kept of a shape with elements if it can address all of them. -/
theorem addressable_of_lt {shape : List Nat} (hpos : 0 < shape.prod) (hsize : shape.prod * 8 < signedBound)
    (selection : List Selector) : AddressableSelection shape selection := by
  have hlengths : List.Forall₂ (· ≤ ·) ((axisLists shape selection).map List.length) shape := lengths_le (.inl hpos)
  constructor
  · intro list hmem
    obtain ⟨size, hsizeMem, hle⟩ := exists_of_forall₂_of_mem hlengths.flip (List.mem_map_of_mem hmem)
    have hsize' : size ≤ shape.prod := Nat.le_of_dvd hpos (List.dvd_prod hsizeMem)
    calc list.length * 8 ≤ shape.prod * 8 := Nat.mul_le_mul_right _ (hle.trans hsize')
      _ < signedBound := hsize
  · have hprod : ((axisLists shape selection).map List.length).prod ≤ shape.prod := List.Forall₂.prod_le_prod' hlengths
    exact (Nat.mul_le_mul_right _ hprod).trans_lt hsize

/-! ### The region -/

/-- The tuples of indices have offsets, one after the other. -/
theorem offsetsOf_eq {shape : List Nat} {coordinates : List (List Nat)} (hsize : shape.prod < sizeBound)
    (hwithin : ∀ coordinate ∈ coordinates, Within shape coordinate) :
    offsetsOf shape coordinates = .ok (coordinates.map (position shape)) := by
  rw [offsetsOf, mapM_eq_ok, List.forall₂_map_right_iff, List.forall₂_same]
  intro coordinate hmem
  exact offsetOf_eq (hwithin coordinate hmem) hsize

/-- A selection that has a region is valid, and there is a choice on each axis. -/
theorem valid_of_region {shape : List Nat} {selection : List Selector} {kept : Region}
    (h : region shape selection = .ok kept) :
    ValidSelection shape selection ∧ ∃ axes, choices 0 shape selection = .ok axes ∧
      axes.map (·.indices) = axisLists shape selection := by
  rw [region] at h
  split at h
  · cases h
  · next hrank =>
    obtain ⟨axes, haxes, -⟩ := bind_eq_ok.mp h
    have hscreened := screened_choices 0 shape selection
    rw [haxes] at hscreened
    cases hscreened with
    | answered hvalid _ hindices => exact ⟨⟨Nat.not_lt.mp hrank, hvalid⟩, axes, haxes, hindices⟩

/-- The offsets of a region are those of the tuples. -/
theorem lists_of_region {shape : List Nat} {selection : List Selector} {kept : Region}
    (hsize : shape.prod < sizeBound) (h : region shape selection = .ok kept) : kept.Lists shape selection := by
  obtain ⟨hshape, hoffsets, hlength⟩ := region_eq_ok h
  obtain ⟨hascending, hbelow⟩ := region_offsets h
  have htuples : tuples (axisLists shape selection) = (coordinates shape).filter (selects selection ·) := by
    obtain ⟨-, axes, haxes, hindices⟩ := valid_of_region h
    rw [← hindices, tuples_choices haxes]
  refine ⟨hshape, ?_, hascending, hbelow, hlength⟩
  rw [hoffsets, htuples, List.forall₂_map_right_iff, List.forall₂_same]
  intro tuple hmem
  have hwithin : Within shape tuple := mem_coordinates.mp (List.mem_of_mem_filter hmem)
  exact linearize_eq hwithin hsize

/-- Once there is a choice on each axis, only the offsets can still go wrong. -/
theorem region_of_choices {shape : List Nat} {selection : List Selector} {axes : List AxisChoice}
    (hrank : ¬shape.length < selection.length) (haxes : choices 0 shape selection = .ok axes) :
    region shape selection = do
      return ⟨(axes.filter (·.kept)).map (·.count), ← keptOffsets shape axes⟩ := by
  rw [region, if_neg hrank, haxes]
  rfl

/-- The offsets are the positions of the tuples, if the table of them fits into memory. -/
theorem keptOffsets_of_choices {shape : List Nat} {selection : List Selector} {axes : List AxisChoice} {count : Nat}
    (hsize : shape.prod < sizeBound) (haxes : choices 0 shape selection = .ok axes)
    (hcount : elementCount (sizes axes) = .ok count) (hlisted : listed count = .ok count) :
    keptOffsets shape axes = .ok ((tuples (axes.map (·.indices))).map (position shape)) := by
  rw [keptOffsets_eq hcount hlisted]
  refine offsetsOf_eq hsize ?_
  intro coordinate hmem
  rw [tuples_choices haxes] at hmem
  exact mem_coordinates.mp (List.mem_of_mem_filter hmem)

/-- The places of consecutive rows follow one another. -/
theorem positions_rows (rows first count : Nat) (shape : List Nat) :
    (tuples (List.range' first count :: shape.map (List.range' 0))).map (position (rows :: shape))
      = List.range' (first * shape.prod) (count * shape.prod) := by
  have hrow (row : Nat) : ((coordinates shape).map (row :: ·)).map (position (rows :: shape))
      = List.range' (row * shape.prod) shape.prod := by
    rw [List.map_map, ← Nat.add_zero (row * shape.prod), ← List.map_add_range', ← List.range_eq_range',
      ← positions_coordinates, List.map_map]
    rfl
  rw [tuples, tuples_whole, List.map_flatMap]
  simp only [hrow]
  induction count generalizing first with
  | zero => rw [Nat.zero_mul]; rfl
  | succ count ih =>
    rw [List.range'_succ, List.flatMap_cons, ih, Nat.succ_mul, Nat.succ_mul, Nat.add_comm (count * _),
      List.range'_append_1]

/-- **The whole selection.** -/
theorem screened_region {shape : List Nat} {selection : List Selector} (hsize : shape.prod < sizeBound)
    (hcounts : ValidSelection shape selection →
      ∃ number, elementCount ((axisLists shape selection).map List.length) = .ok number) :
    Screened (ValidSelection shape selection) (AddressableSelection shape selection)
      (·.Lists shape selection) (region shape selection) := by
  by_cases hrank : shape.length < selection.length
  · rw [region, if_pos hrank]
    exact .refused fun hvalid => absurd hvalid.1 (Nat.not_le.mpr hrank)
  have hchoices := screened_choices 0 shape selection
  cases haxes : choices 0 shape selection with
  | error failure =>
    have hregion : region shape selection = .error failure := by
      rw [region, if_neg hrank, haxes]
      rfl
    rw [haxes] at hchoices
    rw [hregion]
    cases hchoices with
    | refused hinvalid => exact .refused fun hvalid => hinvalid hvalid.2
    | exhausted hlong => exact .exhausted fun haddressable => hlong haddressable.lists
  | ok axes =>
    rw [haxes] at hchoices
    cases hchoices with
    | answered hvalid hlists hindices =>
      have hselection : ValidSelection shape selection := ⟨Nat.not_lt.mp hrank, hvalid⟩
      obtain ⟨number, hnumber⟩ := hcounts hselection
      obtain ⟨rfl, -⟩ := eq_of_elementCount hnumber
      have hcount := hnumber
      rw [← sizes_eq hindices] at hcount
      have hregion := region_of_choices hrank haxes
      -- every list fits into memory, but the table of their tuples may still not
      by_cases htable : ((axisLists shape selection).map List.length).prod * 8 < signedBound
      · have hlisted : listed (sizes axes).prod = .ok (sizes axes).prod := by
          rw [sizes_eq hindices]
          exact listed_of_lt htable
        have hkept : region shape selection = .ok ⟨(axes.filter (·.kept)).map (·.count),
            (tuples (axes.map (·.indices))).map (position shape)⟩ := by
          rw [hregion, keptOffsets_of_choices hsize haxes hcount hlisted]
          rfl
        rw [hkept]
        exact .answered hselection ⟨hlists, htable⟩ (lists_of_region hsize hkept)
      · have hfault : keptOffsets shape axes = .error .capacity :=
          keptOffsets_eq_error hcount (by rw [sizes_eq hindices]; exact listed_of_not_lt htable)
        rw [hregion, hfault]
        exact .exhausted fun haddressable => htable haddressable.table

/-- **Regions.** Take a shape with a number of elements that fits, and a selection. It has a region just when it is
valid and memory can address what it keeps. Then the region has the offsets of all tuples of the indices that are kept,
in lexicographic order, so that they ascend; there are as many as the shape of the region says. Otherwise the selection
is refused if it is not valid, and the fault is that something is too long for memory. -/
theorem region_of_selection {shape : List Nat} {selection : List Selector} (hsize : shape.prod < sizeBound)
    (hcounts : shape.prod = 0 → ValidSelection shape selection →
      ∃ number, elementCount ((axisLists shape selection).map List.length) = .ok number) :
    ((∃ kept, region shape selection = .ok kept) ↔
        ValidSelection shape selection ∧ AddressableSelection shape selection) ∧
      (∀ kept, region shape selection = .ok kept → kept.Lists shape selection) ∧
      (∀ cause, region shape selection = .error (.refused cause) → ¬ValidSelection shape selection) ∧
      ∀ kind, region shape selection = .error (.fault kind) →
        kind = .capacity ∧ ¬AddressableSelection shape selection := by
  have hnumber : ValidSelection shape selection →
      ∃ number, elementCount ((axisLists shape selection).map List.length) = .ok number := by
    rcases Nat.eq_zero_or_pos shape.prod with hzero | hpos
    · exact hcounts hzero
    · exact fun _ => exists_counts (elementCount_eq hpos hsize) (.inl hpos)
  have hscreened := screened_region hsize hnumber
  refine ⟨hscreened.ok_iff, fun kept => lists_of_region hsize, fun cause hrefused => ?_, fun kind hfault => ?_⟩
  · rw [hrefused] at hscreened
    cases hscreened with
    | refused hinvalid => exact hinvalid
  · rw [hfault] at hscreened
    cases hscreened with
    | exhausted hlong => exact ⟨rfl, hlong⟩

/-- One column of every other row, beginning with row 1. -/
def oddRows : List Selector := [.range { start := some 1, step := 2 }, .index 3]

/-- It is what a matrix of four rows keeps of it. -/
theorem region_of_oddRows : ∃ kept, region [4, 8] oddRows = .ok kept ∧ kept.shape = [2] ∧
    List.Forall₂ (fun tuple offset => linearize [4, 8] tuple = .ok offset) [[1, 3], [3, 3]] kept.offsets ∧
    kept.offsets.Pairwise (· < ·) := by
  obtain ⟨hok, hlists, -⟩ := @region_of_selection [4, 8] oddRows (by decide) fun hnone => absurd hnone (by decide)
  obtain ⟨kept, hkept⟩ := hok.mpr ⟨by decide, by decide, by decide⟩
  have h := hlists kept hkept
  exact ⟨kept, hkept, h.lengths, h.offsets, h.ascending⟩

/-- An index that is not on its axis, behind an axis of which too much is kept for memory to address, is not refused. -/
theorem not_refused_behind_longAxis :
    elementCount [1152921504606846976, 9] = .ok 10376293541461622784 ∧
      ¬ValidSelection [1152921504606846976, 9] [.range {}, .index 9] ∧
      region [1152921504606846976, 9] [.range {}, .index 9] = .error (.fault .capacity) := by
  decide +kernel

end NetArray
