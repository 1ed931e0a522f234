import Mathlib
import NetArray.Proofs.Array.SourceBounds

/-!
# The width of what is joined

Each value is no wider than a machine word counts, but several of them together may be. The sum of the widths is what
decides about a concatenation (`Build.ConcatOutcome`): it is the width of the answer, or there is nothing to join, or
the sum outgrows the word while it is added up.

The elements of an array come to a concatenation as well, only that they have been merged and cut out before. Neither
changes their widths together (`Fits.exists_slices`), so the number of the bits of the array decides
(`ArrayView.FullOutcome`). When it is too large, the slices of the parts are already there; there are at least two of
them, because a single part is a range of one value and its width is a machine word.
-/

namespace NetArray

/-! ### Concatenations -/

/-- The width that values have together. -/
def totalBits (values : List Value) : Nat :=
  (values.map (·.width)).sum

/-- Adding up widths stops where the sum outgrows the machine word, which it does if it is too large in the end. -/
theorem totalWidth_overflow {start : Nat} {values : List Value} (hstart : start < wordBound)
    (hlarge : wordBound ≤ start + totalBits values) : Build.totalWidth start values = .error .overflow := by
  induction values generalizing start with
  | nil => exact absurd hstart (Nat.not_lt.mpr hlarge)
  | cons value values ih =>
    rw [totalBits, List.map_cons, List.sum_cons, ← Nat.add_assoc] at hlarge
    rw [Build.totalWidth, word]
    by_cases hword : start + value.width < wordBound
    · rw [if_pos hword]
      exact ih hword hlarge
    · rw [if_neg hword]
      rfl

/-- How a concatenation comes out. -/
inductive Build.ConcatOutcome (values : List Value) (builder : Builder) :
    EStateM.Result (Failure BuildError) Builder Value → Prop where
  /-- There is a new value, as wide as the joined ones together. -/
  | joined {value : Value} {after : Builder} (hpos : 0 < totalBits values) (hword : totalBits values < wordBound)
    (hgrows : builder.Grows after) (hvalue : after.valueOf value.signal = .ok value)
    (hwidth : value.width = totalBits values) : ConcatOutcome values builder (.ok value after)
  | nothing (hzero : totalBits values = 0) :
    ConcatOutcome values builder (.error (.refused (.zeroWidth .concatenation)) builder)
  /-- The width of the values together is no machine word. -/
  | tooWide (hlarge : wordBound ≤ totalBits values) : ConcatOutcome values builder (.error (.fault .overflow) builder)

/-- **Concatenations.** The sum of the widths decides. -/
theorem concat_outcome {builder : Builder} {values : List Value} (hsound : builder.Sound)
    (h : ∀ value ∈ values, ∃ bits, builder.Carries value bits) :
    Build.ConcatOutcome values builder (Build.concat values builder) := by
  by_cases hword : totalBits values < wordBound
  · rcases Nat.eq_zero_or_pos (totalBits values) with hzero | hpos
    · have htotal : Build.totalWidth 0 values = .ok 0 := by
        rw [totalWidth_eq (by rwa [Nat.zero_add]), Nat.zero_add]
        exact congrArg _ hzero
      have hrun : Build.concat values builder = .error (.refused (.zeroWidth .concatenation)) builder := by
        rw [Build.concat, htotal]
        rfl
      rw [hrun]
      exact .nothing hzero
    · obtain ⟨inputs, hinputs⟩ := exists_forall₂ h
      have hsum : totalBits values = inputs.flatten.length := sum_width hinputs
      obtain ⟨value, after, hrun, hcarries⟩ := carries_concat hsound hinputs (hsum ▸ hpos) (hsum ▸ hword)
      rw [hrun]
      refine .joined hpos hword ((keeps_concat values).ok hrun) hcarries.handle ?_
      -- a value is as wide as it has bits, and the order of the operands does not matter for their number
      rw [← hcarries.length, length_flatten_reverse, hsum]
  · have htotal : Build.totalWidth 0 values = .error .overflow :=
      totalWidth_overflow (by decide) (by rw [Nat.zero_add]; exact Nat.not_lt.mp hword)
    have hrun : Build.concat values builder = .error (.fault .overflow) builder := by
      rw [Build.concat, htotal]
      rfl
    rw [hrun]
    exact .tooWide (Nat.not_lt.mp hword)

namespace ArrayView

variable {view : ArrayView} {store : Store} {workspace : Workspace}

/-! ### Arrays -/

/-- How an array is lowered all of whose elements are there. -/
inductive FullOutcome (view : ArrayView) (store : Store) (settings : Settings) (workspace : Workspace) :
    EStateM.Result (Failure ArrayError) Workspace (Value × ArrayView) → Prop where
  /-- The value has all bits of the array. -/
  | built {value : Value} {lowered : ArrayView} {after : Workspace}
    (hword : view.shape.prod * view.elemType.width < wordBound)
    (hwidth : value.width = view.shape.prod * view.elemType.width) (hbits : view.bitWidth = .ok value.width) :
    FullOutcome view store settings workspace (.ok (value, lowered) after)
  /-- The bits of the array are more than a machine word counts. Its parts are values of the netlist by then. -/
  | tooWide {parts : List BitRange} {slices : List Value} {after : Builder}
    (hlarge : wordBound ≤ view.shape.prod * view.elemType.width)
    (hparts : view.parts store settings.coalesce = .ok parts)
    (hslices : parts.reverse.mapM BitRange.materialize workspace.builder = .ok slices after) :
    FullOutcome view store settings workspace (.error (.fault .overflow) { workspace with builder := after })

section Fits

variable (hsound : workspace.Sound) (h : view.Fits store)

include hsound h

/-- The parts of an array without gaps can be cut out. The slices carry as many bits as the array has, and there
are several of them if these are too many for a machine word. -/
theorem Fits.exists_slices (hstore : store.Sound workspace.builder) (hpos : 0 < view.shape.prod)
    (hfull : view.gaps store = ∅) (coalesce : Bool) :
    ∃ parts slices builder, view.parts store coalesce = .ok parts ∧
      parts.reverse.mapM BitRange.materialize workspace.builder = .ok slices builder ∧
      totalBits slices = view.shape.prod * view.elemType.width ∧
      (wordBound ≤ totalBits slices → slices.length ≠ 1) := by
  have hcount : view.count = .ok view.shape.prod := h.count_eq hstore.addressable hpos
  obtain ⟨ranges, hranges⟩ := exists_elements hsound h hstore hcount (gaps_eq_empty_iff.mp hfull)
  obtain ⟨parts, hparts⟩ := exists_parts hsound h hstore hcount coalesce hranges
  obtain ⟨merged, hmerged, hwidths, hbits⟩ := bits_of_parts hsound h hstore hcount hpos hparts
  obtain ⟨slices, builder, hslices, hgrows, hvalues⟩ := Builder.mapM_materialize_carries hsound.builder
    (List.forall₂_reverse_iff.mpr hmerged) fun part hmem => hwidths part (List.mem_reverse.mp hmem)
  refine ⟨parts, slices, builder, hparts, hslices, ?_, ?_⟩
  · calc totalBits slices
        = merged.reverse.flatten.length := sum_width hvalues
      _ = merged.flatten.length := length_flatten_reverse merged
      _ = view.shape.prod * view.elemType.width := hbits
  · intro hlarge hone
    obtain ⟨single, rfl⟩ := List.length_eq_one_iff.mp hone
    obtain ⟨bits, -, hbits, -⟩ := List.forall₂_cons_left_iff.mp hvalues
    -- the width of a single value is a machine word
    have hword : single.width < wordBound := hbits.width_lt (hgrows.sound hsound.builder)
    have hsingle : totalBits [single] = single.width := Nat.add_zero _
    omega

/-- **Full arrays.** The number of their bits decides. -/
theorem Fits.full_outcome (hstore : workspace.store view.store = .ok store) (hpos : 0 < view.shape.prod)
    (hfull : view.gaps store = ∅) (settings : Settings) :
    view.FullOutcome store settings workspace (view.lower settings workspace) := by
  have hstoreSound := hsound.stores hstore
  have hcount : view.count = .ok view.shape.prod := h.count_eq hstoreSound.addressable hpos
  by_cases hword : view.shape.prod * view.elemType.width < wordBound
  · obtain ⟨ranges, hranges⟩ := exists_elements hsound h hstoreSound hcount (gaps_eq_empty_iff.mp hfull)
    obtain ⟨value, lowered, after, hlowered, hlower⟩ :=
      lower_of_elements hsound h hstore settings hcount hpos hword hranges
    obtain ⟨_, ranges', pieces, -, -, hcount', hwidths, hpieces, hcarries, -⟩ :=
      (yields_lowered hsound ⟨store, hstore, h⟩ settings).answer hlowered
    have hwidth : value.width = view.shape.prod * view.elemType.width := by
      rw [← hcarries.length, length_flatten_pieces hpieces hwidths, Except.ok.inj (hcount.symm.trans hcount')]
    have hbits : view.bitWidth = .ok value.width := by
      have hsized : sized (view.shape.prod * view.elemType.width) = .ok (view.shape.prod * view.elemType.width) :=
        sized_eq_ok.mpr ⟨hword.trans wordBound_lt_sizeBound, rfl⟩
      rw [bitWidth, hcount, hwidth]
      exact hsized
    rw [hlower]
    exact .built hword hwidth hbits
  · obtain ⟨parts, slices, builder, hparts, hslices, htotal, hseveral⟩ :=
      h.exists_slices hsound hstoreSound hpos hfull settings.coalesce
    have hlarge : wordBound ≤ totalBits slices := by omega
    have hjoin : join parts workspace.builder = .error (.fault .overflow) builder := by
      rw [join_several hslices (hseveral hlarge), Build.concat,
        totalWidth_overflow (by decide) (by rwa [Nat.zero_add])]
      rfl
    have hlowered : view.lowered settings workspace
        = .error (.fault .overflow) { workspace with builder := builder } := by
      rw [lowered_run hstore settings hcount hpos, hparts]
      change Session.build (join parts >>= _) workspace = _
      rw [Session.build, change_bind, hjoin]
      rfl
    rw [lower_of_error settings hlowered]
    exact .tooWide (Nat.not_lt.mp hword) hparts hslices

end Fits

end ArrayView

namespace Scene

variable {scene : Scene}

/-- **Widths of what is joined.** Take any scene.

* Whichever of its values are concatenated, the answer is as wide as they are together. Values without a single bit
  are refused. The one fault is a sum of widths that no machine word holds.
* Whichever of its arrays has elements and no gap, and whatever the settings are, the lowered value is as wide as the
  array says it is. Here too the one fault is a number of bits that no machine word holds, and it comes after the parts
  of the array were cut out.
-/
theorem joined_widths (hscene : scene.Reachable) :
    (∀ values, (∀ value ∈ values, value ∈ scene.values) →
      Build.ConcatOutcome values scene.workspace.builder (Build.concat values scene.workspace.builder)) ∧
    ∀ view ∈ scene.arrays, 0 < view.shape.prod → ∀ store, scene.workspace.store view.store = .ok store →
      view.gaps store = ∅ → ∀ settings,
        view.FullOutcome store settings scene.workspace (view.lower settings scene.workspace) := by
  have hsound := sound_of_reachable hscene
  refine ⟨?_, ?_⟩
  · intro values hvalues
    exact concat_outcome hsound.workspace.builder fun value hmem => hsound.made.values value (hvalues value hmem)
  · intro view hview hpos store hstore hfull settings
    obtain ⟨store', hstore', hfits, -⟩ := hsound.fits hview
    obtain rfl := Except.ok.inj (hstore.symm.trans hstore')
    exact hfits.full_outcome hsound.workspace hstore hpos hfull settings

/-- The input of the grid beside itself has sixteen bits, and the columns of the grid are as wide as the input again. -/
theorem joined_widths_grid :
    (∃ value after, Build.concat [gridInput, gridInput] grid.workspace.builder = .ok value after ∧
      value.width = 16) ∧
    ∃ value lowered after, gridColumns.lower {} grid.workspace = .ok (value, lowered) after ∧
      gridColumns.bitWidth = .ok value.width ∧ value.width = 8 := by
  obtain ⟨hconcat, hlower⟩ := joined_widths grid_reachable
  constructor
  · have houtcome := hconcat [gridInput, gridInput] (by decide +kernel)
    generalize Build.concat [gridInput, gridInput] grid.workspace.builder = result at houtcome ⊢
    cases houtcome with
    | joined _ _ _ _ hwidth => exact ⟨_, _, rfl, hwidth⟩
    | nothing hzero => cases hzero
    | tooWide hlarge => exact absurd hlarge (by decide)
  · have hfull : gridColumns.gaps gridStore = ∅ := ArrayView.gaps_eq_empty_iff.mpr (by decide +kernel)
    have houtcome := hlower gridColumns (by decide +kernel) (by decide) gridStore (by decide +kernel) hfull {}
    generalize gridColumns.lower {} grid.workspace = result at houtcome ⊢
    cases houtcome with
    | built _ hwidth hbits => exact ⟨_, _, _, rfl, hbits, hwidth⟩
    | tooWide hlarge => exact absurd hlarge (by decide)

/-- An input of half as many bits as no machine word counts any more. -/
def broadInput : Value := ⟨⟨0⟩, ⟨0⟩, 2147483648⟩

/-- Two elements of so many bits. -/
def broadArray : ArrayView := { shape := [2], elemType := ⟨2147483648, by decide⟩, store := ⟨0⟩ }

/-- The array after the input was written to both of its elements. -/
def broad : Scene :=
  [.call (.internType (.bits 2147483648)), .call (.input "a" ⟨0⟩), .create [2] ⟨2147483648, by decide⟩,
    .assign broadArray [] (.whole broadInput)].foldl step (start {} "m")

/-- The input is a value like any other, but it cannot be joined with itself, neither as the operands of a concatenation
nor as the elements of an array; and this is not refused. -/
theorem concat_overflow_broadInput :
    broad.Reachable ∧ broadInput ∈ broad.values ∧ broadArray ∈ broad.arrays ∧
      totalBits [broadInput, broadInput] = 4294967296 ∧
      Build.concat [broadInput, broadInput] broad.workspace.builder
        = .error (.fault .overflow) broad.workspace.builder ∧
      broadArray.bitWidth = .ok 4294967296 ∧
      broadArray.lower {} broad.workspace = .error (.fault .overflow) broad.workspace := by
  refine ⟨⟨{}, "m", reaches_foldl (by decide +kernel)⟩, ?_⟩
  decide +kernel

end Scene

end NetArray
