import Mathlib
import NetArray.Proofs.Array.LoweredStates
import NetArray.Proofs.Array.SourceBounds
import NetArray.Proofs.Array.WritePaths
import NetArray.Proofs.Index.AxisPermutations
import NetArray.Proofs.Index.ElementCounts

/-!
# How a change of shape comes out

An array is given another shape by reshaping it, by permuting its axes and by moving its elements around, and a value is
given one when it is imported. The arguments are any numbers whatsoever. Each of the four operations has a table here,
`ReshapeOutcome`, `TransposeOutcome`, `RollOutcome` and `ImportOutcome`, with the condition and the answer or the
refusal on every line, and with what it cannot compute.

The question behind all of them is whether the elements of a shape can be counted, `PrefixesFit`. It is also what decides
about the queries of an array: they all answer (`AnswersQueries`), or they all overflow (`OverflowsQueries`), which only
happens to an array without elements. Reshaping and importing give shapes that can be counted, or none; moving elements
keeps the shape. Permuting axes never fails for lack of numbers, since it counts nothing, and so it is the one way to
get from a shape that can be counted to one that cannot.
-/

namespace NetArray

namespace ArrayView

variable {view derived : ArrayView} {store : Store} {workspace : Workspace}

/-! ### Tables -/

/-- How giving an array another shape comes out. -/
inductive ReshapeOutcome (view : ArrayView) (shape : List Nat) : Attempt ShapeError ArrayView → Prop where
  /-- There is an axis, and there are as many elements as before. -/
  | reshaped {derived : ArrayView} (hold : PrefixesFit view.shape) (hnew : PrefixesFit shape) (haxes : shape ≠ [])
    (hprod : view.shape.prod = shape.prod) (hshape : derived.shape = shape) : ReshapeOutcome view shape (.ok derived)
  | refused (hold : PrefixesFit view.shape) (hnew : PrefixesFit shape)
    (hmisfit : shape = [] ∨ view.shape.prod ≠ shape.prod) :
    ReshapeOutcome view shape (.error (.refused (.reshape view.shape view.shape.prod shape shape.prod)))
  /-- The elements cannot be counted, before or after. -/
  | overflow (hlarge : ¬(PrefixesFit view.shape ∧ PrefixesFit shape)) :
    ReshapeOutcome view shape (.error (.fault .overflow))

/-- How permuting the axes of an array comes out. -/
inductive TransposeOutcome (view : ArrayView) (permutation : List Nat) : Attempt ShapeError ArrayView → Prop where
  | transposed {derived : ArrayView} (hperm : permutation.Perm (List.range view.shape.length))
    (hshape : derived.shape = permuted permutation view.shape) : TransposeOutcome view permutation (.ok derived)
  | otherRank (hlength : permutation.length ≠ view.shape.length) :
    TransposeOutcome view permutation (.error (.refused (.permutationLength permutation view.shape.length)))
  | notPermutation (hlength : permutation.length = view.shape.length)
    (hperm : ¬permutation.Perm (List.range view.shape.length)) :
    TransposeOutcome view permutation (.error (.refused (.notPermutation permutation view.shape.length)))

/-- How moving the elements of an array around comes out. -/
inductive RollOutcome (view : ArrayView) (amount : Int) : Option Nat → Attempt IndexError ArrayView → Prop where
  /-- In row-major order. -/
  | flat {derived : ArrayView} (hfit : PrefixesFit view.shape) (hshape : derived.shape = view.shape) :
    RollOutcome view amount none (.ok derived)
  | uncounted (hlarge : ¬PrefixesFit view.shape) : RollOutcome view amount none (.error (.fault .overflow))
  /-- Along an axis. -/
  | along {derived : ArrayView} {axis size : Nat} (haxis : view.shape[axis]? = some size)
    (hshift : ¬Unshiftable amount size) (hshape : derived.shape = view.shape) :
    RollOutcome view amount (some axis) (.ok derived)
  | noAxis {axis : Nat} (haxis : view.shape.length ≤ axis) :
    RollOutcome view amount (some axis) (.error (.refused (.noAxis axis view.shape.length)))
  | unshiftable {axis size : Nat} (haxis : view.shape[axis]? = some size) (hshift : Unshiftable amount size) :
    RollOutcome view amount (some axis) (.error (.fault .overflow))

/-- How importing a value as an array comes out. -/
inductive ImportOutcome (value : Value) (elemType : ElemType) (asked : Option (List Nat)) (workspace : Workspace) :
    EStateM.Result (Failure ArrayError) Workspace ArrayView → Prop where
  /-- The shape that was asked for holds the elements that the value splits into, or none was asked for. -/
  | imported {view : ArrayView} {after : Workspace} (hsplits : Splits value elemType asked)
    (hshape : view.shape = asked.getD [value.width / elemType.width]) (hfit : PrefixesFit view.shape) :
    ImportOutcome value elemType asked workspace (.ok view after)
  | indivisible (hdivides : ¬elemType.width ∣ value.width) :
    ImportOutcome value elemType asked workspace
      (.error (.refused (.width (.indivisible value.width elemType.width))) workspace)
  | emptyAxis {shape : List Nat} (hasked : asked = some shape) (hdivides : elemType.width ∣ value.width)
    (haxes : shape = [] ∨ 0 ∈ shape) :
    ImportOutcome value elemType asked workspace (.error (.refused (.shape (.emptyAxis shape))) workspace)
  | otherCount {shape : List Nat} (hasked : asked = some shape) (hdivides : elemType.width ∣ value.width)
    (haxes : shape ≠ [] ∧ 0 ∉ shape) (hfit : shape.prod < sizeBound)
    (hcount : shape.prod ≠ value.width / elemType.width) :
    ImportOutcome value elemType asked workspace (.error (.refused (.shape
      (.elementCount value.width (value.width / elemType.width) elemType.width shape))) workspace)
  /-- The elements of the shape that was asked for cannot be counted. -/
  | overflow {shape : List Nat} (hasked : asked = some shape) (hdivides : elemType.width ∣ value.width)
    (haxes : shape ≠ [] ∧ 0 ∉ shape) (hlarge : sizeBound ≤ shape.prod) :
    ImportOutcome value elemType asked workspace (.error (.fault .overflow) workspace)

/-- The queries of an array whose elements can be counted: they answer, or refuse with good reason. -/
structure AnswersQueries (view : ArrayView) (store : Store) : Prop where
  count : view.count = .ok view.shape.prod
  population : ∃ population, view.population store = .ok population
  firstUnset : ∃ found, view.firstUnset store = .ok found
  elements : ∀ kind, view.elements store ≠ .error (.fault kind)
  get : ∀ coordinate kind, view.get store coordinate ≠ .error (.fault kind)

/-- The queries of an array whose elements cannot be counted, although there are none. -/
structure OverflowsQueries (view : ArrayView) (store : Store) : Prop where
  empty : view.shape.prod = 0
  count : view.count = .error .overflow
  population : view.population store = .error .overflow
  firstUnset : view.firstUnset store = .error .overflow
  elements : view.elements store = .error (.fault .overflow)
  /-- There is no coordinate to ask for. -/
  get : ∀ coordinate found, view.get store coordinate ≠ .ok found

/-! ### Deriving -/

theorem reshape_outcome (view : ArrayView) (shape : List Nat) : view.ReshapeOutcome shape (view.reshape shape) := by
  rcases elementCount_cases view.shape with ⟨hold, holdCount⟩ | ⟨hlarge, holdCount⟩
  · rcases elementCount_cases shape with ⟨hnew, hnewCount⟩ | ⟨hlarge, hnewCount⟩
    · have hmap : reshapeMap view.shape shape
          = if shape.isEmpty ∨ view.shape.prod ≠ shape.prod then
              .error (.refused (.reshape view.shape view.shape.prod shape shape.prod))
            else .ok .identity := by
        rw [reshapeMap, holdCount, hnewCount]
        rfl
      by_cases hmisfit : shape = [] ∨ view.shape.prod ≠ shape.prod
      · have hrun : view.reshape shape
            = .error (.refused (.reshape view.shape view.shape.prod shape shape.prod)) := by
          rw [reshape, hmap, if_pos (by rwa [List.isEmpty_iff])]
          rfl
        rw [hrun]
        exact .refused hold hnew hmisfit
      · have hrun : view.reshape shape = .ok (view.derive shape .identity) := by
          rw [reshape, hmap, if_neg (by rwa [List.isEmpty_iff])]
          rfl
        obtain ⟨haxes, hprod⟩ := not_or.mp hmisfit
        rw [hrun]
        exact .reshaped hold hnew haxes (not_not.mp hprod) rfl
    · have hrun : view.reshape shape = .error (.fault .overflow) := by
        rw [reshape, reshapeMap, holdCount, hnewCount]
        rfl
      rw [hrun]
      exact .overflow fun hfit => hlarge hfit.2
  · have hrun : view.reshape shape = .error (.fault .overflow) := by
      rw [reshape, reshapeMap, holdCount]
      rfl
    rw [hrun]
    exact .overflow fun hfit => hlarge hfit.1

theorem transpose_outcome (view : ArrayView) (permutation : List Nat) :
    view.TransposeOutcome permutation (view.transpose permutation) := by
  by_cases hperm : permutation.Perm (List.range view.shape.length)
  · rw [transpose, transposeMap_eq hperm]
    exact .transposed hperm rfl
  · -- lengths are compared first
    by_cases hlength : permutation.length = view.shape.length
    · have haxes : ¬visitsOnce (List.replicate view.shape.length false) permutation = true :=
        fun haxes => hperm ((visitsOnce_iff_perm hlength).mp haxes)
      rw [transpose, transposeMap, if_neg (not_not.mpr hlength), if_neg haxes]
      exact .notPermutation hlength hperm
    · rw [transpose, transposeMap, if_pos hlength]
      exact .otherRank hlength

theorem roll_outcome (hsize : view.shape.prod < signedBound) (amount : Int) (axis : Option Nat) :
    view.RollOutcome amount axis (view.roll amount axis) := by
  cases axis with
  | none =>
    by_cases hfit : PrefixesFit view.shape
    · obtain ⟨map, hmap⟩ := exists_rollMap hfit hsize amount
      have hrun : view.roll amount none = .ok (view.derive view.shape map) := by
        rw [roll, hmap]
        rfl
      rw [hrun]
      exact .flat hfit rfl
    · have hrun : view.roll amount none = .error (.fault .overflow) := by
        rw [roll, rollMap_overflow hfit]
        rfl
      rw [hrun]
      exact .uncounted hfit
  | some axis =>
    cases haxis : view.shape[axis]? with
    | none =>
      have hle : view.shape.length ≤ axis := List.getElem?_eq_none_iff.mp haxis
      have hrun : view.roll amount (some axis) = .error (.refused (.noAxis axis view.shape.length)) := by
        rw [roll, rollAxisMap_refused hle]
        rfl
      rw [hrun]
      exact .noAxis hle
    | some size =>
      by_cases hshift : Unshiftable amount size
      · have hrun : view.roll amount (some axis) = .error (.fault .overflow) := by
          rw [roll, rollAxisMap_overflow haxis hshift]
          rfl
        rw [hrun]
        exact .unshiftable haxis hshift
      · obtain ⟨map, hmap⟩ := exists_rollAxisMap haxis hshift
        have hrun : view.roll amount (some axis) = .ok (view.derive view.shape map) := by
          rw [roll, hmap]
          rfl
        rw [hrun]
        exact .along haxis hshift rfl

/-! ### Importing -/

/-- Where the shape is refused, so is the import, before a store is added. -/
private theorem ofValueAs_of_shape_error {value : Value} {elemType : ElemType} {asked : Option (List Nat)}
    {failure : Failure ArrayError} (hdivides : elemType.width ∣ value.width)
    (hshape : importShape value (Store.ofImport value elemType) asked = .error failure) (workspace : Workspace) :
    ofValueAs value elemType asked workspace = .error failure workspace := by
  rw [ofValueAs_run, importAs, Store.imported_eq_ok.mpr ⟨hdivides, rfl⟩]
  change (liftM (importShape value (Store.ofImport value elemType) asked >>= _) >>= _ : Session ArrayView) workspace = _
  rw [hshape]
  rfl

/-- A layout that holds all of a value can be counted. -/
theorem prefixesFit_of_splits {value : Value} {elemType : ElemType} {asked : Option (List Nat)}
    (hword : value.width < wordBound) (h : Splits value elemType asked) :
    PrefixesFit (asked.getD [value.width / elemType.width]) := by
  have hsized : value.width / elemType.width < sizeBound :=
    (Nat.div_le_self _ _).trans_lt (hword.trans wordBound_lt_sizeBound)
  cases asked with
  | none =>
    rw [Option.getD_none, ← elementCount_eq_ok_iff, List.prod_singleton]
    exact elementCount_single hsized
  | some shape =>
    obtain ⟨-, hzero, hprod⟩ := h.2 shape rfl
    have hpos : 0 < shape.prod := Nat.pos_of_ne_zero fun hzero' => hzero (List.prod_eq_zero_iff.mp hzero')
    exact (prefixesFit_iff_of_pos hpos).mpr (hprod.trans_lt hsized)

theorem import_outcome {value : Value} (hword : value.width < wordBound) (elemType : ElemType)
    (asked : Option (List Nat)) (workspace : Workspace) :
    ImportOutcome value elemType asked workspace (ofValueAs value elemType asked workspace) := by
  by_cases hdivides : elemType.width ∣ value.width
  · by_cases hsplits : Splits value elemType asked
    · rw [ofValueAs_of_splits hword hsplits]
      exact .imported hsplits rfl (prefixesFit_of_splits hword hsplits)
    -- the value is split, so it is the shape that does not suit
    cases asked with
    | none =>
      refine absurd ⟨hdivides, fun shape hshape => ?_⟩ hsplits
      cases hshape
    | some shape =>
      by_cases haxes : shape = [] ∨ 0 ∈ shape
      · have hshape : importShape value (Store.ofImport value elemType) (some shape)
            = .error (.refused (.shape (.emptyAxis shape))) := by
          rw [importShape, checkShape, if_pos haxes]
          rfl
        rw [ofValueAs_of_shape_error hdivides hshape]
        exact .emptyAxis rfl hdivides haxes
      have hcheck : checkShape shape = .ok () := if_neg haxes
      have hpos : 0 < shape.prod := Nat.pos_of_ne_zero fun hzero => haxes (.inr (List.prod_eq_zero_iff.mp hzero))
      by_cases hfit : shape.prod < sizeBound
      · have hcount : shape.prod ≠ value.width / elemType.width := by
          refine fun hcount => hsplits ⟨hdivides, fun asked hasked => ?_⟩
          obtain rfl := Option.mem_some_iff.mp hasked
          exact ⟨(not_or.mp haxes).1, (not_or.mp haxes).2, hcount⟩
        have hshape : importShape value (Store.ofImport value elemType) (some shape) = .error (.refused (.shape
            (.elementCount value.width (value.width / elemType.width) elemType.width shape))) := by
          rw [importShape, hcheck, elementCount_eq hpos hfit, Store.size_ofImport]
          exact if_neg hcount
        rw [ofValueAs_of_shape_error hdivides hshape]
        exact .otherCount rfl hdivides (not_or.mp haxes) hfit hcount
      · have hlarge : ¬PrefixesFit shape := fun h => hfit ((prefixesFit_iff_of_pos hpos).mp h)
        have hshape : importShape value (Store.ofImport value elemType) (some shape) = .error (.fault .overflow) := by
          rw [importShape, hcheck, elementCount_eq_error_iff.mpr ⟨rfl, hlarge⟩]
          rfl
        rw [ofValueAs_of_shape_error hdivides hshape]
        exact .overflow rfl hdivides (not_or.mp haxes) (Nat.not_lt.mp hfit)
  · have himport : importAs value elemType asked
        = .error (.refused (.width (.indivisible value.width elemType.width))) := by
      have hrest : ¬(BitRange.whole value).width % elemType.width = 0 :=
        fun hzero => hdivides (Nat.dvd_of_mod_eq_zero hzero)
      rw [importAs, Store.imported, if_neg hrest]
      rfl
    rw [ofValueAs_run, himport]
    exact .indivisible hdivides

/-! ### Queries -/

section Queries

variable (hsound : workspace.Sound) (h : view.Fits store) (hstore : store.Sound workspace.builder)

include hsound h hstore

theorem Fits.answersQueries (hfit : PrefixesFit view.shape) : view.AnswersQueries store := by
  have hcount : view.count = .ok view.shape.prod := elementCount_eq_ok_iff.mpr hfit
  refine ⟨hcount, ?_, ⟨_, firstUnset_eq hsound h hstore hcount⟩, ?_, ?_⟩
  · by_cases hmark : view.loweredAt = some store.revision
    · exact ⟨_, population_of_marked hmark⟩
    · exact ⟨_, population_eq hsound h hstore hcount hmark⟩
  · intro kind hfault
    rw [h.elements_fault_iff hsound hstore, hcount] at hfault
    cases hfault
  · intro coordinate kind hfault
    rw [h.get_fault_iff hsound hstore] at hfault
    rcases linearize_cases hcount coordinate with ⟨-, hoffset⟩ | ⟨-, cause, hoffset⟩ <;>
    · rw [hoffset] at hfault
      cases hfault

omit hsound in
theorem Fits.overflowsQueries (hlarge : ¬PrefixesFit view.shape) (hmark : view.loweredAt ≠ some store.revision) :
    view.OverflowsQueries store := by
  have hcount : view.count = .error .overflow := elementCount_eq_error_iff.mpr ⟨rfl, hlarge⟩
  have hprod : view.shape.prod = 0 :=
    prod_eq_zero_of_not_fit ((h.shape_lt hstore.addressable).trans signedBound_lt_sizeBound) hlarge
  refine ⟨hprod, hcount, ?_, firstUnset_of_uncounted hcount store, elements_of_uncounted hcount store, ?_⟩
  · rw [population, if_neg hmark, hcount]
    rfl
  · intro coordinate found hget
    obtain ⟨offset, hoffset, -⟩ := bind_eq_ok.mp hget
    have hlt := lt_of_linearize hoffset
    omega

end Queries

end ArrayView

namespace Scene

variable {scene : Scene} {view : ArrayView}

/-- Only an array whose elements were counted was ever lowered. -/
theorem prefixesFit_of_marked (hscene : scene.Reachable) (hview : view ∈ scene.arrays) (hmark : view.loweredAt ≠ none) :
    PrefixesFit view.shape := by
  obtain ⟨lowering, hanswered⟩ := notesLowerings_of_reachable hscene view hview hmark
  obtain ⟨hlowered, -⟩ := ArrayView.lower_eq_ok.mp hanswered.run
  obtain ⟨count, -, -, -, hcount, -⟩ := ArrayView.lowered_eq_ok.mp hlowered
  obtain ⟨rfl, -⟩ := eq_of_elementCount hcount
  -- the array has the shape of the one that was lowered
  rw [hanswered.eq_source]
  exact elementCount_eq_ok_iff.mp hcount

/-- **Changes of shape.** Take any scene.

* Whichever of its arrays is reshaped, transposed or rolled, and whatever the arguments are, it comes out as the tables
  say, and so does the import of any of its values. A transpose is never more than refused.
* The queries of an array all answer if its elements can be counted, and all overflow if they cannot, which only happens
  if there are none. Whatever an operation returns is an array of the next scene, so this holds of it as well.
-/
theorem shape_outcomes (hscene : scene.Reachable) :
    (∀ view ∈ scene.arrays,
      (∀ shape, view.ReshapeOutcome shape (view.reshape shape)) ∧
      (∀ permutation, view.TransposeOutcome permutation (view.transpose permutation)) ∧
      (∀ amount axis, view.RollOutcome amount axis (view.roll amount axis)) ∧
      ∃ store, scene.workspace.store view.store = .ok store ∧
        (PrefixesFit view.shape → view.AnswersQueries store) ∧
        (¬PrefixesFit view.shape → view.OverflowsQueries store)) ∧
    ∀ value ∈ scene.values, ∀ elemType asked, ArrayView.ImportOutcome value elemType asked scene.workspace
      (ArrayView.ofValueAs value elemType asked scene.workspace) := by
  have hsound := sound_of_reachable hscene
  refine ⟨?_, ?_⟩
  · intro view hview
    obtain ⟨store, hstore, hfits, hstoreSound⟩ := hsound.fits hview
    have hsize := hfits.shape_lt hstoreSound.addressable
    refine ⟨view.reshape_outcome, view.transpose_outcome, ArrayView.roll_outcome hsize, store, hstore, ?_, ?_⟩
    · exact hfits.answersQueries hsound.workspace hstoreSound
    · intro hlarge
      refine hfits.overflowsQueries hstoreSound hlarge ?_
      -- a lowered array has been counted
      intro hmark
      refine hlarge ?_
      exact prefixesFit_of_marked hscene hview (by rw [hmark]; exact Option.some_ne_none _)
  · intro value hvalue elemType asked
    obtain ⟨bits, hbits⟩ := hsound.made.values value hvalue
    exact ArrayView.import_outcome (hbits.width_lt hsound.workspace.builder) elemType asked scene.workspace

/-- Of two arrays without elements, the one has a shape that can be given to it and answers all queries; the other, with
the same axes in another order, overflows, and so do its queries. -/
theorem shape_outcomes_hollow :
    (∃ derived, emptyArray.reshape [3, 0] = .ok derived ∧ derived.shape = [3, 0]) ∧
    emptyArray.AnswersQueries (.empty 1 .i8) ∧ hollowArray.OverflowsQueries (.empty 1 .i8) ∧
    hollowArray.reshape [3, 0] = .error (.fault .overflow) := by
  obtain ⟨hderive, -⟩ := shape_outcomes hollow_reachable
  have hheld : hollow.workspace.store ⟨0⟩ = .ok (.empty 1 .i8) := by decide +kernel
  obtain ⟨hreshape, -, -, store, hstore, hanswers, -⟩ := hderive emptyArray (by decide +kernel)
  obtain ⟨hreshape', -, -, store', hstore', -, hoverflows⟩ := hderive hollowArray (by decide +kernel)
  obtain rfl := Except.ok.inj (hheld.symm.trans hstore)
  obtain rfl := Except.ok.inj (hheld.symm.trans hstore')
  have hfit : PrefixesFit emptyArray.shape := by decide
  have hlarge : ¬PrefixesFit hollowArray.shape := by decide
  refine ⟨?_, hanswers hfit, hoverflows hlarge, ?_⟩
  · have houtcome := hreshape [3, 0]
    generalize emptyArray.reshape [3, 0] = result at houtcome ⊢
    cases houtcome with
    | reshaped _ _ _ _ hshape => exact ⟨_, rfl, hshape⟩
    | refused _ _ hmisfit => exact absurd hmisfit (by decide)
    | overflow hlarge => exact absurd ⟨hfit, by decide⟩ hlarge
  · have houtcome := hreshape' [3, 0]
    generalize hollowArray.reshape [3, 0] = result at houtcome ⊢
    cases houtcome with
    | reshaped hold => exact absurd hold hlarge
    | refused hold => exact absurd hold hlarge
    | overflow => rfl

/-- The array of which nothing is kept, on a line. -/
def lineArray : ArrayView := { emptyArray with shape := [0] }

/-- It has no elements, and a shape with two long axes and an empty one behind them has none either. It cannot be given
that shape, although it can be given the one with the empty axis in front, of which the other is a transpose. -/
theorem reshape_overflow_lineArray :
    hollow.Reachable ∧ lineArray ∈ hollow.arrays ∧
      lineArray.shape.prod = ([1099511627776, 1099511627776, 0] : List Nat).prod ∧
      lineArray.reshape [1099511627776, 1099511627776, 0] = .error (.fault .overflow) ∧
      lineArray.reshape [0, 1099511627776, 1099511627776] = .ok emptyArray ∧
      emptyArray.transpose [1, 2, 0] = .ok hollowArray ∧ hollowArray.count = .error .overflow := by
  refine ⟨hollow_reachable, ?_⟩
  decide +kernel

end Scene

end NetArray
