import Mathlib
import NetArray.Proofs.Array.WriteOutcomes

/-!
# The ways to write agree

A wide value is split over single bits in three places: by the store, over consecutive slots; by an array, over
the slots behind consecutive places; and by an assignment to a region. Each has its own checks, its own order of
the bits and its own entry in the revision count.

* `Store.set_eq_setRange` is the first against the second: where there are so many slots, the two are the same
  operation on the store.
* `Fits.set_as_store` says that an array without offset maps writes as its store does. The two refuse a width in
  different words, so outcomes are compared by `SameWrite`: the same store, the same fault or a refusal of the
  same kind.
* `Fits.assign_of_set` is the second against the third, through any chain of offset maps.
-/

namespace NetArray

/-! ### Outcomes -/

/-- What a refusal is about. -/
inductive ErrorKind where
  | index
  | shape
  | width
  | elementTypes
  | unset
  | build
  deriving DecidableEq, Repr

def ArrayError.kind : ArrayError → ErrorKind
  | .index _ => .index
  | .shape _ => .shape
  | .width _ => .width
  | .elementTypes _ _ => .elementTypes
  | .unset _ => .unset
  | .build _ => .build

/-- Two writes come out the same: both write the same, or both fail for the same kind of reason and leave the
same behind. -/
inductive SameWrite {σ : Type} :
    EStateM.Result (Failure ArrayError) σ Unit → EStateM.Result (Failure ArrayError) σ Unit → Prop where
  | written (after : σ) : SameWrite (.ok () after) (.ok () after)
  | refused {cause cause' : ArrayError} (after : σ) (hkind : cause.kind = cause'.kind) :
    SameWrite (.error (.refused cause) after) (.error (.refused cause') after)
  | fault (kind : Fault) (after : σ) : SameWrite (.error (.fault kind) after) (.error (.fault kind) after)

theorem SameWrite.of_eq {σ : Type} {result result' : EStateM.Result (Failure ArrayError) σ Unit}
    (h : result = result') : SameWrite result result' := by
  subst h
  cases result with
  | ok _ after => exact .written after
  | error failure after =>
    cases failure with
    | refused cause => exact .refused after rfl
    | fault kind => exact .fault kind after

/-! ### In the store -/

namespace Store

variable {store : Store} {offset : Nat} {value : BitRange}

theorem classify_bitwise {width : Nat} {elemType : ElemType} (hbits : elemType.width = 1)
    (hwide : 1 < width) : WriteMode.classify width elemType = .bitwise := by
  rw [WriteMode.classify, if_neg (by omega), if_pos ⟨hbits, hwide⟩]

/-- What filling single bits comes to once everything is checked. -/
def fillBits (offset : Nat) (value : BitRange) : Change Store ArrayError Unit := do
  let bits ← (chunks value 1 value.width : Checked (List BitRange))
  commit ((List.range' offset value.width).zip (bits.map .bit))

section

variable (hbits : store.elemType.width = 1) (hwide : 1 < value.width) (hstop : offset + value.width < sizeBound)
  (hend : offset + value.width ≤ store.size)

include hbits hwide hstop hend

theorem set_eq_fillBits : set offset value store = fillBits offset value store := by
  have hsized : sized (offset + value.width) = .ok (offset + value.width) := sized_eq_ok.mpr ⟨hstop, rfl⟩
  rw [set, change_get_bind, classify_bitwise hbits hwide]
  refine (change_lift_checked_run hsized).trans ?_
  rw [if_neg (Nat.not_lt.mpr hend)]
  rfl

theorem setRange_eq_fillBits :
    setRange (List.range' offset value.width) value store = fillBits offset value store := by
  have hlength : (List.range' offset value.width).length = value.width := List.length_range'
  have htotal : sized ((List.range' offset value.width).length * store.elemType.width) = .ok value.width :=
    sized_eq_ok.mpr ⟨by rw [hlength, hbits]; omega, by rw [hlength, hbits, Nat.mul_one]⟩
  have hchecked : ((List.range' offset value.width).forM fun place =>
      (liftM (store.checkOffset place) : Change Store ArrayError Unit)) store = .ok .unit store := by
    refine forM_checkOffset_eq_ok.mpr ⟨fun place hplace => ?_, rfl⟩
    exact (List.mem_range'_1.mp hplace).2.trans_le hend
  rw [setRange, change_get_bind]
  refine (change_lift_checked_run htotal).trans ?_
  rw [if_neg (not_not.mpr rfl)]
  refine (change_run hchecked).trans ?_
  rw [hlength, hbits, if_pos ⟨rfl, hwide⟩]
  rfl

/-- **Filling single bits** is splitting over the slots that follow: the same bits with the same tags in the same
slots, and one write counted. -/
theorem set_eq_setRange :
    set offset value store = setRange (List.range' offset value.width) value store :=
  (set_eq_fillBits hbits hwide hstop hend).trans (setRange_eq_fillBits hbits hwide hstop hend).symm

end

/-- Single bits that are not there are found before anything is written. -/
theorem set_pastEnd (hbits : store.elemType.width = 1) (hwide : 1 < value.width)
    (hstop : offset + value.width < sizeBound) (hend : store.size < offset + value.width) :
    set offset value store =
      .error (.refused (.index (.bitsPastEnd value.width offset store.size))) store := by
  have hsized : sized (offset + value.width) = .ok (offset + value.width) := sized_eq_ok.mpr ⟨hstop, rfl⟩
  rw [set, change_get_bind, classify_bitwise hbits hwide]
  refine (change_lift_checked_run hsized).trans ?_
  rw [if_pos hend]
  rfl

theorem set_overflow (hbits : store.elemType.width = 1) (hwide : 1 < value.width)
    (hstop : ¬offset + value.width < sizeBound) :
    set offset value store = .error (.fault .overflow) store := by
  rw [set, change_get_bind, classify_bitwise hbits hwide]
  change ((liftM (sized (offset + value.width)) : Change Store ArrayError Nat) >>= _) store = _
  rw [sized, if_neg hstop]
  rfl

theorem set_mismatch (hmode : WriteMode.classify value.width store.elemType = .mismatch) :
    set offset value store =
      .error (.refused (.width (.store value.width 1 store.elemType.width))) store := by
  rw [set, change_get_bind, hmode]
  rfl

end Store

/-- An operation that fails and changes nothing in its store changes nothing in the workspace. -/
theorem Session.onStore_eq_error {workspace : Workspace} {id : StoreId} {store : Store}
    {operation : Change Store ArrayError Unit} {failure : Failure ArrayError}
    (hstore : workspace.store id = .ok store) (hrun : operation store = .error failure store) :
    Session.onStore id operation workspace = .error failure workspace := by
  have hsame : workspace.replace id store = workspace := Workspace.replace_self hstore
  rw [Session.onStore, Workspace.store_eq_ok.mp hstore]
  simp only [hrun]
  exact congrArg _ hsame

/-- Operations that do the same to a store do the same to the workspace. -/
theorem Session.onStore_congr {workspace : Workspace} {id : StoreId} {store : Store}
    {operation operation' : Change Store ArrayError Unit}
    (hstore : workspace.store id = .ok store) (hrun : operation store = operation' store) :
    Session.onStore id operation workspace = Session.onStore id operation' workspace := by
  simp only [Session.onStore, Workspace.store_eq_ok.mp hstore, hrun]

/-! ### A stretch of a line -/

theorem elementCount_single {count : Nat} (h : count < sizeBound) : elementCount [count] = .ok count := by
  change (sized (1 * count) >>= _) = _
  rw [sized, Nat.one_mul, if_pos h]
  rfl

/-- Consecutive places of a line are a region, and its offsets are the places themselves. -/
theorem region_stretch {size start length : Nat} (hend : start + length ≤ size) (hsize : size < sizeBound)
    (hlength : length * 8 < signedBound) :
    region [size] [.range { start := some start, stop := some (start + length) }]
      = .ok ⟨[length], List.range' start length⟩ := by
  -- the bounds are clipped to the line, which holds them
  have hchoice : IndexRange.choose { start := some start, stop := some (start + length) } size
      = .ok ⟨start, 1, length, true⟩ := by
    have hstart : min start size = start := by omega
    have hstop : min (start + length) size = start + length := by omega
    have hsteps : (start + length - start + 1 - 1) / 1 = length := by omega
    simp only [IndexRange.choose, Option.getD_some, hstart, hstop, hsteps, listed_of_lt hlength]
    rfl
  have hchoices : choices 0 [size] [.range { start := some start, stop := some (start + length) }]
      = .ok [⟨start, 1, length, true⟩] := by
    rw [choices, List.headD_cons, Selector.choose, hchoice]
    rfl
  have hcount : elementCount (sizes [⟨start, 1, length, true⟩]) = .ok length := by
    have hlt : length < sizeBound := by omega
    exact elementCount_single hlt
  have hoffsets : keptOffsets [size] [⟨start, 1, length, true⟩] = .ok (List.range' start length) := by
    rw [keptOffsets_of_choices (by simpa using hsize) hchoices hcount (listed_of_lt hlength)]
    -- the rows of a line are its elements
    have hpositions := positions_rows size start length []
    rw [List.prod_nil, Nat.mul_one, Nat.mul_one] at hpositions
    exact congrArg _ hpositions
  rw [region_of_choices (by simp) hchoices, hoffsets]
  rfl

/-! ### Through an array without offset maps -/

namespace ArrayView

variable {view : ArrayView} {store : Store} {workspace : Workspace} {coordinate : List Nat} {value : BitRange}
  {offset : Nat}

theorem storeOffset_of_nil (hmaps : view.maps = []) (offset : Nat) : view.storeOffset offset = .ok offset := by
  rw [storeOffset, hmaps]
  rfl

theorem storeOffsets_of_nil (hmaps : view.maps = []) (offsets : List Nat) :
    view.storeOffsets offsets = .ok offsets := by
  rw [storeOffsets, mapM_eq_ok, List.forall₂_same]
  exact fun offset _ => storeOffset_of_nil hmaps offset

/-- **An array without offset maps** writes at a coordinate as its store does at the offset of the coordinate. -/
theorem Fits.set_as_store (h : view.Fits store) (hstore : workspace.store view.store = .ok store)
    (haddressable : store.size * 24 < signedBound) (hmaps : view.maps = [])
    (hoffset : linearize view.shape coordinate = .ok offset) :
    SameWrite (view.set coordinate value workspace)
      (Session.onStore view.store (Store.set offset value) workspace) := by
  -- without offset maps the array has one element for each slot, so both sides check the same end
  have hfull : view.shape.prod = store.size := h.full (by simp [hmaps])
  have hlt : offset < store.size := hfull ▸ lt_of_linearize hoffset
  have hset : view.set coordinate value workspace = _ := change_lift_run (lift_index_eq_ok.mpr hoffset)
  cases hmode : WriteMode.classify value.width view.elemType with
  | whole =>
    rw [hset, hmode]
    exact .of_eq (change_lift_checked_run (storeOffset_of_nil hmaps offset))
  | bitwise =>
    rw [hmode] at hset
    obtain ⟨hbits, hwide⟩ := Store.width_of_classify_bitwise hmode
    rw [h.elemType] at hbits
    by_cases hstop : offset + value.width < sizeBound
    · have hsized : sized (offset + value.width) = .ok (offset + value.width) := sized_eq_ok.mpr ⟨hstop, rfl⟩
      have hcount : view.count = .ok store.size := hfull ▸ h.count_eq haddressable (by omega)
      have hchecks : view.set coordinate value workspace = _ :=
        hset.trans ((change_lift_checked_run hsized).trans (change_lift_checked_run hcount))
      by_cases hend : store.size < offset + value.width
      · rw [hchecks, if_pos hend, Session.onStore_eq_error hstore (Store.set_pastEnd hbits hwide hstop hend)]
        exact .refused workspace rfl
      · rw [hchecks, if_neg hend]
        refine .of_eq ((change_lift_checked_run (storeOffsets_of_nil hmaps _)).trans ?_)
        exact Session.onStore_congr hstore
          (Store.set_eq_setRange hbits hwide hstop (Nat.not_lt.mp hend)).symm
    · -- neither finds a place for the end of the value
      have hsized : sized (offset + value.width) = .error .overflow := if_neg hstop
      rw [hset, hsized, Session.onStore_eq_error hstore (Store.set_overflow hbits hwide hstop)]
      exact .fault .overflow workspace
  | mismatch =>
    rw [hset, hmode, Session.onStore_eq_error hstore (Store.set_mismatch (h.elemType ▸ hmode))]
    exact .refused workspace rfl

/-! ### Through a region of the flat view -/

/-- An array can be made flat: the elements keep their offsets, and their slots. -/
theorem exists_flat {count : Nat} (hcount : view.count = .ok count) :
    ∃ flat, view.reshape [count] = .ok flat ∧ flat.shape = [count] ∧ flat.elemType = view.elemType ∧
      flat.store = view.store ∧ flat.maps = view.maps := by
  have hflat : elementCount [count] = .ok count := elementCount_single (eq_of_elementCount hcount).2
  have hmap : reshapeMap view.shape [count] = .ok .identity := by
    rw [reshapeMap, show elementCount view.shape = .ok count from hcount, hflat]
    exact if_neg (by simp)
  refine ⟨view.derive [count] .identity, ?_, rfl, rfl, rfl, rfl⟩
  rw [reshape, hmap]
  rfl

/-- **A region of the flat view.** What a write of a wide value at a coordinate of single bits does, an assignment to
as many places of the flat view does too, from the offset of the coordinate on. -/
theorem Fits.assign_of_set {after : Workspace} (h : view.Fits store)
    (haddressable : store.size * 24 < signedBound) (hbits : view.elemType.width = 1) (hwide : 1 < value.width)
    (hoffset : linearize view.shape coordinate = .ok offset)
    (hset : view.set coordinate value workspace = .ok () after) :
    ∃ count flat, view.count = .ok count ∧ view.reshape [count] = .ok flat ∧
      flat.assign [.range { start := some offset, stop := some (offset + value.width) }] value workspace
        = .ok () after := by
  have hpos : 0 < view.shape.prod := by
    have := lt_of_linearize hoffset
    omega
  have hcount : view.count = .ok view.shape.prod := h.count_eq haddressable hpos
  obtain ⟨flat, hflat, hshape, helemType, hid, hmaps⟩ := exists_flat hcount
  refine ⟨_, flat, hcount, hflat, ?_⟩
  -- the write has found the end of the value within the array, and slots for all of its bits
  obtain ⟨_, _, hlift, hrest⟩ := change_bind_eq_ok.mp hset
  obtain ⟨hlinear, rfl⟩ := change_lift_eq_ok.mp hlift
  cases hoffset.symm.trans (lift_index_eq_ok.mp hlinear)
  rw [Store.classify_bitwise hbits hwide] at hrest
  obtain ⟨_, _, hlift, hrest⟩ := change_bind_eq_ok.mp hrest
  obtain ⟨hstop, rfl⟩ := change_lift_checked_eq_ok.mp hlift
  obtain ⟨-, rfl⟩ := sized_eq_ok.mp hstop
  obtain ⟨_, _, hlift, hrest⟩ := change_bind_eq_ok.mp hrest
  obtain ⟨hcounted, rfl⟩ := change_lift_checked_eq_ok.mp hlift
  cases hcount.symm.trans hcounted
  obtain ⟨hend, hrest⟩ := change_guard_eq_ok.mp hrest
  obtain ⟨targets, _, hlift, hwrite⟩ := change_bind_eq_ok.mp hrest
  obtain ⟨htargets, rfl⟩ := change_lift_checked_eq_ok.mp hlift
  -- the assignment finds the same slots
  have hshapeLt := h.shape_lt haddressable
  have hle := h.embeds.le
  have hregion : region flat.shape [.range { start := some offset, stop := some (offset + value.width) }]
      = .ok ⟨[value.width], List.range' offset value.width⟩ := by
    rw [hshape]
    exact region_stretch (Nat.not_lt.mp hend) (hshapeLt.trans signedBound_lt_sizeBound) (by omega)
  have hflatTargets : flat.storeOffsets (List.range' offset value.width) = .ok targets := by
    rw [← htargets]
    unfold storeOffsets storeOffset
    rw [hmaps]
  have hlength : targets.length = value.width := by
    rw [← (mapM_eq_ok.mp htargets).length_eq, List.length_range']
  have htotal : sized (targets.length * flat.elemType.width) = .ok value.width := by
    have hlt := signedBound_lt_sizeBound
    rw [hlength, helemType, hbits, Nat.mul_one]
    exact sized_eq_ok.mpr ⟨by omega, rfl⟩
  refine (change_lift_run (lift_index_eq_ok.mpr hregion)).trans ?_
  refine (change_lift_checked_run hflatTargets).trans ((change_lift_checked_run htotal).trans ?_)
  rw [if_pos rfl, hid]
  exact hwrite

end ArrayView

namespace Scene

variable {scene : Scene} {view : ArrayView}

/-- **The ways to write agree.** Take any array that somebody made and any value.

* If the array has no offset maps, a write at a coordinate comes out as a write to the store at the offset of the
  coordinate does: both succeed and leave the same slots, tags and revision, or both fail for the same kind of
  reason and change the same.
* If the elements are single bits and the value is wider, a write that succeeds leaves what an assignment to as many
  places of the flat view leaves, from the offset of the coordinate on.
-/
theorem writes_agree (hscene : scene.Reachable) (hview : view ∈ scene.arrays) (value : BitRange) :
    (view.maps = [] → ∀ coordinate, Within view.shape coordinate →
      ∃ offset, linearize view.shape coordinate = .ok offset ∧
        SameWrite (view.set coordinate value scene.workspace)
          (Session.onStore view.store (Store.set offset value) scene.workspace)) ∧
    (view.elemType.width = 1 → 1 < value.width → ∀ coordinate offset after,
      linearize view.shape coordinate = .ok offset →
        view.set coordinate value scene.workspace = .ok () after →
          ∃ count flat, view.count = .ok count ∧ view.reshape [count] = .ok flat ∧
            flat.assign [.range { start := some offset, stop := some (offset + value.width) }] value
              scene.workspace = .ok () after) := by
  obtain ⟨store, hstore, hfits, hsound⟩ := (sound_of_reachable hscene).fits hview
  refine ⟨fun hmaps coordinate hwithin => ?_, fun hbits hwide coordinate offset after hoffset hset => ?_⟩
  · have hshape := hfits.shape_lt hsound.addressable
    have hoffset : linearize view.shape coordinate = .ok (position view.shape coordinate) :=
      linearize_eq hwithin (hshape.trans signedBound_lt_sizeBound)
    exact ⟨_, hoffset, hfits.set_as_store hstore hsound.addressable hmaps hoffset⟩
  · exact hfits.assign_of_set hsound.addressable hbits hwide hoffset hset

/-- Two rows of four single bits. -/
def switchRows : ArrayView := { shape := [2, 4], elemType := .i1, store := ⟨0⟩ }

/-- The same bits in columns. -/
def switchColumns : ArrayView := { switchRows with shape := [4, 2], maps := [.permute [4, 2] [2, 4] [1, 0]] }

/-- Single bits that are yet to be written, next to an input of eight bits. -/
def switches : Scene :=
  [.call (.internType (.bits 8)), .call (.input "a" ⟨0⟩), .create [2, 4] .i1,
    .derive switchRows (.transpose [1, 0])].foldl step (start {} "m")

/-- Three bits are too many at the end of the rows, for the array as for its store. Down the columns they go to slots
that are no neighbours. -/
theorem writes_agree_switches :
    switches.Reachable ∧ switchRows ∈ switches.arrays ∧ switchColumns ∈ switches.arrays ∧
      SameWrite (switchRows.set [1, 2] ⟨gridInput, 0, 3⟩ switches.workspace)
        (Session.onStore ⟨0⟩ (Store.set 6 ⟨gridInput, 0, 3⟩) switches.workspace) ∧
      ∃ after flat, switchColumns.set [1, 0] ⟨gridInput, 0, 3⟩ switches.workspace = .ok () after ∧
        switchColumns.reshape [8] = .ok flat ∧
        flat.assign [.range { start := some 2, stop := some 5 }] ⟨gridInput, 0, 3⟩ switches.workspace
          = .ok () after := by
  have hscene : switches.Reachable := ⟨{}, "m", reaches_foldl (by decide +kernel)⟩
  have hrows : switchRows ∈ switches.arrays := by decide +kernel
  have hcolumns : switchColumns ∈ switches.arrays := by decide +kernel
  refine ⟨hscene, hrows, hcolumns, ?_, ?_⟩
  · have hwithin : Within switchRows.shape [1, 2] := .cons (by decide) (.cons (by decide) .nil)
    obtain ⟨offset, hoffset, hsame⟩ := (writes_agree hscene hrows ⟨gridInput, 0, 3⟩).1 rfl [1, 2] hwithin
    have hsix : linearize switchRows.shape [1, 2] = .ok 6 := by decide
    cases hsix.symm.trans hoffset
    exact hsame
  · have hset : switchColumns.set [1, 0] ⟨gridInput, 0, 3⟩ switches.workspace
        = .ok () (finalState (switchColumns.set [1, 0] ⟨gridInput, 0, 3⟩ switches.workspace)) := by
      decide +kernel
    obtain ⟨count, flat, hcount, hflat, hassign⟩ :=
      (writes_agree hscene hcolumns ⟨gridInput, 0, 3⟩).2 rfl (by decide) [1, 0] 2 _ (by decide) hset
    have height : switchColumns.count = .ok 8 := by decide
    cases height.symm.trans hcount
    exact ⟨_, flat, hset, hflat, hassign⟩

end Scene

end NetArray
