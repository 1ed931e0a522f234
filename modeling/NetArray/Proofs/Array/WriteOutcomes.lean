import Mathlib
import NetArray.Proofs.Array.LoweredStates
import NetArray.Proofs.Array.RegionRoundTrip
import NetArray.Proofs.Index.RegionOutcomes
import NetArray.Proofs.Index.RowMajorOrder

/-!
# How a write comes out

Whether a write through an array succeeds depends on the coordinate or the selection and on the width of the value, and
on nothing else. `SetOutcome` and `AssignOutcome` are the two tables: every line has its condition, the conditions
exclude one another, and a line that refuses leaves the workspace as it was.

That a write which has passed the checks of the array cannot be refused by the store any more, not even halfway through
a value that is written many times, is because the slots behind the places of an array are slots of its store
(`Fits.set_outcome`, `Fits.assign_outcome`). What is left are places that cannot be computed: of an array without
elements, the number of elements may not be a machine number, and the indices that are kept on an axis may be more than
memory can address.
-/

namespace NetArray

/-- The number of indices that a selection keeps. -/
def selectedCount (shape : List Nat) (selection : List Selector) : Nat :=
  ((axisLists shape selection).map List.length).prod

theorem Region.Lists.selectedCount {kept : Region} {shape : List Nat} {selection : List Selector}
    (h : kept.Lists shape selection) : kept.offsets.length = selectedCount shape selection := by
  rw [← h.offsets.length_eq, length_tuples]
  rfl

namespace ArrayView

variable {view : ArrayView} {store : Store} {workspace : Workspace} {coordinate : List Nat}
  {selection : List Selector} {value : BitRange} {offset : Nat}

/-! ### Tables -/

/-- How a write at a coordinate comes out. -/
inductive SetOutcome (view : ArrayView) (coordinate : List Nat) (value : BitRange) (workspace : Workspace) :
    EStateM.Result (Failure ArrayError) Workspace Unit → Prop where
  /-- The coordinate does not lie inside the array. -/
  | outside {cause : IndexError} (houtside : ¬Within view.shape coordinate) :
    SetOutcome view coordinate value workspace (.error (.refused (.index cause)) workspace)
  /-- The value is as wide as an element. -/
  | whole {after : Workspace} (hwithin : Within view.shape coordinate) (hwidth : value.width = view.elemType.width) :
    SetOutcome view coordinate value workspace (.ok () after)
  /-- The value fills single bits, as many as it has. -/
  | bits {after : Workspace} (hwithin : Within view.shape coordinate) (hbits : view.elemType.width = 1)
    (hwide : 1 < value.width) (hend : position view.shape coordinate + value.width ≤ view.shape.prod) :
    SetOutcome view coordinate value workspace (.ok () after)
  /-- There are not so many bits from there on. -/
  | pastEnd (hwithin : Within view.shape coordinate) (hbits : view.elemType.width = 1) (hwide : 1 < value.width)
    (hend : view.shape.prod < position view.shape coordinate + value.width) :
    SetOutcome view coordinate value workspace (.error (.refused (.index
      (.bitsPastEnd value.width (position view.shape coordinate) view.shape.prod))) workspace)
  /-- The value does not suit the elements. -/
  | mismatch (hwithin : Within view.shape coordinate) (hwidth : value.width ≠ view.elemType.width)
    (hmode : ¬(view.elemType.width = 1 ∧ 1 < value.width)) :
    SetOutcome view coordinate value workspace
      (.error (.refused (.width (.element value.width view.elemType.width))) workspace)

/-- How a write to a selection comes out. -/
inductive AssignOutcome (view : ArrayView) (selection : List Selector) (value : BitRange) (workspace : Workspace) :
    EStateM.Result (Failure ArrayError) Workspace Unit → Prop where
  | invalid {cause : IndexError} (hinvalid : ¬ValidSelection view.shape selection) :
    AssignOutcome view selection value workspace (.error (.refused (.index cause)) workspace)
  /-- The value is as wide as all that is selected, or as one element. -/
  | written {after : Workspace} (hvalid : ValidSelection view.shape selection)
    (hwidth : value.width = selectedCount view.shape selection * view.elemType.width ∨
      value.width = view.elemType.width) :
    AssignOutcome view selection value workspace (.ok () after)
  | mismatch (hvalid : ValidSelection view.shape selection)
    (hsplit : value.width ≠ selectedCount view.shape selection * view.elemType.width)
    (hwhole : value.width ≠ view.elemType.width) :
    AssignOutcome view selection value workspace (.error (.refused (.width
      (.region value.width (selectedCount view.shape selection) view.elemType.width))) workspace)

/-- How a write to a selection ends that is too large to be computed with. -/
inductive AssignFault (view : ArrayView) (selection : List Selector) (workspace : Workspace) :
    EStateM.Result (Failure ArrayError) Workspace Unit → Prop where
  /-- Memory cannot address what is selected. -/
  | capacity (hlong : ¬AddressableSelection view.shape selection) :
    AssignFault view selection workspace (.error (.fault .capacity) workspace)
  /-- The bits that are selected cannot be counted. -/
  | overflow (hvalid : ValidSelection view.shape selection)
    (hbits : sizeBound ≤ selectedCount view.shape selection * view.elemType.width) :
    AssignFault view selection workspace (.error (.fault .overflow) workspace)

theorem lt_of_linearize (hoffset : linearize view.shape coordinate = .ok offset) :
    offset < view.shape.prod := by
  obtain ⟨hwithin, rfl⟩ := eq_of_linearize hoffset
  exact position_lt hwithin

section Fits

variable (hsound : workspace.Sound) (h : view.Fits store) (hstore : workspace.store view.store = .ok store)
  (hvalue : workspace.builder.InRange value)

include hsound h hstore hvalue

/-! ### At a coordinate -/

/-- The slots behind consecutive places take a value of as many bits. -/
private theorem Fits.exists_setRange (hbits : view.elemType.width = 1)
    (hend : offset + value.width ≤ view.shape.prod) :
    ∃ targets written, view.storeOffsets (List.range' offset value.width) = .ok targets ∧
      Session.onStore view.store (Store.setRange targets value) workspace = .ok () written := by
  obtain ⟨targets, htargets, -, htargetsLt⟩ := h.resolves_range' hend
  have hlength : targets.length = value.width := by
    rw [← (mapM_eq_ok.mp htargets).length_eq, List.length_range']
  have htotal : targets.length * store.elemType.width = value.width := by
    rw [hlength, ← h.elemType, hbits, Nat.mul_one]
  obtain ⟨store', hwrite⟩ := Store.exists_setRange hsound.builder hvalue htargetsLt htotal.symm
  exact ⟨targets, _, htargets, Session.onStore_eq_ok.mpr ⟨store, store', hstore, hwrite, rfl⟩⟩

/-- **At a coordinate of the array** the width of the value decides. -/
theorem Fits.set_outcome (hwithin : Within view.shape coordinate) :
    view.SetOutcome coordinate value workspace (view.set coordinate value workspace) := by
  have haddressable := (hsound.stores hstore).addressable
  have hshape : view.shape.prod < signedBound := h.shape_lt haddressable
  have hposition := position_lt hwithin
  have hoffset : linearize view.shape coordinate = .ok (position view.shape coordinate) :=
    linearize_eq hwithin (hshape.trans signedBound_lt_sizeBound)
  have hset : view.set coordinate value workspace = _ := change_lift_run (lift_index_eq_ok.mpr hoffset)
  cases hmode : WriteMode.classify value.width view.elemType with
  | whole =>
    -- the slot takes a value as wide as an element
    obtain ⟨slot, hslotLt, hslot⟩ := h.embeds.lands _ hposition
    have hwidth : value.width = view.elemType.width := Store.classify_eq_whole.mp hmode
    have hwrite : Store.set slot value store = .ok .unit (store.put slot (.whole value)).counted :=
      (Store.set_eq_ok (by rw [← h.elemType]; exact hwidth)).mpr ⟨hslotLt, rfl⟩
    have hrun : view.set coordinate value workspace
        = .ok () (workspace.replace view.store (store.put slot (.whole value)).counted) := by
      rw [hset, hmode]
      refine (change_lift_checked_run hslot).trans ?_
      exact Session.onStore_eq_ok.mpr ⟨store, _, hstore, hwrite, rfl⟩
    rw [hrun]
    exact .whole hwithin hwidth
  | bitwise =>
    obtain ⟨hbits, hwide⟩ := Store.width_of_classify_bitwise hmode
    have hword : value.width < wordBound := by
      obtain ⟨bits, hbacks⟩ := hvalue
      exact (Nat.le_add_left _ _).trans_lt (hbacks.source_lt hsound.builder)
    have hstop : sized (position view.shape coordinate + value.width)
        = .ok (position view.shape coordinate + value.width) := by
      refine sized_eq_ok.mpr ⟨?_, rfl⟩
      unfold sizeBound
      unfold signedBound at hshape
      unfold wordBound at hword
      omega
    have hcount : view.count = .ok view.shape.prod := h.count_eq haddressable (by omega)
    rw [hmode] at hset
    have hchecks : view.set coordinate value workspace = _ :=
      hset.trans ((change_lift_checked_run hstop).trans (change_lift_checked_run hcount))
    by_cases hend : view.shape.prod < position view.shape coordinate + value.width
    · rw [hchecks, if_pos hend]
      exact .pastEnd hwithin hbits hwide hend
    · obtain ⟨targets, written, htargets, hwrite⟩ :=
        h.exists_setRange hsound hstore hvalue hbits (Nat.not_lt.mp hend)
      have hrun : view.set coordinate value workspace = .ok () written := by
        rw [hchecks, if_neg hend]
        exact (change_lift_checked_run htargets).trans hwrite
      rw [hrun]
      exact .bits hwithin hbits hwide (Nat.not_lt.mp hend)
  | mismatch =>
    obtain ⟨hwidth, hmode'⟩ := Store.classify_eq_mismatch.mp hmode
    rw [hset, hmode]
    exact .mismatch hwithin hwidth hmode'

/-- **At any coordinate**, if the elements can be counted. -/
theorem Fits.set_outcome_of_count {count : Nat} (hcount : view.count = .ok count) (coordinate : List Nat) :
    view.SetOutcome coordinate value workspace (view.set coordinate value workspace) := by
  rcases linearize_cases hcount coordinate with ⟨hwithin, -⟩ | ⟨houtside, cause, hcause⟩
  · exact h.set_outcome hsound hstore hvalue hwithin
  · have hset : view.set coordinate value workspace = .error (.refused (.index cause)) workspace := by
      rw [set, hcause]
      rfl
    rw [hset]
    exact .outside houtside

/-! ### To a selection -/

/-- **To a selection that has a region** the width of the value decides. -/
theorem Fits.assign_outcome {kept : Region} (hkept : region view.shape selection = .ok kept)
    (hsize : kept.offsets.length * view.elemType.width < sizeBound) :
    view.AssignOutcome selection value workspace (view.assign selection value workspace) := by
  have hshape := (h.shape_lt (hsound.stores hstore).addressable).trans signedBound_lt_sizeBound
  have hcount := (lists_of_region hshape hkept).selectedCount
  obtain ⟨hvalid, -⟩ := valid_of_region hkept
  by_cases hwidth : value.width = kept.offsets.length * view.elemType.width ∨ value.width = view.elemType.width
  · obtain ⟨written, hrun⟩ := exists_assign hsound h hstore hvalue hkept hsize hwidth
    rw [hrun]
    rw [hcount] at hwidth
    exact .written hvalid hwidth
  · obtain ⟨hsplit, hwhole⟩ := not_or.mp hwidth
    obtain ⟨targets, htargets, -⟩ := h.resolves_region hkept
    have hlength : targets.length = kept.offsets.length := (mapM_eq_ok.mp htargets).length_eq.symm
    have htotal : sized (targets.length * view.elemType.width) = .ok (targets.length * view.elemType.width) :=
      sized_eq_ok.mpr ⟨by rw [hlength]; exact hsize, rfl⟩
    have hrun : view.assign selection value workspace = .error (.refused (.width
        (.region value.width targets.length view.elemType.width))) workspace := by
      refine (change_lift_run (lift_index_eq_ok.mpr hkept)).trans ?_
      refine (change_lift_checked_run htargets).trans ((change_lift_checked_run htotal).trans ?_)
      rw [hlength, if_neg hsplit, if_neg hwhole]
      rfl
    rw [hrun, hlength, hcount]
    rw [hcount] at hsplit
    exact .mismatch hvalid hsplit hwhole

/-- **To any selection**, if the elements can be counted. -/
theorem Fits.assign_outcome_of_count {count : Nat} (hcount : view.count = .ok count) (selection : List Selector) :
    view.AssignOutcome selection value workspace (view.assign selection value workspace) ∨
      view.AssignFault selection workspace (view.assign selection value workspace) := by
  have hshape := (h.shape_lt (hsound.stores hstore).addressable).trans signedBound_lt_sizeBound
  have hscreened := screened_region hshape fun hvalid : ValidSelection view.shape selection =>
    exists_counts hcount (.inr hvalid.2)
  cases hregion : region view.shape selection with
  | error failure =>
    have hassign : view.assign selection value workspace = .error (failure.map .index) workspace := by
      rw [assign, hregion]
      rfl
    rw [hregion] at hscreened
    rw [hassign]
    cases hscreened with
    | refused hinvalid => exact .inl (.invalid hinvalid)
    | exhausted hlong => exact .inr (.capacity hlong)
  | ok kept =>
    by_cases hsize : kept.offsets.length * view.elemType.width < sizeBound
    · exact .inl (h.assign_outcome hsound hstore hvalue hregion hsize)
    · -- the product of count and width is the only step between the lookup of the slots and the first write
      obtain ⟨targets, htargets, -⟩ := h.resolves_region hregion
      have hlength : targets.length = kept.offsets.length := (mapM_eq_ok.mp htargets).length_eq.symm
      have hassign : view.assign selection value workspace = .error (.fault .overflow) workspace := by
        refine (change_lift_run (lift_index_eq_ok.mpr hregion)).trans ?_
        refine (change_lift_checked_run htargets).trans ?_
        rw [hlength, sized, if_neg hsize]
        rfl
      rw [hassign]
      rw [(lists_of_region hshape hregion).selectedCount] at hsize
      exact .inr (.overflow (valid_of_region hregion).1 (Nat.not_lt.mp hsize))

end Fits

end ArrayView

namespace Scene

variable {scene : Scene} {view : ArrayView}

/-- **How writes come out.** Take any array that somebody made.

* If its elements can be counted, a write at a coordinate comes out as the table says, and so does a write to a
  selection, unless the selection is too large to be computed with.
* The elements of an array that has any can be counted, and memory can address whatever is selected of them.
* A write that fails, in whatever way, has changed nothing.
-/
theorem write_outcomes (hscene : scene.Reachable) (hview : view ∈ scene.arrays) :
    (∀ count, view.count = .ok count →
      (∀ coordinate value, scene.Allows (.set view coordinate value) →
        view.SetOutcome coordinate value scene.workspace (view.set coordinate value scene.workspace)) ∧
      ∀ selection value, scene.Allows (.assign view selection value) →
        view.AssignOutcome selection value scene.workspace (view.assign selection value scene.workspace) ∨
          view.AssignFault selection scene.workspace (view.assign selection value scene.workspace)) ∧
    (0 < view.shape.prod → view.count = .ok view.shape.prod ∧
      ∀ selection, AddressableSelection view.shape selection) ∧
    ∀ action failure workspace, scene.Allows action → action.target? ≠ none →
      action.perform scene.workspace = .error failure workspace → scene.step action = scene := by
  have hsound := sound_of_reachable hscene
  obtain ⟨store, hstore, hfits, hstoreSound⟩ := hsound.fits hview
  have hvalue : ∀ {value : BitRange}, value.source ∈ scene.values → value.low + value.width ≤ value.source.width →
      scene.workspace.builder.InRange value :=
    fun hmem hend => Builder.inRange_of_carries (hsound.made.values _ hmem) hend
  refine ⟨fun count hcount => ⟨?_, ?_⟩, fun hpos => ⟨?_, ?_⟩, ?_⟩
  · rintro coordinate value ⟨hend, hvalues, -⟩
    have hin := hvalue (hvalues _ List.mem_cons_self) hend
    exact hfits.set_outcome_of_count hsound.workspace hstore hin hcount coordinate
  · rintro selection value ⟨hend, hvalues, -⟩
    have hin := hvalue (hvalues _ List.mem_cons_self) hend
    exact hfits.assign_outcome_of_count hsound.workspace hstore hin hcount selection
  · exact hfits.count_eq hstoreSound.addressable hpos
  · -- an element takes more room in the store than an offset in a table
    have haddressable := hstoreSound.addressable
    have hle := hfits.embeds.le
    refine addressable_of_lt hpos ?_
    omega
  · intro action failure workspace hallows htarget hrun
    obtain ⟨id, hid⟩ := Option.ne_none_iff_exists'.mp htarget
    exact step_eq_self_of_failed hsound hallows hid hrun

/-- The columns of the grid take an element where there is one. A value of three bits is too much for an element and too
little for a column, and changes nothing. -/
theorem write_outcomes_gridColumns :
    (∃ after, gridColumns.set [1, 0] ⟨gridInput, 6, 2⟩ grid.workspace = .ok () after) ∧
    (∃ after, gridColumns.assign [.index 1] ⟨gridInput, 0, 3⟩ grid.workspace
      = .error (.refused (.width (.region 3 2 2))) after) ∧
    grid.step (.assign gridColumns [.index 1] ⟨gridInput, 0, 3⟩) = grid := by
  obtain ⟨houtcomes, hcounted, hfailed⟩ := @write_outcomes grid gridColumns grid_reachable (by decide +kernel)
  obtain ⟨hcount, haddressable⟩ := hcounted (by decide)
  obtain ⟨hset, hassign⟩ := houtcomes 4 hcount
  have hallows : grid.Allows (.assign gridColumns [.index 1] ⟨gridInput, 0, 3⟩) := by decide +kernel
  have hrefused : gridColumns.assign [.index 1] ⟨gridInput, 0, 3⟩ grid.workspace
      = .error (.refused (.width (.region 3 2 2))) grid.workspace := by
    have houtcome := hassign [.index 1] ⟨gridInput, 0, 3⟩ hallows
    generalize gridColumns.assign [.index 1] ⟨gridInput, 0, 3⟩ grid.workspace = result at houtcome ⊢
    rcases houtcome with houtcome | hfault
    · cases houtcome with
      | invalid hinvalid => exact absurd (by decide) hinvalid
      | written _ hwidth => exact absurd hwidth (by decide)
      | mismatch => rfl
    · cases hfault with
      | capacity hlong => exact absurd (haddressable _) hlong
      | overflow _ hbits => exact absurd hbits (by decide)
  have hperform : (Action.assign gridColumns [.index 1] ⟨gridInput, 0, 3⟩).perform grid.workspace
      = .error (.refused (.width (.region 3 2 2))) grid.workspace := by
    rw [Action.perform, change_bind, hrefused]
  refine ⟨?_, ⟨_, hrefused⟩, hfailed _ _ _ hallows nofun hperform⟩
  · have houtcome := hset [1, 0] ⟨gridInput, 6, 2⟩ (by decide +kernel)
    generalize gridColumns.set [1, 0] ⟨gridInput, 6, 2⟩ grid.workspace = result at houtcome ⊢
    cases houtcome with
    | whole => exact ⟨_, rfl⟩
    | bits => exact ⟨_, rfl⟩
    | outside houtside => exact absurd (.cons (by decide) (.cons (by decide) .nil)) houtside
    | pastEnd _ hbits => cases hbits
    | mismatch _ hwidth => exact absurd rfl hwidth

/-- An array without elements, on one axis of which there are as many indices as memory cannot address. -/
def vacantArray : ArrayView where
  shape := [1152921504606846976, 0]
  elemType := .i8
  store := ⟨0⟩
  maps := [.permute [1152921504606846976, 0] [0, 1152921504606846976] [1, 0], .gather #[]]

/-- How a caller gets there. -/
def vacant : Scene :=
  [.call (.internType (.bits 8)), .call (.input "a" ⟨0⟩), .create [1] .i8,
    .derive { shape := [1], elemType := .i8, store := ⟨0⟩ } (.select [.range { start := some 0, stop := some 0 }]),
    .derive { shape := [0], elemType := .i8, store := ⟨0⟩, maps := [.gather #[]] }
      (.reshape [0, 1152921504606846976]),
    .derive { vacantArray with shape := [0, 1152921504606846976], maps := [.gather #[]] }
      (.transpose [1, 0])].foldl step (start {} "m")

/-- A value as wide as an element can be written to all elements of it, of which there are none, but the indices on the
long axis are listed before that is known. -/
theorem assign_fault_vacantArray :
    vacant.Reachable ∧ vacantArray ∈ vacant.arrays ∧ vacantArray.count = .ok 0 ∧
      vacant.Allows (.assign vacantArray [] (.whole gridInput)) ∧ ValidSelection vacantArray.shape [] ∧
      gridInput.width = vacantArray.elemType.width ∧
      vacantArray.assign [] (.whole gridInput) vacant.workspace = .error (.fault .capacity) vacant.workspace := by
  refine ⟨⟨{}, "m", reaches_foldl (by decide +kernel)⟩, ?_⟩
  decide +kernel

end Scene

end NetArray
