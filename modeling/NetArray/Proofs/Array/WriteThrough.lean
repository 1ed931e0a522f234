import Mathlib
import NetArray.Proofs.Array.Scenes

/-!
# Writes through views

A write goes through the maps of one view, the writer, and is read through those of another one, the reader.
What the two have in common is the store. `Lands` says of a reader what a write did to it: where the reader
and one of the offsets that were written lead to the same slot, there is the part of the value that was written
at this offset; everywhere else there is what was there before.

The maps of the writer lead distinct offsets to distinct slots, so no part overwrites another one
(`nodup_targets`), and every slot is one that was written or one that was not (`lands_of_slots`). The
maps of the reader need nothing but a slot for each of its offsets.
-/

namespace NetArray

/-- Elements that are as wide together as one of them are one. -/
theorem ElemType.count_eq_one {elemType : ElemType} {count : Nat}
    (h : elemType.width = count * elemType.width) : count = 1 :=
  Nat.eq_of_mul_eq_mul_right elemType.width_pos (by rw [Nat.one_mul, ← h])

namespace ArrayView

/-- What the reader reads after a write through the writer: `part number` at the slot of the offset of that
number, and what it read before at all other slots. -/
def Lands (writer : ArrayView) (offsets : List Nat) (part : Nat → BitRange) (store store' : Store)
    (reader : ArrayView) : Prop :=
  ∀ place < reader.shape.prod,
    (∀ {number offset}, offsets[number]? = some offset →
      reader.storeOffset place = writer.storeOffset offset →
        ∃ element, reader.element store' place = .ok (some element) ∧ element.range = part number) ∧
    ((∀ offset ∈ offsets, reader.storeOffset place ≠ writer.storeOffset offset) →
      reader.element store' place = reader.element store place)

/-- A write through the writer, as far as it shows in a workspace: the store of the writer is another one,
every view that reads it sees the parts where they belong, and nothing else has changed. -/
def WroteThrough (writer : ArrayView) (offsets : List Nat) (part : Nat → BitRange)
    (readers : List ArrayView) (workspace workspace' : Workspace) : Prop :=
  workspace'.builder = workspace.builder ∧
    (∀ id ≠ writer.store, workspace'.store id = workspace.store id) ∧
    ∃ store store', workspace.store writer.store = .ok store ∧ workspace'.store writer.store = .ok store' ∧
      ∀ reader ∈ readers, reader.store = writer.store → writer.Lands offsets part store store' reader

/-- A write at a coordinate, as far as it shows: at the slot of the offset, or, where a wider value fills
single bits, at those of the offsets that follow, its lowest bit first. -/
def SetThrough (writer : ArrayView) (coordinate : List Nat) (value : BitRange) (readers : List ArrayView)
    (workspace workspace' : Workspace) : Prop :=
  ∃ offset, linearize writer.shape coordinate = .ok offset ∧
    (value.width = writer.elemType.width ∧
        writer.WroteThrough [offset] (fun _ => value) readers workspace workspace' ∨
      writer.elemType.width = 1 ∧ 1 < value.width ∧ offset + value.width ≤ writer.shape.prod ∧
        writer.WroteThrough (List.range' offset value.width) (Store.piece value 1) readers
          workspace workspace')

/-- A write to a selection, as far as it shows: at the slots of the selected offsets, in their order, split
with its lowest part first if it is as wide as all of them, and repeated if it is as wide as one. -/
def AssignedThrough (writer : ArrayView) (selection : List Selector) (value : BitRange)
    (readers : List ArrayView) (workspace workspace' : Workspace) : Prop :=
  ∃ kept, region writer.shape selection = .ok kept ∧ kept.offsets.Pairwise (· < ·) ∧
    (value.width = kept.offsets.length * writer.elemType.width ∨
      value.width = writer.elemType.width) ∧
    (value.width = kept.offsets.length * writer.elemType.width →
      writer.WroteThrough kept.offsets (Store.piece value writer.elemType.width) readers
        workspace workspace') ∧
    (value.width = writer.elemType.width →
      writer.WroteThrough kept.offsets (fun _ => value) readers workspace workspace')

variable {writer reader : ArrayView} {offsets targets : List Nat} {part : Nat → BitRange}
  {store store' : Store} {value : BitRange} {workspace workspace' : Workspace}

/-! ### Slots -/

/-- Distinct offsets have distinct slots. -/
theorem nodup_targets (h : writer.Fits store) (hnodup : offsets.Nodup)
    (hlt : ∀ offset ∈ offsets, offset < writer.shape.prod)
    (htargets : List.Forall₂ (fun offset target => writer.storeOffset offset = .ok target) offsets targets) :
    targets.Nodup := by
  induction htargets with
  | nil => exact .nil
  | @cons offset target offsets targets hoffset hrest ih =>
    obtain ⟨hnotMem, hnodup⟩ := List.nodup_cons.mp hnodup
    obtain ⟨hhead, htail⟩ := List.forall_mem_cons.mp hlt
    refine List.nodup_cons.mpr ⟨fun hmem => hnotMem ?_, ih hnodup htail⟩
    obtain ⟨other, hother, htarget⟩ := exists_of_forall₂_of_mem hrest hmem
    have hsame := h.embeds.inj hhead (htail other hother) (hoffset.trans htarget.symm)
    rwa [hsame]

/-- What a write did to the slots is what it did to a reader. -/
theorem lands_of_slots (hreader : reader.Fits store)
    (htargets : List.Forall₂ (fun offset target => writer.storeOffset offset = .ok target) offsets targets)
    (hin : ∀ {number target}, targets[number]? = some target →
      ∃ element, store'.element target = .ok (some element) ∧ element.range = part number)
    (hout : ∀ slot ∉ targets, store'.element slot = store.element slot) :
    writer.Lands offsets part store store' reader := by
  intro place hplace
  obtain ⟨slot, -, hslot⟩ := hreader.embeds.lands place hplace
  constructor
  · -- the reader has the slot of an offset that was written
    intro number offset hoffset hsame
    obtain ⟨target, htarget, hwriter⟩ := forall₂_getElem? htargets hoffset
    obtain ⟨element, helement, hrange⟩ := hin htarget
    exact ⟨element, element_eq_ok.mpr ⟨target, hsame.trans hwriter, helement⟩, hrange⟩
  · -- the slot of the reader is none of those that were written
    intro hother
    have hslot' : slot ∉ targets := fun hmem => by
      obtain ⟨offset, hoffset, hwriter⟩ := exists_of_forall₂_of_mem htargets hmem
      exact hother offset hoffset (hslot.trans hwriter.symm)
    rw [element, element, hslot]
    exact hout slot hslot'

/-- Splitting a value over distinct slots. -/
theorem lands_of_setRange (hwriter : writer.Fits store) (hnodup : offsets.Nodup)
    (hlt : ∀ offset ∈ offsets, offset < writer.shape.prod)
    (htargets : writer.storeOffsets offsets = .ok targets)
    (hrun : Store.setRange targets value store = .ok () store') (hreader : reader.Fits store) :
    writer.Lands offsets (Store.piece value writer.elemType.width) store store' reader := by
  have hslots := mapM_eq_ok.mp htargets
  have hdistinct := nodup_targets hwriter hnodup hlt hslots
  obtain ⟨-, hsize, rfl⟩ := Store.eq_of_setRange hrun
  refine lands_of_slots hreader hslots (fun {number target} htarget => ?_) fun slot hslot => ?_
  · refine ⟨Store.splitTag store.elemType.width value (Store.piece value store.elemType.width number), ?_, ?_⟩
    · rw [Store.element_counted]
      have hslot := hsize target (List.mem_of_getElem? htarget)
      refine Store.element_putAll ?_ (Store.mem_splitEntries htarget) hslot
      rwa [Store.splitEntries_fst]
    · rw [Store.range_splitTag, hwriter.elemType]
  · rw [Store.element_counted, Store.element_putAll_of_notMem]
    rwa [Store.splitEntries_fst]

/-- Writing a value to each of some slots. -/
theorem lands_of_broadcast (hwriter : writer.Fits store) (hwidth : value.width = writer.elemType.width)
    (htargets : writer.storeOffsets offsets = .ok targets)
    (hrun : broadcast targets value store = .ok () store') (hreader : reader.Fits store) :
    writer.Lands offsets (fun _ => value) store store' reader := by
  rw [hwriter.elemType] at hwidth
  obtain ⟨hin, hout⟩ := Store.eq_of_broadcast hwidth hrun
  refine lands_of_slots hreader (mapM_eq_ok.mp htargets) (fun {number target} htarget => ?_) hout
  exact ⟨_, (hin target (List.mem_of_getElem? htarget)).2, rfl⟩

/-- Writing a value to one slot. -/
theorem lands_of_set {offset target : Nat} (hwriter : writer.Fits store)
    (hwidth : value.width = writer.elemType.width) (htarget : writer.storeOffset offset = .ok target)
    (hrun : Store.set target value store = .ok () store') (hreader : reader.Fits store) :
    writer.Lands [offset] (fun _ => value) store store' reader := by
  have htargets : writer.storeOffsets [offset] = .ok [target] := mapM_eq_ok.mpr (.cons htarget .nil)
  have hbroadcast : broadcast [target] value store = .ok () store' :=
    change_bind_eq_ok.mpr ⟨.unit, store', hrun, rfl⟩
  exact lands_of_broadcast hwriter hwidth htargets hbroadcast hreader

/-! ### Workspaces -/

variable {readers : List ArrayView}

theorem wroteThrough_of_onStore {operation : Change Store ArrayError Unit}
    (hrun : Session.onStore writer.store operation workspace = .ok () workspace')
    (hlands : ∀ {store store'}, workspace.store writer.store = .ok store →
      operation store = .ok () store' → ∀ reader ∈ readers, reader.store = writer.store →
        writer.Lands offsets part store store' reader) :
    writer.WroteThrough offsets part readers workspace workspace' := by
  obtain ⟨store, store', hstore, hoperation, rfl⟩ := Session.onStore_eq_ok.mp hrun
  refine ⟨rfl, fun id hid => Workspace.store_replace_of_ne hid, store, store', hstore, ?_, ?_⟩
  · exact Workspace.store_replace_self hstore
  · exact hlands hstore hoperation

/-- Parts are told apart by the numbers that they have. -/
theorem WroteThrough.congr {part' : Nat → BitRange}
    (h : writer.WroteThrough offsets part readers workspace workspace')
    (hpart : ∀ number < offsets.length, part number = part' number) :
    writer.WroteThrough offsets part' readers workspace workspace' := by
  obtain ⟨hbuilder, hothers, store, store', hstore, hstore', hlands⟩ := h
  refine ⟨hbuilder, hothers, store, store', hstore, hstore', fun reader hreader hsame place hplace => ?_⟩
  obtain ⟨hin, hout⟩ := hlands reader hreader hsame place hplace
  refine ⟨fun {number offset} hoffset heq => ?_, hout⟩
  obtain ⟨hnumber, -⟩ := List.getElem?_eq_some_iff.mp hoffset
  rw [← hpart number hnumber]
  exact hin hoffset heq

/-- Every reader that has the store of the writer fits it. -/
private theorem fits_of_same (hreaders : ∀ reader ∈ readers, reader.Sound workspace) {store : Store}
    (hstore : workspace.store writer.store = .ok store) :
    ∀ reader ∈ readers, reader.store = writer.store → reader.Fits store := by
  intro reader hreader hsame
  obtain ⟨store', hstore', hfits⟩ := hreaders reader hreader
  rw [hsame, hstore] at hstore'
  cases hstore'
  exact hfits

theorem setThrough_of_set (hreaders : ∀ reader ∈ readers, reader.Sound workspace) (hwriter : writer ∈ readers)
    {coordinate : List Nat} (hrun : writer.set coordinate value workspace = .ok () workspace') :
    writer.SetThrough coordinate value readers workspace workspace' := by
  obtain ⟨offset, _, hlift, hrun⟩ := change_bind_eq_ok.mp hrun
  obtain ⟨hoffset, rfl⟩ := change_lift_eq_ok.mp hlift
  refine ⟨offset, lift_index_eq_ok.mp hoffset, ?_⟩
  cases hclassify : WriteMode.classify value.width writer.elemType with
  | whole =>
    simp only [hclassify] at hrun
    obtain ⟨target, _, hlift, hrun⟩ := change_bind_eq_ok.mp hrun
    obtain ⟨htarget, rfl⟩ := change_lift_checked_eq_ok.mp hlift
    have hwidth := Store.classify_eq_whole.mp hclassify
    refine .inl ⟨hwidth, wroteThrough_of_onStore hrun fun hstore hset reader hreader hsame => ?_⟩
    have hfits := fits_of_same hreaders hstore
    exact lands_of_set (hfits writer hwriter rfl) hwidth htarget hset (hfits reader hreader hsame)
  | bitwise =>
    simp only [hclassify] at hrun
    obtain ⟨stop, _, hlift, hrun⟩ := change_bind_eq_ok.mp hrun
    obtain ⟨hstop, rfl⟩ := change_lift_checked_eq_ok.mp hlift
    obtain ⟨-, rfl⟩ := sized_eq_ok.mp hstop
    obtain ⟨count, _, hlift, hrun⟩ := change_bind_eq_ok.mp hrun
    obtain ⟨hcount, rfl⟩ := change_lift_checked_eq_ok.mp hlift
    obtain ⟨hend, hrun⟩ := change_guard_eq_ok.mp hrun
    obtain ⟨targets, _, hlift, hrun⟩ := change_bind_eq_ok.mp hrun
    obtain ⟨htargets, rfl⟩ := change_lift_checked_eq_ok.mp hlift
    obtain ⟨hone, hwide⟩ := Store.width_of_classify_bitwise hclassify
    have hinside : offset + value.width ≤ writer.shape.prod := by
      rw [← (eq_of_elementCount hcount).1]
      exact Nat.le_of_not_lt hend
    refine .inr ⟨hone, hwide, hinside, wroteThrough_of_onStore hrun ?_⟩
    intro store store' hstore hset reader hreader hsame
    have hfits := fits_of_same hreaders hstore
    have hlt : ∀ place ∈ List.range' offset value.width, place < writer.shape.prod := fun place hplace => by
      have := List.mem_range'_1.mp hplace
      omega
    -- the bits of the value are its pieces, as an element has one bit
    have hbits : Store.piece value 1 = Store.piece value writer.elemType.width := by rw [hone]
    rw [hbits]
    exact lands_of_setRange (hfits writer hwriter rfl) List.nodup_range' hlt htargets hset
      (hfits reader hreader hsame)
  | mismatch =>
    simp only [hclassify] at hrun
    cases hrun

theorem assignedThrough_of_assign (hreaders : ∀ reader ∈ readers, reader.Sound workspace)
    (hwriter : writer ∈ readers) {selection : List Selector}
    (hrun : writer.assign selection value workspace = .ok () workspace') :
    writer.AssignedThrough selection value readers workspace workspace' := by
  obtain ⟨kept, _, hlift, hrun⟩ := change_bind_eq_ok.mp hrun
  obtain ⟨hregion, rfl⟩ := change_lift_eq_ok.mp hlift
  have hkept := lift_index_eq_ok.mp hregion
  obtain ⟨hascend, hlt⟩ := region_offsets hkept
  refine ⟨kept, hkept, hascend, ?_⟩
  obtain ⟨targets, _, hlift, hrun⟩ := change_bind_eq_ok.mp hrun
  obtain ⟨htargets, rfl⟩ := change_lift_checked_eq_ok.mp hlift
  obtain ⟨total, _, hlift, hrun⟩ := change_bind_eq_ok.mp hrun
  obtain ⟨htotal, rfl⟩ := change_lift_checked_eq_ok.mp hlift
  obtain ⟨-, rfl⟩ := sized_eq_ok.mp htotal
  -- there is a target for each offset
  have hlength : targets.length = kept.offsets.length := (mapM_eq_ok.mp htargets).length_eq.symm
  rw [hlength] at hrun
  by_cases hsplit : value.width = kept.offsets.length * writer.elemType.width
  · rw [if_pos hsplit] at hrun
    have hwrote : writer.WroteThrough kept.offsets (Store.piece value writer.elemType.width) readers
        workspace workspace' := by
      refine wroteThrough_of_onStore hrun fun hstore hset reader hreader hsame => ?_
      have hfits := fits_of_same hreaders hstore
      exact lands_of_setRange (hfits writer hwriter rfl) (hascend.imp Nat.ne_of_lt) hlt htargets
        hset (hfits reader hreader hsame)
    refine ⟨.inl hsplit, fun _ => hwrote, fun hwhole => hwrote.congr fun number hnumber => ?_⟩
    -- a value that is as wide as one element and as all of them has a single part, itself
    have hone : kept.offsets.length = 1 := ElemType.count_eq_one (hwhole.symm.trans hsplit)
    obtain rfl : number = 0 := by omega
    rw [Store.piece, Nat.zero_mul, Nat.add_zero, ← hwhole]
  · rw [if_neg hsplit] at hrun
    by_cases hwhole : value.width = writer.elemType.width
    · rw [if_pos hwhole] at hrun
      refine ⟨.inr hwhole, fun h => absurd h hsplit, fun _ => ?_⟩
      refine wroteThrough_of_onStore hrun fun hstore hset reader hreader hsame => ?_
      have hfits := fits_of_same hreaders hstore
      exact lands_of_broadcast (hfits writer hwriter rfl) hwhole htargets hset
        (hfits reader hreader hsame)
    · rw [if_neg hwhole] at hrun
      cases hrun

end ArrayView

namespace Scene

variable {scene : Scene} {writer : ArrayView} {value : BitRange} {workspace : Workspace}

/-- **Writes land where they should.** Every array that shares the store of the writer sees the same write
through its own maps, and nothing else changes: no other element, no other store and no cell. -/
theorem wrote_through (hscene : scene.Reachable) (hwriter : writer ∈ scene.arrays) :
    (∀ {coordinate}, writer.set coordinate value scene.workspace = .ok () workspace →
      writer.SetThrough coordinate value scene.arrays scene.workspace workspace) ∧
    ∀ {selection}, writer.assign selection value scene.workspace = .ok () workspace →
      writer.AssignedThrough selection value scene.arrays scene.workspace workspace :=
  have hreaders := (sound_of_reachable hscene).made.arrays
  ⟨ArrayView.setThrough_of_set hreaders hwriter, ArrayView.assignedThrough_of_assign hreaders hwriter⟩

/-- An element of the columns of the grid is written, and one of its columns. -/
theorem wrote_through_gridColumns :
    gridColumns.SetThrough [0, 1] ⟨gridInput, 2, 2⟩ grid.arrays grid.workspace
        (finalState (gridColumns.set [0, 1] ⟨gridInput, 2, 2⟩ grid.workspace)) ∧
      gridColumns.AssignedThrough [.index 1] ⟨gridInput, 0, 4⟩ grid.arrays grid.workspace
        (finalState (gridColumns.assign [.index 1] ⟨gridInput, 0, 4⟩ grid.workspace)) := by
  have hwriter : gridColumns ∈ grid.arrays := by decide +kernel
  exact ⟨(wrote_through grid_reachable hwriter).1 (by decide +kernel),
    (wrote_through grid_reachable hwriter).2 (by decide +kernel)⟩

end Scene

end NetArray
