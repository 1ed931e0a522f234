import NetArray.Proofs.Array.Joins
import NetArray.Proofs.Array.WriteOutcomes

/-!
# Ranges stay within their sources

A range of bits is computed with at every turn: it is cut out of a value or of another range, split over slots,
copied into other stores, merged with its neighbours and at last made a value. Each of these steps adds or multiplies
bit positions in 32 bits, and cutting faults where a range is too short. Nothing of the kind can happen.

`Builder.InRange` is what carries the argument: the source of the range is a value of the netlist, as the netlist
itself has it, and the range ends within it. Whatever a caller can get hold of is of this sort, and so is what is made
of it (`Scene.ranges_stay_within`). Since the source is at most as wide as a machine word, every sum and product on
the way is too. What is left to fault is the arithmetic of coordinates and counts, before any range is
looked at:

* `Fits.get_fault_iff`, `Fits.elements_fault_iff` and `Fits.parts_fault` — reading elements;
* `Fits.set_fault_iff` and `Fits.assign_fault_iff` — writing;
* `memory_of_concatenate_fault` — joining;
* `Builder.exists_slices` — making values.
-/

namespace NetArray

/-! ### Ranges -/

namespace Builder

variable {builder : Builder} {range : BitRange} {ranges : List BitRange}

/-- The source of a range is a value of the netlist, as the netlist has it. -/
theorem InRange.source_eq (h : builder.InRange range) :
    builder.valueOf range.source.signal = .ok range.source := by
  obtain ⟨-, ⟨all, hall, -⟩, -⟩ := h
  exact hall.handle

theorem InRange.end_le (h : builder.InRange range) : range.low + range.width ≤ range.source.width := by
  obtain ⟨-, -, hend⟩ := h
  exact hend

/-- A part of a range can be cut out. -/
theorem InRange.exists_sub (hsound : builder.Sound) (h : builder.InRange range) {low width : Nat}
    (hpart : low + width ≤ range.width) :
    ∃ part, range.sub low width = .ok part ∧ part.width = width ∧ builder.InRange part := by
  obtain ⟨bits, hbits⟩ := h
  obtain ⟨hsub, hbacks⟩ := backs_sub hsound hbits hpart
  exact ⟨_, hsub, rfl, _, hbacks⟩

/-- Ranges are as wide as the lists of their bits are long. -/
theorem widths_of_backs {pieces : List (List BitOrigin)} (h : List.Forall₂ builder.Backs ranges pieces) :
    ranges.map (·.width) = pieces.map List.length := by
  have hsame : List.Forall₂ (· = ·) (ranges.map (·.width)) (pieces.map List.length) :=
    List.forall₂_map_left_iff.mpr <| List.forall₂_map_right_iff.mpr <|
      h.imp fun _ _ hbacks => hbacks.length.symm
  rwa [List.forall₂_eq_eq_eq] at hsame

/-- Ranges can be merged, and are as wide together as before. -/
theorem exists_coalesce (hsound : builder.Sound) (h : ∀ range ∈ ranges, builder.InRange range) :
    ∃ runs, BitRange.coalesce ranges = .ok runs ∧ (∀ run ∈ runs, builder.InRange run) ∧
      (runs.map (·.width)).sum = (ranges.map (·.width)).sum := by
  obtain ⟨pieces, hpieces⟩ := exists_forall₂ h
  obtain ⟨runs, merged, hruns, hmerged, hflatten⟩ := coalesce_backs hsound hpieces
  refine ⟨runs, hruns, fun run hmem => ?_, ?_⟩
  · obtain ⟨bits, -, hbits⟩ := exists_of_forall₂_of_mem hmerged.flip hmem
    exact ⟨bits, hbits⟩
  · rw [widths_of_backs hmerged, widths_of_backs hpieces, ← List.length_flatten, ← List.length_flatten,
      hflatten]

/-- Ranges that are not empty can be made values, one after the other. -/
theorem exists_slices (hsound : builder.Sound) (h : ∀ range ∈ ranges, builder.InRange range ∧ 0 < range.width) :
    ∃ values builder', ranges.mapM BitRange.materialize builder = .ok values builder' ∧
      values.map (·.width) = ranges.map (·.width) := by
  obtain ⟨pieces, hpieces⟩ := exists_forall₂ fun range hmem => (h range hmem).1
  obtain ⟨values, builder', hrun, -, hvalues⟩ :=
    mapM_materialize_carries hsound hpieces fun range hmem => (h range hmem).2
  exact ⟨values, builder', hrun, (widths_of_carries hvalues).trans (widths_of_backs hpieces).symm⟩

end Builder

namespace ArrayView

variable {view : ArrayView} {store : Store} {workspace : Workspace} {kind : Fault} {coordinate : List Nat}
  {selection : List Selector} {value : BitRange} {offset count : Nat}

section Fits

variable (hsound : workspace.Sound) (h : view.Fits store)

include hsound h

/-! ### Reading -/

section Reading

variable (hstore : store.Sound workspace.builder)

include hstore

/-- At a coordinate of the array there is a range of the width of its elements, or none. -/
theorem Fits.exists_get (hoffset : linearize view.shape coordinate = .ok offset) :
    ∃ found, view.get store coordinate = .ok found ∧ ∀ range ∈ found,
      range.width = view.elemType.width ∧ workspace.builder.InRange range := by
  obtain ⟨slot, -, hslot⟩ := h.embeds.lands offset (lt_of_linearize hoffset)
  obtain ⟨found, hfound, hinside⟩ := hstore.element hsound.builder slot
  have hread : view.element store offset = .ok found := element_eq_ok.mpr ⟨slot, hslot, hfound⟩
  refine ⟨found.map Element.range, ?_, fun range hrange => ?_⟩
  · rw [get, hoffset]
    show ((liftM (view.element store offset) : Attempt IndexError (Option Element)) >>= _) = _
    rw [hread]
    rfl
  · obtain ⟨element, helement, rfl⟩ := Option.mem_map.mp hrange
    rw [h.elemType]
    exact hinside element helement

theorem Fits.get_fault_iff :
    view.get store coordinate = .error (.fault kind) ↔ linearize view.shape coordinate = .error (.fault kind) := by
  cases hoffset : linearize view.shape coordinate with
  | error failure =>
    have hget : view.get store coordinate = .error failure := by rw [get, hoffset]; rfl
    rw [hget, Except.error.injEq, Except.error.injEq]
  | ok offset =>
    obtain ⟨found, hfound, -⟩ := h.exists_get hsound hstore hoffset
    rw [hfound]
    constructor <;> intro hfault <;> cases hfault

/-- Collecting the elements answers or refuses, once they are counted. -/
theorem Fits.elements_fault_iff : view.elements store = .error (.fault kind) ↔ view.count = .error kind := by
  cases hcount : view.count with
  | error other =>
    rw [elements_of_uncounted hcount, Except.error.injEq, Failure.fault.injEq, Except.error.injEq]
  | ok count =>
    refine ⟨fun hfault => ?_, fun hfault => by cases hfault⟩
    cases hfirst : (List.range view.shape.prod).find? (view.isGap store) with
    | some gap =>
      rw [elements_eq_error hsound h hstore hcount hfirst] at hfault
      cases hfault
    | none =>
      obtain ⟨ranges, hranges⟩ := exists_elements hsound h hstore hcount hfirst
      rw [hranges] at hfault
      cases hfault

/-- So does merging them. -/
theorem Fits.parts_fault {coalesce : Bool} (hfault : view.parts store coalesce = .error (.fault kind)) :
    view.count = .error kind := by
  rw [← h.elements_fault_iff hsound hstore]
  cases coalesce with
  | false => exact hfault
  | true =>
    rw [parts, if_pos rfl] at hfault
    split at hfault
    · cases hfault
    · cases helements : view.elements store with
      | error failure =>
        rw [helements] at hfault
        exact hfault
      | ok ranges =>
        exfalso
        have hin : ∀ range ∈ ranges, workspace.builder.InRange range := by
          obtain ⟨count, hcount, -⟩ := bind_eq_ok.mp helements
          rw [lift_checked_eq_ok] at hcount
          exact fun range hmem => ((h.elements hsound.builder hstore hcount helements).2 range hmem).2
        obtain ⟨runs, hruns, -⟩ := Builder.exists_coalesce hsound.builder hin
        rw [helements] at hfault
        change (liftM (BitRange.coalesce ranges) : Attempt ArrayError (List BitRange)) = _ at hfault
        rw [hruns] at hfault
        cases hfault

end Reading

/-! ### Writing -/

section Writing

variable (hstore : workspace.store view.store = .ok store) (hvalue : workspace.builder.InRange value)

include hstore hvalue

/-- At an offset of the array, a write answers or refuses. -/
theorem Fits.faultless_set (hoffset : linearize view.shape coordinate = .ok offset) :
    Faultless (view.set coordinate value workspace) := by
  have houtcome := h.set_outcome hsound hstore hvalue (eq_of_linearize hoffset).1
  generalize view.set coordinate value workspace = result at houtcome ⊢
  cases houtcome <;> trivial

/-- A coordinate that does not fault has an offset, or is refused. -/
theorem Fits.set_fault_iff :
    (∃ after, view.set coordinate value workspace = .error (.fault kind) after) ↔
      linearize view.shape coordinate = .error (.fault kind) := by
  cases hoffset : linearize view.shape coordinate with
  | error failure =>
    have hset : view.set coordinate value workspace = .error (failure.map .index) workspace := by
      rw [set, hoffset]
      rfl
    rw [hset, Except.error.injEq]
    cases failure <;> simp [Failure.map]
  | ok offset =>
    have hfaultless := h.faultless_set hsound hstore hvalue hoffset
    refine ⟨fun hfault => ?_, fun hfault => by cases hfault⟩
    obtain ⟨after, hfault⟩ := hfault
    exact absurd hfault (hfaultless.ne_fault kind after)

/-- Where the bits of a selection can be counted, a write answers or refuses. -/
theorem Fits.faultless_assign {kept : Region} (hkept : region view.shape selection = .ok kept)
    (hsize : kept.offsets.length * view.elemType.width < sizeBound) :
    Faultless (view.assign selection value workspace) := by
  have houtcome := h.assign_outcome hsound hstore hvalue hkept hsize
  generalize view.assign selection value workspace = result at houtcome ⊢
  cases houtcome <;> trivial

/-- A write to a selection faults with the selection, or if its bits cannot be counted. -/
theorem Fits.assign_fault_iff :
    (∃ after, view.assign selection value workspace = .error (.fault kind) after) ↔
      region view.shape selection = .error (.fault kind) ∨ ∃ kept, region view.shape selection = .ok kept ∧
        sized (kept.offsets.length * view.elemType.width) = .error kind := by
  cases hkept : region view.shape selection with
  | error failure =>
    have hassign : view.assign selection value workspace = .error (failure.map .index) workspace := by
      rw [assign, hkept]
      rfl
    rw [hassign]
    cases failure <;> simp [Failure.map]
  | ok kept =>
    cases hsized : sized (kept.offsets.length * view.elemType.width) with
    | error other =>
      obtain ⟨targets, htargets, -⟩ := h.resolves_region hkept
      have hlength : targets.length = kept.offsets.length := (mapM_eq_ok.mp htargets).length_eq.symm
      have hrun : view.assign selection value workspace = .error (.fault other) workspace := by
        refine (change_lift_run (lift_index_eq_ok.mpr hkept)).trans ?_
        refine (change_lift_checked_run htargets).trans ?_
        rw [hlength, hsized]
        rfl
      rw [hrun]
      simp [hsized]
    | ok total =>
      have hfaultless := h.faultless_assign hsound hstore hvalue hkept (sized_eq_ok.mp hsized).1
      constructor
      · rintro ⟨after, hfault⟩
        exact absurd hfault (hfaultless.ne_fault kind after)
      rintro (hfault | ⟨kept', hkept', hfault⟩)
      · cases hfault
      · obtain rfl := Except.ok.inj hkept'
        rw [hsized] at hfault
        cases hfault

end Writing

/-! ### Making values -/

/-- The parts of an array can be made values. -/
theorem Fits.exists_values (hstore : store.Sound workspace.builder) (hcount : view.count = .ok count)
    (hpos : 0 < count) {coalesce : Bool} {parts : List BitRange}
    (hparts : view.parts store coalesce = .ok parts) :
    (∀ part ∈ parts, workspace.builder.InRange part) ∧ ∃ values builder,
      parts.reverse.mapM BitRange.materialize workspace.builder = .ok values builder ∧
        values.map (·.width) = parts.reverse.map (·.width) := by
  obtain ⟨merged, hmerged, hwidths, -⟩ := bits_of_parts hsound h hstore hcount hpos hparts
  have hin : ∀ part ∈ parts, workspace.builder.InRange part := by
    intro part hmem
    obtain ⟨bits, -, hbits⟩ := exists_of_forall₂_of_mem hmerged.flip hmem
    exact ⟨bits, hbits⟩
  refine ⟨hin, Builder.exists_slices hsound.builder fun part hmem => ?_⟩
  rw [List.mem_reverse] at hmem
  exact ⟨hin part hmem, hwidths part hmem⟩

/-- Making a value of one element faults with its coordinate. -/
theorem Fits.read_fault_iff (hstore : workspace.store view.store = .ok store) :
    (∃ after, view.read coordinate workspace = .error (.fault kind) after) ↔
      linearize view.shape coordinate = .error (.fault kind) := by
  have hread := read_outcome hsound h hstore coordinate
  generalize view.read coordinate workspace = result at hread ⊢
  cases hread with
  | @outside failure hoffset =>
    rw [hoffset]
    cases failure <;> simp [Failure.map]
  | gap hoffset _ =>
    rw [hoffset]
    constructor
    · rintro ⟨after, hfault⟩
      cases hfault
    · intro hfault
      cases hfault
  | built hget =>
    rw [← h.get_fault_iff hsound (hsound.stores hstore), hget]
    constructor
    · rintro ⟨after, hfault⟩
      cases hfault
    · intro hfault
      cases hfault

end Fits

/-! ### Joining -/

/-- Joining faults only if the elements cannot be counted, or memory cannot address so many. -/
theorem memory_of_concatenate_fault {operands : List Operand} {after : Workspace} (hsound : workspace.Sound)
    (hoperands : ∀ operand ∈ Operand.array view :: operands, operand.Sound workspace)
    (hfault : view.concatenate operands workspace = .error (.fault kind) after) :
    ¬∃ counts, List.Forall₂ (Operand.Counts workspace) (.array view :: operands) counts ∧
      counts.sum * 24 < signedBound := by
  intro hcounts
  have hrest : ∀ operand ∈ operands, operand.Sound workspace :=
    fun operand hmem => hoperands operand (List.mem_cons_of_mem _ hmem)
  have hcases : (∀ operand ∈ operands, operand.Suits view.elemType workspace) ∨
      ∃ cause, FirstOffends view.elemType workspace operands cause :=
    all_suit_or_firstOffends hsound.builder hrest
  rcases hcases with hsuit | ⟨cause, hoffends⟩
  · obtain ⟨joined, after', hrun⟩ := (concatenate_ok_iff hsound hoperands).mpr ⟨hsuit, hcounts⟩
    rw [hrun] at hfault
    cases hfault
  · obtain ⟨after', hrun⟩ := (refused_concatenate hrest).mpr hoffends
    rw [hrun] at hfault
    cases hfault

end ArrayView

/-! ### All of it -/

/-- Ranges within their sources can be cut, merged and made values, and stay within their sources. -/
structure Builder.HandlesRanges (builder : Builder) : Prop where
  /-- The source of such a range is a value of the netlist, as the netlist has it. -/
  source : ∀ {range : BitRange}, builder.InRange range → builder.valueOf range.source.signal = .ok range.source ∧
    range.low + range.width ≤ range.source.width
  sub : ∀ {range : BitRange}, builder.InRange range → ∀ {low width : Nat}, low + width ≤ range.width →
    ∃ part, range.sub low width = .ok part ∧ part.width = width ∧ builder.InRange part
  coalesce : ∀ {ranges : List BitRange}, (∀ range ∈ ranges, builder.InRange range) →
    ∃ runs, BitRange.coalesce ranges = .ok runs ∧ (∀ run ∈ runs, builder.InRange run) ∧
      (runs.map (·.width)).sum = (ranges.map (·.width)).sum
  materialize : ∀ {ranges : List BitRange}, (∀ range ∈ ranges, builder.InRange range ∧ 0 < range.width) →
    ∃ values builder', ranges.mapM BitRange.materialize builder = .ok values builder' ∧
      values.map (·.width) = ranges.map (·.width)

/-- Whatever the store holds lies within its source, and elements are as wide as their type says. -/
structure Store.HoldsRanges (store : Store) (builder : Builder) : Prop where
  slots : ∀ element, some element ∈ store.slots →
    element.range.width = store.elemType.width ∧ builder.InRange element.range
  origin : ∀ origin ∈ store.origin, builder.InRange origin
  /-- Also the elements of an import, which are cut out when they are read. -/
  element : ∀ offset, ∃ found, store.element offset = .ok found ∧ ∀ element ∈ found,
    element.range.width = store.elemType.width ∧ builder.InRange element.range

/-- The array hands out ranges within their sources only, and what is done with them faults only if the
coordinate, the selection or the number of the elements does. -/
structure ArrayView.HandsOutRanges (view : ArrayView) (store : Store) (workspace : Workspace) : Prop where
  get : ∀ {coordinate : List Nat} {range : BitRange}, view.get store coordinate = .ok (some range) →
    range.width = view.elemType.width ∧ workspace.builder.InRange range
  get_fault : ∀ {coordinate : List Nat} {kind : Fault}, view.get store coordinate = .error (.fault kind) ↔
    linearize view.shape coordinate = .error (.fault kind)
  read_fault : ∀ {coordinate : List Nat} {kind : Fault},
    (∃ after, view.read coordinate workspace = .error (.fault kind) after) ↔
      linearize view.shape coordinate = .error (.fault kind)
  elements : ∀ {ranges : List BitRange}, view.elements store = .ok ranges → ∀ range ∈ ranges,
    range.width = view.elemType.width ∧ workspace.builder.InRange range
  elements_fault : ∀ {kind : Fault}, view.elements store = .error (.fault kind) ↔ view.count = .error kind
  set_fault : ∀ {value : BitRange}, workspace.builder.InRange value →
    ∀ {coordinate : List Nat} {kind : Fault},
    (∃ after, view.set coordinate value workspace = .error (.fault kind) after) ↔
      linearize view.shape coordinate = .error (.fault kind)
  assign_fault : ∀ {value : BitRange}, workspace.builder.InRange value →
    ∀ {selection : List Selector} {kind : Fault},
    (∃ after, view.assign selection value workspace = .error (.fault kind) after) ↔
      region view.shape selection = .error (.fault kind) ∨ ∃ kept, region view.shape selection = .ok kept ∧
        sized (kept.offsets.length * view.elemType.width) = .error kind
  /-- Lowering collects and merges. -/
  parts_fault : ∀ {coalesce : Bool} {kind : Fault}, view.parts store coalesce = .error (.fault kind) →
    view.count = .error kind
  /-- Then it cuts the slices, from the high end down. -/
  slices : ∀ {coalesce : Bool} {parts : List BitRange} {count : Nat}, view.parts store coalesce = .ok parts →
    view.count = .ok count → 0 < count → (∀ part ∈ parts, workspace.builder.InRange part) ∧ ∃ values builder,
      parts.reverse.mapM BitRange.materialize workspace.builder = .ok values builder ∧
        values.map (·.width) = parts.reverse.map (·.width)

theorem Builder.Sound.handlesRanges {builder : Builder} (hsound : builder.Sound) : builder.HandlesRanges where
  source h := ⟨h.source_eq, h.end_le⟩
  sub h _ _ hpart := h.exists_sub hsound hpart
  coalesce h := exists_coalesce hsound h
  materialize h := exists_slices hsound h

theorem Store.Sound.holdsRanges {builder : Builder} {store : Store} (hbuilder : builder.Sound)
    (h : store.Sound builder) : store.HoldsRanges builder where
  slots element hmem := by
    obtain ⟨offset, hlt, hslot⟩ := Array.mem_iff_getElem.mp hmem
    exact h.slots (Array.getElem?_eq_some_iff.mpr ⟨hlt, hslot⟩)
  origin origin horigin := (h.origin horigin).1
  element := h.element hbuilder

theorem ArrayView.Fits.handsOutRanges {view : ArrayView} {store : Store} {workspace : Workspace}
    (hsound : workspace.Sound) (h : view.Fits store) (hstore : workspace.store view.store = .ok store) :
    view.HandsOutRanges store workspace where
  get {coordinate range} hget := by
    obtain ⟨offset, hoffset, -⟩ := bind_eq_ok.mp hget
    obtain ⟨found, hfound, hinside⟩ := h.exists_get hsound (hsound.stores hstore) hoffset
    obtain rfl := Except.ok.inj (hget.symm.trans hfound)
    exact hinside range rfl
  get_fault := h.get_fault_iff hsound (hsound.stores hstore)
  read_fault := h.read_fault_iff hsound hstore
  elements {ranges} hranges := by
    obtain ⟨count, hcount, -⟩ := bind_eq_ok.mp hranges
    rw [lift_checked_eq_ok] at hcount
    exact (h.elements hsound.builder (hsound.stores hstore) hcount hranges).2
  elements_fault := h.elements_fault_iff hsound (hsound.stores hstore)
  set_fault hvalue := h.set_fault_iff hsound hstore hvalue
  assign_fault hvalue := h.assign_fault_iff hsound hstore hvalue
  parts_fault := h.parts_fault hsound (hsound.stores hstore)
  slices hparts hcount hpos := h.exists_values hsound (hsound.stores hstore) hcount hpos hparts

namespace Scene

variable {scene : Scene}

/-- **Ranges stay within their sources.** Whatever a caller cuts out of a value, finds in a store, reads through an
array or merges lies within its source, which is a value of the netlist as the netlist has it. So nothing that is
computed with ranges can fault. What can is the arithmetic of coordinates and counts, and a join of more elements
than memory can address. -/
theorem ranges_stay_within (hscene : scene.Reachable) :
    scene.workspace.builder.HandlesRanges ∧
    (∀ value ∈ scene.values, ∀ low width, low + width ≤ value.width →
      scene.workspace.builder.InRange ⟨value, low, width⟩) ∧
    (∀ id store, scene.workspace.store id = .ok store → store.HoldsRanges scene.workspace.builder) ∧
    ∀ view ∈ scene.arrays, ∃ store, scene.workspace.store view.store = .ok store ∧
      view.HandsOutRanges store scene.workspace ∧
      ∀ operands, scene.Allows (.concatenate view operands) → ∀ kind after,
        view.concatenate operands scene.workspace = .error (.fault kind) after →
          ¬∃ counts, List.Forall₂ (Operand.Counts scene.workspace) (.array view :: operands) counts ∧
            counts.sum * 24 < signedBound := by
  have hsound := sound_of_reachable hscene
  refine ⟨hsound.workspace.builder.handlesRanges, fun value hvalue low width hend => ?_,
    fun id store hstore => (hsound.workspace.stores hstore).holdsRanges hsound.workspace.builder,
    fun view hview => ?_⟩
  · exact Builder.inRange_of_carries (hsound.made.values value hvalue) hend
  · obtain ⟨store, hstore, hfits, -⟩ := hsound.fits hview
    refine ⟨store, hstore, hfits.handsOutRanges hsound.workspace hstore, fun operands hallows kind after => ?_⟩
    obtain ⟨harray, hoperands⟩ := sound_of_allows hsound hallows
    exact ArrayView.memory_of_concatenate_fault hsound.workspace (ArrayView.sound_operands harray hoperands)

/-- The columns of the grid hold parts of its input, and neither a write to one of them nor to a row of them
can fault. -/
theorem ranges_stay_within_gridColumns :
    (∃ ranges, gridColumns.elements gridStore = .ok ranges ∧ ∀ range ∈ ranges,
      range.width = 2 ∧ grid.workspace.builder.valueOf range.source.signal = .ok range.source ∧
        range.low + range.width ≤ range.source.width) ∧
    (∀ kind after, gridColumns.set [1, 0] ⟨gridInput, 6, 2⟩ grid.workspace ≠ .error (.fault kind) after) ∧
    ∀ kind after, gridColumns.assign [.index 1] ⟨gridInput, 4, 4⟩ grid.workspace
      ≠ .error (.fault kind) after := by
  obtain ⟨hranges, hcut, -, harrays⟩ := ranges_stay_within grid_reachable
  obtain ⟨store, hstore, hhands, -⟩ := harrays gridColumns (by decide +kernel)
  obtain rfl : gridStore = store :=
    Except.ok.inj ((show grid.workspace.store ⟨0⟩ = .ok gridStore by decide +kernel).symm.trans hstore)
  have hinput : gridInput ∈ grid.values := by decide +kernel
  refine ⟨⟨_, rfl, fun range hmem => ?_⟩, fun kind after hrun => ?_, fun kind after hrun => ?_⟩
  · obtain ⟨hwidth, hin⟩ := hhands.elements rfl range hmem
    exact ⟨hwidth, hranges.source hin⟩
  · have hfault := (hhands.set_fault (hcut gridInput hinput 6 2 (by decide))).mp ⟨after, hrun⟩
    cases hfault
  · rcases (hhands.assign_fault (hcut gridInput hinput 4 4 (by decide))).mp ⟨after, hrun⟩ with
      hfault | ⟨kept, hkept, hfault⟩
    · cases hfault
    · cases hkept
      cases hfault

end Scene

end NetArray
