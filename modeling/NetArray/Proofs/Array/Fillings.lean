import Mathlib
import NetArray.Proofs.Array.Joins
import NetArray.Proofs.Array.RegionRoundTrip

/-!
# What an array is filled with

`ArrayView.Filled` says which range of bits is at each offset of an array, and where there is none. Every operation has
a rule that gives the content of the array after it, or of the array that it makes, and says that it answers:

* `answers_create`, `answers_ofValue` and `Filled.concatenate` — new arrays;
* `Filled.set` and `Filled.assign` — writes, which may be repeated in a loop;
* `Filled.transform` — the content of a view is that of its array, with the offsets moved around.

An array whose content has no gap is lowered to the bits of its content (`Filled.lower`). None of these operations but
the last one builds anything.
-/

namespace NetArray

/-- The operand is read as these ranges of bits, with gaps where there are none. -/
def Operand.Fills (operand : Operand) (elemType : ElemType) (ranges : List (Option BitRange))
    (workspace : Workspace) : Prop :=
  ∃ items, operand.Reads elemType workspace items ∧ items.map (Option.map Element.range) = ranges

namespace ArrayView

/-- In row-major order, the elements of the array are these ranges of bits, with gaps where there are none. -/
structure Filled (view : ArrayView) (content : Nat → Option BitRange) (workspace : Workspace) : Prop where
  sound : workspace.Sound
  reads : ∃ store, workspace.store view.store = .ok store ∧ view.Fits store ∧
    ∀ place < view.shape.prod, ∃ found, view.element store place = .ok found ∧
      found.map Element.range = content place

variable {view derived joined : ArrayView} {content content' : Nat → Option BitRange}
  {workspace workspace' : Workspace} {value : BitRange}

namespace Filled

theorem fits (h : view.Filled content workspace) : view.Sound workspace := by
  obtain ⟨store, hstore, hfits, -⟩ := h.reads
  exact ⟨store, hstore, hfits⟩

theorem congr (h : view.Filled content workspace)
    (hsame : ∀ place < view.shape.prod, content place = content' place) : view.Filled content' workspace := by
  obtain ⟨store, hstore, hfits, hreads⟩ := h.reads
  refine ⟨h.sound, store, hstore, hfits, fun place hplace => ?_⟩
  rw [← hsame place hplace]
  exact hreads place hplace

/-- Adding stores changes no array. -/
theorem adds (h : view.Filled content workspace) (hadds : workspace.Adds workspace')
    (hsound : workspace'.Sound) : view.Filled content workspace' := by
  obtain ⟨store, hstore, hfits, hreads⟩ := h.reads
  exact ⟨hsound, store, hadds.stores hstore, hfits, hreads⟩

/-- Neither does building. -/
theorem grows (h : view.Filled content workspace) {builder : Builder} (hgrows : workspace.builder.Grows builder) :
    view.Filled content { workspace with builder := builder } :=
  ⟨h.sound.grows hgrows, h.reads⟩

/-- The name of an array is not part of its content. -/
theorem named (h : view.Filled content workspace) (name : String) : (view.named name).Filled content workspace := by
  obtain ⟨store, hstore, hfits, hreads⟩ := h.reads
  exact ⟨h.sound, store, hstore, ⟨hfits.elemType, hfits.embeds, hfits.full⟩, hreads⟩

/-! ### Writes -/

/-- After a write there are the parts of the value at its offsets, and everything else is as it was. -/
theorem wroteThrough (h : view.Filled content workspace) (hsound : workspace'.Sound) {offsets : List Nat}
    {part : Nat → BitRange} (hwrote : view.WroteThrough offsets part [view] workspace workspace')
    (hextends : workspace.Extends workspace') (hlt : ∀ offset ∈ offsets, offset < view.shape.prod)
    (hin : ∀ {number offset}, offsets[number]? = some offset → content' offset = some (part number))
    (hout : ∀ place ∉ offsets, content' place = content place) : view.Filled content' workspace' := by
  obtain ⟨store, hstore, hfits, hreads⟩ := h.reads
  obtain ⟨-, -, before, after, hbefore, hafter, hlands⟩ := hwrote
  obtain rfl := Except.ok.inj (hstore.symm.trans hbefore)
  obtain ⟨after', hafter', hsize, htype⟩ := hextends.stores hstore
  obtain rfl := Except.ok.inj (hafter.symm.trans hafter')
  refine ⟨hsound, after, hafter, hfits.mono hsize htype, fun place hplace => ?_⟩
  obtain ⟨hwritten, hspared⟩ := hlands view List.mem_cons_self rfl place hplace
  by_cases hmem : place ∈ offsets
  · obtain ⟨number, hnumber⟩ := List.mem_iff_getElem?.mp hmem
    obtain ⟨element, helement, hrange⟩ := hwritten hnumber rfl
    refine ⟨some element, helement, ?_⟩
    rw [hin hnumber, Option.map_some, hrange]
  · -- distinct offsets of the view have distinct slots
    have hother : ∀ offset ∈ offsets, view.storeOffset place ≠ view.storeOffset offset := by
      intro offset hoffset hsame
      have heq : place = offset := hfits.embeds.inj hplace (hlt offset hoffset) hsame
      rw [heq] at hmem
      exact hmem hoffset
    obtain ⟨found, hfound, hrange⟩ := hreads place hplace
    refine ⟨found, ?_, ?_⟩
    · rw [hspared hother, hfound]
    · rw [hout place hmem, hrange]

/-- **Writing at a coordinate.** -/
theorem set (h : view.Filled content workspace) {coordinate : List Nat} {offset : Nat}
    (hoffset : linearize view.shape coordinate = .ok offset) (hvalue : workspace.builder.InRange value)
    (hwidth : value.width = view.elemType.width) (hin : content' offset = some value)
    (hout : ∀ place ≠ offset, content' place = content place) :
    Answers workspace (view.set coordinate value) fun _ workspace' =>
      workspace'.builder = workspace.builder ∧ view.Filled content' workspace' := by
  obtain ⟨store, hstore, hfits, -⟩ := h.reads
  have hlt : offset < view.shape.prod := by
    obtain ⟨hwithin, rfl⟩ := eq_of_linearize hoffset
    exact position_lt hwithin
  obtain ⟨target, htarget, hslot⟩ := hfits.embeds.lands offset hlt
  obtain ⟨store', hwrite⟩ : ∃ store', Store.set target value store = .ok () store' :=
    ⟨_, (Store.set_eq_ok (by rw [hwidth, hfits.elemType])).mpr ⟨htarget, rfl⟩⟩
  have hon := Session.onStore_eq_ok.mpr ⟨store, store', hstore, hwrite, rfl⟩
  have hrun : view.set coordinate value workspace = .ok () (workspace.replace view.store store') := by
    refine change_bind_eq_ok.mpr ⟨offset, workspace, ?_, ?_⟩
    · exact change_lift_eq_ok.mpr ⟨lift_index_eq_ok.mpr hoffset, rfl⟩
    rw [Store.classify_eq_whole.mpr hwidth]
    exact change_bind_eq_ok.mpr ⟨target, workspace, change_lift_checked_eq_ok.mpr ⟨hslot, rfl⟩, hon⟩
  have hwrote : view.WroteThrough [offset] (fun _ => value) [view] workspace
      (workspace.replace view.store store') := by
    refine wroteThrough_of_onStore hon fun hstore' hset reader hreader _ => ?_
    obtain rfl := Except.ok.inj (hstore.symm.trans hstore')
    rw [List.mem_singleton.mp hreader]
    exact lands_of_set hfits hwidth hslot hset hfits
  have hextends := (yields_set h.sound.builder hvalue coordinate).extends_ok hrun
  refine ⟨(), _, hrun, rfl, h.wroteThrough (hextends.sound h.sound) hwrote hextends ?_ ?_ ?_⟩
  · exact fun place hplace => by rwa [List.mem_singleton.mp hplace]
  · intro number place hplace
    rw [List.getElem?_singleton] at hplace
    split at hplace
    · rw [← Option.some.inj hplace, hin]
    · cases hplace
  · exact fun place hplace => hout place fun heq => hplace (List.mem_singleton.mpr heq)

/-- **Writing to a selection** what is as wide as all of it. -/
theorem assign (h : view.Filled content workspace) {selection : List Selector} {kept : Region}
    (hkept : region view.shape selection = .ok kept) (hvalue : workspace.builder.InRange value)
    (hwidth : value.width = kept.offsets.length * view.elemType.width) (hsize : value.width < sizeBound)
    (hin : ∀ {number offset}, kept.offsets[number]? = some offset →
      content' offset = some (Store.piece value view.elemType.width number))
    (hout : ∀ place ∉ kept.offsets, content' place = content place) :
    Answers workspace (view.assign selection value) fun _ workspace' =>
      workspace'.builder = workspace.builder ∧ view.Filled content' workspace' := by
  obtain ⟨store, hstore, hfits, -⟩ := h.reads
  rw [hwidth] at hsize
  obtain ⟨written, hrun⟩ := exists_assign h.sound hfits hstore hvalue hkept hsize (.inl hwidth)
  obtain ⟨kept', hkept', -, -, hsplit, -⟩ :=
    assignedThrough_of_assign (List.forall_mem_singleton.mpr h.fits) List.mem_cons_self hrun
  obtain rfl := Except.ok.inj (hkept.symm.trans hkept')
  have hwrote := hsplit hwidth
  have hextends := (yields_assign h.sound.builder hvalue selection).extends_ok hrun
  exact ⟨(), written, hrun, hwrote.1,
    h.wroteThrough (hextends.sound h.sound) hwrote hextends (region_offsets hkept).2 hin hout⟩

/-- Writing to offsets in a row. -/
theorem assignRange (h : view.Filled content workspace) {selection : List Selector} {shape : List Nat}
    {start count : Nat} (hkept : region view.shape selection = .ok ⟨shape, List.range' start count⟩)
    (hvalue : workspace.builder.InRange value) (hwidth : value.width = count * view.elemType.width)
    (hsize : value.width < sizeBound) :
    Answers workspace (view.assign selection value) fun _ workspace' =>
      workspace'.builder = workspace.builder ∧ view.Filled (fun place =>
        if start ≤ place ∧ place < start + count then some (Store.piece value view.elemType.width (place - start))
        else content place) workspace' := by
  refine h.assign hkept hvalue (by rwa [List.length_range']) hsize (fun {number offset} hoffset => ?_) ?_
  · obtain ⟨hnumber, hoffset⟩ := List.getElem?_eq_some_iff.mp hoffset
    rw [List.length_range'] at hnumber
    rw [List.getElem_range'_1] at hoffset
    rw [if_pos (by omega), show offset - start = number by omega]
  · intro place hplace
    exact if_neg fun hmem => hplace (List.mem_range'_1.mpr hmem)

/-! ### Loops -/

/-- Writing one value to the first offsets, one after the other. -/
theorem fill (h : view.Filled content workspace) {count : Nat} {coordinate : Nat → List Nat}
    (hoffset : ∀ number < count, linearize view.shape (coordinate number) = .ok number)
    (hvalue : workspace.builder.InRange value) (hwidth : value.width = view.elemType.width) :
    Answers workspace ((List.range count).forM fun number => view.set (coordinate number) value) fun _ workspace' =>
      workspace'.builder = workspace.builder ∧
        view.Filled (fun place => if place < count then some value else content place) workspace' := by
  have hloop : Answers workspace ((List.range' 0 count).forM fun number => view.set (coordinate number) value)
      fun _ state => state.builder = workspace.builder ∧
        view.Filled (fun place => if place < 0 + count then some value else content place) state := by
    -- after so many rounds, so many offsets have the value
    refine Answers.forM (I := fun number state => state.builder = workspace.builder ∧
      view.Filled (fun place => if place < number then some value else content place) state) ?_ ?_
    · exact ⟨rfl, h⟩
    intro number state _ hnumber hstate
    obtain ⟨hbuilder, hfilled⟩ := hstate
    rw [← hbuilder] at hvalue ⊢
    refine hfilled.set (hoffset number (by omega)) hvalue hwidth (if_pos (Nat.lt_succ_self number)) ?_
    intro place hne
    by_cases hlt : place < number
    · rw [if_pos hlt, if_pos (by omega)]
    · rw [if_neg hlt, if_neg (by omega)]
  rw [Nat.zero_add] at hloop
  rw [List.range_eq_range']
  exact hloop

/-- Writing one value to each of some rows. -/
theorem fillRows (h : view.Filled content workspace) {first count size : Nat} {shape : List Nat}
    {selection : Nat → List Selector}
    (hkept : ∀ row < first + count, region view.shape (selection row) = .ok ⟨shape, List.range' (row * size) size⟩)
    (hvalue : workspace.builder.InRange value) (hwidth : value.width = size * view.elemType.width)
    (hsize : value.width < sizeBound) :
    Answers workspace ((List.range' first count).forM fun row => view.assign (selection row) value)
      fun _ workspace' => workspace'.builder = workspace.builder ∧ view.Filled (fun place =>
        if first * size ≤ place ∧ place < (first + count) * size then
          some (Store.piece value view.elemType.width (place % size))
        else content place) workspace' := by
  -- so far, the rows before this one have the value
  refine Answers.forM (I := fun row state => state.builder = workspace.builder ∧ view.Filled (fun place =>
    if first * size ≤ place ∧ place < row * size then some (Store.piece value view.elemType.width (place % size))
    else content place) state) ?_ ?_
  · exact ⟨rfl, h.congr fun place _ => (if_neg (by omega)).symm⟩
  intro row state hfirst hrow hstate
  obtain ⟨hbuilder, hfilled⟩ := hstate
  rw [← hbuilder] at hvalue ⊢
  refine (hfilled.assignRange (hkept row hrow) hvalue hwidth hsize).mono fun _ state' hwritten => ?_
  refine ⟨hwritten.1, hwritten.2.congr fun place _ => ?_⟩
  have hnext : (row + 1) * size = row * size + size := Nat.succ_mul row size
  have hbelow : first * size ≤ row * size := Nat.mul_le_mul_right size hfirst
  by_cases hrow : row * size ≤ place ∧ place < row * size + size
  · -- the offset is in this row
    obtain ⟨rest, rfl⟩ := Nat.exists_eq_add_of_le hrow.1
    rw [if_pos hrow, if_pos (by omega), Nat.add_sub_cancel_left, Nat.mul_comm row, Nat.mul_add_mod,
      Nat.mod_eq_of_lt (by omega)]
  · rw [if_neg hrow]
    by_cases hearlier : first * size ≤ place ∧ place < row * size
    · rw [if_pos hearlier, if_pos (by omega)]
    · rw [if_neg hearlier, if_neg (by omega)]

/-! ### Views -/

/-- **Deriving a view.** Each offset of the view is one of the array. -/
theorem transform (h : view.Filled content workspace) {step : Transform}
    (hstep : view.transform step = .ok derived) (moved : Nat → Nat)
    (hmoved : ∀ place < derived.shape.prod, moved place < view.shape.prod ∧
      derived.storeOffset place = view.storeOffset (moved place)) :
    derived.Filled (fun place => content (moved place)) workspace := by
  obtain ⟨store, hstore, hfits, hreads⟩ := h.reads
  have hsize := hfits.shape_lt (h.sound.stores hstore).addressable
  refine ⟨h.sound, store, ?_, hfits.transform hsize hstep, fun place hplace => ?_⟩
  · rw [store_of_transform hstep, hstore]
  · obtain ⟨hlt, hsame⟩ := hmoved place hplace
    obtain ⟨found, hfound, hrange⟩ := hreads (moved place) hlt
    refine ⟨found, ?_, hrange⟩
    rw [element, hsame]
    exact hfound

/-! ### Lowering -/

/-- The elements of an array without a gap. -/
theorem elements (h : view.Filled content workspace) {count : Nat} {part : Nat → BitRange}
    (hcount : view.count = .ok count) (hfull : ∀ place < count, content place = some (part place)) :
    ∃ store, workspace.store view.store = .ok store ∧ view.Fits store ∧
      view.elements store = .ok ((List.range count).map part) := by
  obtain ⟨store, hstore, hfits, hreads⟩ := h.reads
  obtain ⟨rfl, -⟩ := eq_of_elementCount hcount
  refine ⟨store, hstore, hfits, (elements_eq_ok hcount).mpr ?_⟩
  rw [List.forall₂_map_right_iff, List.forall₂_same]
  intro place hplace
  have hlt : place < view.shape.prod := List.mem_range.mp hplace
  obtain ⟨found, hfound, hrange⟩ := hreads place hlt
  rw [hfull place hlt] at hrange
  obtain ⟨element, rfl, helement⟩ := Option.map_eq_some_iff.mp hrange
  exact ⟨element, hfound, helement⟩

/-- **Lowering.** The value has the bits of the content, and nothing is done but to build it. -/
theorem lower (h : view.Filled content workspace) (settings : Settings) {count : Nat}
    {pieces : Nat → List BitOrigin} (hcount : view.count = .ok count) (hpos : 0 < count)
    (hword : count * view.elemType.width < wordBound)
    (hparts : ∀ place < count, ∃ part, content place = some part ∧ workspace.builder.Backs part (pieces place)) :
    Answers workspace (view.lower settings) fun result workspace' =>
      workspace'.Sound ∧ workspace.builder.Grows workspace'.builder ∧
        (∃ parts, view.build settings parts workspace.builder = .ok result.1 workspace'.builder) ∧
        workspace'.builder.Carries result.1 ((List.range count).flatMap pieces) := by
  obtain ⟨first, -⟩ := hparts 0 hpos
  have : Nonempty BitRange := ⟨first⟩
  choose! part hfull hbacks using hparts
  obtain ⟨store, hstore, hfits, helements⟩ := h.elements hcount hfull
  obtain ⟨value, lowered, workspace', hrun, hgrows, hcarries⟩ :=
    carries_of_parts h.sound hfits hstore settings hcount hpos hword helements hbacks
  have hsound := ((yields_lower h.sound h.fits settings).extends_ok hrun).sound h.sound
  obtain ⟨parts, builder, hbuild, rfl⟩ := builder_of_lower hrun
  rw [← List.flatMap_def] at hcarries
  exact ⟨(value, lowered), _, hrun, hsound, hgrows, ⟨parts, hbuild⟩, hcarries⟩

end Filled

/-! ### New arrays -/

/-- A new array has a store of its own. -/
theorem answers_ofStore (hsound : workspace.Sound) {shape : List Nat} {store : Store}
    (hstore : store.Sound workspace.builder) (hshape : shape.prod = store.size)
    (hcontent : ∀ place < shape.prod, ∃ found, store.element place = .ok found ∧
      found.map Element.range = content place) :
    Answers workspace (ofStore shape store) fun view workspace' =>
      view = { shape := shape, elemType := store.elemType, store := ⟨workspace.stores.size⟩ } ∧
        workspace.Adds workspace' ∧ view.Filled content workspace' := by
  have hyields := yields_ofStore hstore hshape
  have hrun : ofStore shape store workspace = .ok
      { shape := shape, elemType := store.elemType, store := ⟨workspace.stores.size⟩ }
      { workspace with stores := workspace.stores.push store } := rfl
  obtain ⟨held, hheld, hfits⟩ := hyields.answer hrun
  have hself := Session.store_push_self store workspace
  obtain rfl := Except.ok.inj (hself.symm.trans hheld)
  refine ⟨_, _, hrun, rfl, ⟨rfl, Session.store_push_of_ok store⟩, ?_⟩
  exact ⟨(hyields.extends_ok hrun).sound hsound, store, hself, hfits, hcontent⟩

/-- **Creating.** Nothing is there yet. -/
theorem answers_create (hsound : workspace.Sound) {shape : List Nat} {elemType : ElemType}
    (hshape : checkShape shape = .ok ()) (hcount : elementCount shape = .ok shape.prod)
    (hmemory : shape.prod * 24 < signedBound) :
    Answers workspace (create shape elemType) fun view workspace' =>
      view = { shape := shape, elemType := elemType, store := ⟨workspace.stores.size⟩ } ∧
        workspace.Adds workspace' ∧ view.Filled (fun _ => none) workspace' := by
  have hstore : Store.create shape.prod elemType = .ok (.empty shape.prod elemType) := by
    rw [Store.create, bind_eq_ok]
    exact ⟨_, addressable_eq_ok.mpr ⟨hmemory, rfl⟩, rfl⟩
  obtain ⟨-, hsoundStore⟩ := Store.sound_create hstore
  refine .lift_bind (lift_shape_eq_ok.mpr hshape) ?_
  refine .lift_bind (lift_checked_eq_ok.mpr hcount) ?_
  refine .lift_bind (lift_checked_eq_ok.mpr hstore) ?_
  refine answers_ofStore hsound hsoundStore (Store.size_empty _ _).symm fun place hplace => ?_
  refine ⟨none, ?_, rfl⟩
  have hslot : (Store.empty shape.prod elemType).slots[place]? = some none := by
    change (Array.replicate shape.prod none)[place]? = _
    rw [Array.getElem?_replicate, if_pos hplace]
  rw [Store.element, hslot]
  rfl

/-- **Importing.** At each offset there is the part of the value that belongs there. -/
theorem answers_ofValue (hsound : workspace.Sound) {source : Value} {bits : List BitOrigin}
    (hsource : workspace.builder.Carries source bits) {shape : List Nat} {elemType : ElemType}
    (hlayout : importOf workspace.builder.types source = .ok (shape, .ofImport source elemType)) :
    Answers workspace (ofValue source) fun view workspace' =>
      view = { shape := shape, elemType := elemType, store := ⟨workspace.stores.size⟩ } ∧
        workspace.Adds workspace' ∧
        view.Filled (fun place => some ⟨source, place * elemType.width, elemType.width⟩) workspace' := by
  have hrun := ofValue_eq_ok.mpr ⟨(shape, .ofImport source elemType), hlayout, rfl, rfl⟩
  have hyields := yields_ofValue hsound.builder hsource
  obtain ⟨store, hstore, hfits⟩ := hyields.answer hrun
  have hself := Session.store_push_self (.ofImport source elemType) workspace
  obtain rfl := Except.ok.inj (hself.symm.trans hstore)
  refine ⟨_, _, hrun, rfl, ⟨rfl, Session.store_push_of_ok _⟩, ?_⟩
  refine ⟨(hyields.extends_ok hrun).sound hsound, _, hself, hfits, fun place hplace => ?_⟩
  -- nothing was selected, so the array has as many elements as the store
  have hcount : shape.prod = source.width / elemType.width :=
    (hfits.full fun _ hmem => nomatch hmem).trans Store.size_ofImport
  have hslot := Store.element_ofImport (hsource.width_lt hsound.builder) (hplace.trans_eq hcount)
  exact ⟨_, element_eq_ok.mpr ⟨place, rfl, hslot⟩, rfl⟩

/-! ### Joined arrays -/

namespace Filled

/-- What the array holds, as far as its content says. -/
theorem holds (h : view.Filled content workspace) {count : Nat} (hcount : view.count = .ok count) :
    ∃ items, view.Holds workspace items ∧ items.map (Option.map Element.range) = (List.range count).map content := by
  obtain ⟨items, hitems, rfl⟩ := exists_holds h.sound h.fits hcount
  refine ⟨items, hitems, ?_⟩
  obtain ⟨store, hstore, -, hreads⟩ := h.reads
  obtain ⟨store', hstore', -, hitems⟩ := hitems
  obtain rfl := Except.ok.inj (hstore.symm.trans hstore')
  have hprod : view.shape.prod = items.length := (eq_of_elementCount hcount).1.symm
  rw [hprod] at hreads
  refine List.ext_getElem? fun place => ?_
  by_cases hplace : place < items.length
  · obtain ⟨item, hitem, helement⟩ := (forall₂_range hitems).2 place hplace
    obtain ⟨found, hfound, hrange⟩ := hreads place hplace
    obtain rfl := Except.ok.inj (hfound.symm.trans helement)
    rw [List.getElem?_map, List.getElem?_map, hitem, List.getElem?_range hplace, Option.map_some, Option.map_some,
      hrange]
  · have hout := Nat.le_of_not_lt hplace
    rw [List.getElem?_eq_none, List.getElem?_eq_none]
    · rwa [List.length_map, List.length_range]
    · rwa [List.length_map]

end Filled

theorem Filled.fills (h : view.Filled content workspace) {count : Nat} (hcount : view.count = .ok count) :
    (Operand.array view).Fills view.elemType ((List.range count).map content) workspace := by
  obtain ⟨items, hitems, hranges⟩ := h.holds hcount
  exact ⟨items, Operand.reads_array.mpr ⟨rfl, hitems⟩, hranges⟩

theorem fills_value (hsound : workspace.Sound) {source : Value} {bits : List BitOrigin}
    (hsource : workspace.builder.Carries source bits) {shape : List Nat} {elemType : ElemType} {count : Nat}
    (hlayout : importOf workspace.builder.types source = .ok (shape, .ofImport source elemType))
    (hcount : elementCount shape = .ok count) :
    (Operand.value source).Fills elemType
      ((List.range count).map fun place => some ⟨source, place * elemType.width, elemType.width⟩) workspace := by
  obtain ⟨part, after, hrun, rfl, -, hfilled⟩ := answers_ofValue hsound hsource hlayout
  obtain ⟨items, hitems, hranges⟩ := hfilled.holds hcount
  exact ⟨items, ⟨_, after, hrun, rfl, hitems⟩, hranges⟩

/-- What fills the array is what is read of the operands. -/
private theorem exists_reads_of_fills {elemType : ElemType} {operands : List Operand}
    {parts : List (List (Option BitRange))}
    (h : List.Forall₂ (fun operand part => operand.Fills elemType part workspace) operands parts) :
    ∃ items, List.Forall₂ (Operand.Reads elemType workspace) operands items ∧
      items.map (List.map (Option.map Element.range)) = parts := by
  induction h with
  | nil => exact ⟨[], .nil, rfl⟩
  | cons hfills _ ih =>
    obtain ⟨items, hreads, rfl⟩ := hfills
    obtain ⟨rest, hrest, rfl⟩ := ih
    exact ⟨items :: rest, .cons hreads hrest, rfl⟩

/-- Joining the operands, in terms of what is read of them. -/
private theorem answers_concatenate (hsound : workspace.Sound) (hview : view.Sound workspace)
    {operands : List Operand} {parts : List (List (Option Element))}
    (hoperands : ∀ operand ∈ operands, operand.Sound workspace)
    (hreads : List.Forall₂ (Operand.Reads view.elemType workspace) (.array view :: operands) parts)
    (hmemory : parts.flatten.length * 24 < signedBound) :
    Answers workspace (view.concatenate operands) fun joined workspace' =>
      (∃ id, joined = { shape := [parts.flatten.length], elemType := view.elemType, store := id }) ∧
        workspace'.builder = workspace.builder ∧
        joined.Filled (fun place => (parts.flatten.map (Option.map Element.range))[place]?.join) workspace' := by
  have hall := sound_operands hview hoperands
  obtain ⟨joined, after, hrun⟩ := exists_concatenate hall hreads hmemory
  obtain ⟨middle, parts', hadds, hreads', -, hjoined⟩ := reads_of_concatenate hall hrun
  obtain rfl := forall₂_det hreads hreads' fun _ _ _ hitems hitems' => hitems.det hitems'
  -- the workspace stays sound, and the joined array fits its store
  have hyields := yields_concatenate hsound hview hoperands
  have hsound' := (hyields.extends_ok hrun).sound hsound
  obtain ⟨store, hstore, hfits⟩ := hyields.answer hrun
  obtain ⟨rfl, rfl⟩ := Prod.mk.inj hjoined
  obtain ⟨store', hstore', -, hholds⟩ := holds_joinedIn hmemory view.elemType middle
  obtain rfl := Except.ok.inj (hstore.symm.trans hstore')
  refine ⟨_, _, hrun, ⟨_, rfl⟩, hadds.builder, hsound', store, hstore, hfits, fun place hplace => ?_⟩
  have hlt : place < parts.flatten.length := by
    change place < [parts.flatten.length].prod at hplace
    rwa [List.prod_singleton] at hplace
  obtain ⟨found, hfound, helement⟩ := (forall₂_range hholds).2 place hlt
  refine ⟨found, helement, ?_⟩
  rw [List.getElem?_map, hfound, Option.map_some, Option.join_some]

/-- **Joining.** The array that is joined has what was read of the operands, one after the other. -/
theorem Filled.concatenate (h : view.Filled content workspace) {count : Nat} (hcount : view.count = .ok count)
    {operands : List Operand} {parts : List (List (Option BitRange))}
    (hoperands : ∀ operand ∈ operands, operand.Sound workspace)
    (hparts : List.Forall₂ (fun operand part => operand.Fills view.elemType part workspace) operands parts)
    {total : Nat} (htotal : count + parts.flatten.length = total) (hmemory : total * 24 < signedBound) :
    Answers workspace (view.concatenate operands) fun joined workspace' =>
      (∃ id, joined = { shape := [total], elemType := view.elemType, store := id }) ∧
        workspace'.builder = workspace.builder ∧
        joined.Filled (fun place => ((List.range count).map content ++ parts.flatten)[place]?.join) workspace' := by
  -- what is read of the array and of each operand
  obtain ⟨items, hitems, hranges⟩ := h.holds hcount
  obtain ⟨rest, hrest, rfl⟩ := exists_reads_of_fills hparts
  have hreads : List.Forall₂ (Operand.Reads view.elemType workspace) (.array view :: operands) (items :: rest) :=
    .cons (Operand.reads_array.mpr ⟨rfl, hitems⟩) hrest
  have hflat : (items :: rest).flatten.map (Option.map Element.range)
      = (List.range count).map content ++ (rest.map (List.map (Option.map Element.range))).flatten := by
    rw [List.flatten_cons, List.map_append, hranges, List.map_flatten]
  have hlength : (items :: rest).flatten.length = total := by
    rw [← htotal, ← List.length_map (Option.map Element.range), hflat, List.length_append, List.length_map,
      List.length_range]
  rw [← hflat, ← hlength]
  rw [← hlength] at hmemory
  exact answers_concatenate h.sound h.fits hoperands hreads hmemory

end ArrayView

end NetArray
