import Mathlib
import NetArray.Proofs.Array.RangeBits
import NetArray.Array.Write

/-!
# Element stores

What a store holds at an offset is decided by three fields together: the slot, the value that the store was
imported from, and the type of the elements. This file takes them as one, through `Store.element`:

* `element_putAll` and `element_putAll_of_notMem` — writing entries changes the elements at their offsets
  and no others, imported or not;
* `set_eq_ok` and `eq_of_setRange` — what a write has done when it succeeded;
* `Store.Sound` — every element has the width of the type and lies within its source, and so does the
  import. Writes keep it (`extends_set`, `extends_setRange`, `extends_broadcast`), as long as the value that is
  written lies within its source.

A write that fails has written nothing, so the same relation `Store.Extends` covers both outcomes.
-/

namespace NetArray

namespace Store

/-! ### Writing entries -/

section Put

variable {store : Store} {offset place : Nat} {element : Element} {entries : List (Nat × Element)}

@[simp] theorem put_size : (store.put offset element).size = store.size :=
  Array.size_setIfInBounds ..

@[simp] theorem put_elemType : (store.put offset element).elemType = store.elemType := rfl

@[simp] theorem put_origin : (store.put offset element).origin = store.origin := rfl

theorem putAll_cons (entry : Nat × Element) :
    store.putAll (entry :: entries) = (store.put entry.1 entry.2).putAll entries := rfl

@[simp] theorem putAll_size : (store.putAll entries).size = store.size := by
  induction entries generalizing store with
  | nil => rfl
  | cons entry entries ih => rw [putAll_cons, ih, put_size]

@[simp] theorem putAll_elemType : (store.putAll entries).elemType = store.elemType := by
  induction entries generalizing store with
  | nil => rfl
  | cons entry entries ih => rw [putAll_cons, ih, put_elemType]

@[simp] theorem putAll_origin : (store.putAll entries).origin = store.origin := by
  induction entries generalizing store with
  | nil => rfl
  | cons entry entries ih => rw [putAll_cons, ih, put_origin]

/-- A slot holds what was put there last. -/
theorem put_slots (place : Nat) : (store.put offset element).slots[place]?
    = if offset = place ∧ offset < store.size then some (some element) else store.slots[place]? := by
  change (store.slots.setIfInBounds offset (some element))[place]? = _
  -- past the end of the slots nothing is put
  rw [Array.getElem?_setIfInBounds]
  by_cases hsame : offset = place
  · subst hsame
    rw [if_pos rfl]
    by_cases hlt : offset < store.slots.size
    · rw [if_pos hlt, if_pos ⟨rfl, hlt⟩]
    · rw [if_neg hlt, if_neg fun h => hlt h.2, Array.getElem?_eq_none (Nat.le_of_not_lt hlt)]
  · rw [if_neg hsame, if_neg fun h => hsame h.1]

/-- The element at an offset depends on its slot, the import and the type only. -/
theorem element_congr {store' : Store} (hslot : store'.slots[place]? = store.slots[place]?)
    (horigin : store'.origin = store.origin) (htype : store'.elemType = store.elemType) :
    store'.element place = store.element place := by
  unfold element importedElement
  rw [hslot, horigin, htype]

theorem element_put_self (hlt : offset < store.size) :
    (store.put offset element).element offset = .ok (some element) := by
  rw [Store.element, put_slots, if_pos ⟨rfl, hlt⟩]

theorem element_put_of_ne (hne : offset ≠ place) :
    (store.put offset element).element place = store.element place :=
  element_congr (by rw [put_slots, if_neg fun h => hne h.1]) rfl rfl

/-- Writing entries leaves the elements at all other offsets as they were. -/
theorem element_putAll_of_notMem (hplace : place ∉ entries.map Prod.fst) :
    (store.putAll entries).element place = store.element place := by
  induction entries generalizing store with
  | nil => rfl
  | cons entry entries ih =>
    rw [List.map_cons, List.mem_cons, not_or] at hplace
    rw [putAll_cons, ih hplace.2, element_put_of_ne fun heq => hplace.1 heq.symm]

/-- Writing entries at different offsets puts each of them where it belongs. -/
theorem element_putAll (hnodup : (entries.map Prod.fst).Nodup) (hmem : (offset, element) ∈ entries)
    (hlt : offset < store.size) : (store.putAll entries).element offset = .ok (some element) := by
  induction entries generalizing store with
  | nil => cases hmem
  | cons entry entries ih =>
    rw [List.map_cons, List.nodup_cons] at hnodup
    rw [putAll_cons]
    rcases List.mem_cons.mp hmem with rfl | hmem
    · -- the entries that follow are for other offsets
      rw [element_putAll_of_notMem hnodup.1, element_put_self hlt]
    · exact ih hnodup.2 hmem (by rwa [put_size])

end Put

/-! ### What a successful write has done -/

section Writes

variable {store store' : Store} {offset : Nat} {offsets : List Nat} {value : BitRange}

/-- Counts a write. -/
def counted (store : Store) : Store :=
  { store with revision := store.revision + 1 }

@[simp] theorem counted_size : store.counted.size = store.size := rfl

@[simp] theorem counted_elemType : store.counted.elemType = store.elemType := rfl

@[simp] theorem element_counted (place : Nat) : store.counted.element place = store.element place := rfl

theorem commit_run (entries : List (Nat × Element)) (store : Store) :
    commit entries store = .ok .unit (store.putAll entries).counted := rfl

theorem checkOffset_eq_ok {u : Unit} : store.checkOffset offset = .ok u ↔ offset < store.size := by
  unfold checkOffset
  split <;> simp [*]

theorem classify_eq_whole {width : Nat} {elemType : ElemType} :
    WriteMode.classify width elemType = .whole ↔ width = elemType.width := by
  refine ⟨fun h => ?_, fun h => if_pos h⟩
  unfold WriteMode.classify at h
  split at h
  · assumption
  · split at h <;> cases h

theorem width_of_classify_bitwise {width : Nat} {elemType : ElemType}
    (h : WriteMode.classify width elemType = .bitwise) : elemType.width = 1 ∧ 1 < width := by
  unfold WriteMode.classify at h
  split at h
  · cases h
  · split at h
    · assumption
    · cases h

theorem classify_eq_mismatch {width : Nat} {elemType : ElemType} :
    WriteMode.classify width elemType = .mismatch ↔
      width ≠ elemType.width ∧ ¬(elemType.width = 1 ∧ 1 < width) := by
  unfold WriteMode.classify
  split_ifs <;> simp_all

/-- Writing a value as one element. -/
theorem set_eq_ok (hwidth : value.width = store.elemType.width) :
    set offset value store = .ok .unit store' ↔
      offset < store.size ∧ store' = (store.put offset (.whole value)).counted := by
  have hclassify := classify_eq_whole.mpr hwidth
  rw [set, change_bind_eq_ok]
  constructor
  · rintro ⟨_, _, hget, hrun⟩
    obtain ⟨rfl, rfl⟩ := change_get_eq_ok.mp hget
    rw [hclassify] at hrun
    obtain ⟨_, _, hcheck, hcommit⟩ := change_bind_eq_ok.mp hrun
    obtain ⟨hlt, rfl⟩ := change_lift_eq_ok.mp hcheck
    rw [commit_run, EStateM.Result.ok.injEq] at hcommit
    exact ⟨checkOffset_eq_ok.mp hlt, hcommit.2.symm⟩
  · rintro ⟨hlt, rfl⟩
    refine ⟨store, store, rfl, ?_⟩
    rw [hclassify]
    exact change_bind_eq_ok.mpr
      ⟨.unit, store, change_lift_eq_ok.mpr ⟨checkOffset_eq_ok.mpr hlt, rfl⟩, rfl⟩

/-- The value of a part of a range, counted in parts of `width` bits. -/
def piece (value : BitRange) (width number : Nat) : BitRange :=
  ⟨value.source, value.low + number * width, width⟩

theorem chunks_eq_ok {width count : Nat} {parts : List BitRange}
    (h : chunks value width count = .ok parts) : parts = (List.range count).map (piece value width) := by
  rw [chunks, mapM_eq_ok] at h
  -- each chunk is a part of the value, and there is only one such part
  have hparts : List.Forall₂ (fun number part => piece value width number = part)
      (List.range count) parts := by
    refine h.imp fun number part hpart => ?_
    simp only [bind_eq_ok, word_eq_ok, BitRange.sub] at hpart
    obtain ⟨_, ⟨-, rfl⟩, hpart⟩ := hpart
    split at hpart
    · simp only [bind_eq_ok, word_eq_ok, pure_eq_ok] at hpart
      obtain ⟨_, ⟨-, rfl⟩, rfl⟩ := hpart
      rfl
    · cases hpart
  rw [← List.forall₂_map_left_iff, List.forall₂_eq_eq_eq] at hparts
  exact hparts.symm

/-- What a split value is written as: bits where it fills several single bits. -/
def splitTag (width : Nat) (value : BitRange) : BitRange → Element :=
  if width = 1 ∧ 1 < value.width then .bit else .whole

theorem range_splitTag (width : Nat) (value part : BitRange) :
    (splitTag width value part).range = part := by
  unfold splitTag
  split <;> rfl

/-- The entries of a split value: the lowest part at the first offset. -/
def splitEntries (width : Nat) (offsets : List Nat) (value : BitRange) : List (Nat × Element) :=
  offsets.zip (((List.range offsets.length).map (piece value width)).map (splitTag width value))

/-- Checking offsets one after the other changes nothing. -/
theorem forM_checkOffset_eq_ok {state state' : Store} {u : PUnit} :
    (offsets.forM fun offset => (liftM (store.checkOffset offset) : Change Store ArrayError Unit)) state
        = .ok u state' ↔ (∀ offset ∈ offsets, offset < store.size) ∧ state = state' := by
  induction offsets with
  | nil =>
    refine ⟨fun h => ?_, fun h => by rw [h.2]; rfl⟩
    cases h
    exact ⟨fun _ hmem => (nomatch hmem), rfl⟩
  | cons offset offsets ih =>
    change ((liftM (store.checkOffset offset) : Change Store ArrayError Unit) >>= fun _ =>
      offsets.forM _) state = _ ↔ _
    rw [change_bind_eq_ok, List.forall_mem_cons]
    constructor
    · rintro ⟨_, _, hlift, hrest⟩
      obtain ⟨hcheck, rfl⟩ := change_lift_eq_ok.mp hlift
      obtain ⟨hlt, rfl⟩ := ih.mp hrest
      exact ⟨⟨checkOffset_eq_ok.mp hcheck, hlt⟩, rfl⟩
    · rintro ⟨⟨hlt, hrest⟩, rfl⟩
      exact ⟨.unit, state, change_lift_eq_ok.mpr ⟨checkOffset_eq_ok.mpr hlt, rfl⟩, ih.mpr ⟨hrest, rfl⟩⟩

/-- Splitting a value over offsets. -/
theorem eq_of_setRange (h : setRange offsets value store = .ok .unit store') :
    value.width = offsets.length * store.elemType.width ∧ (∀ offset ∈ offsets, offset < store.size) ∧
      store' = (store.putAll (splitEntries store.elemType.width offsets value)).counted := by
  rw [setRange, change_bind_eq_ok] at h
  obtain ⟨_, _, hget, h⟩ := h
  obtain ⟨rfl, rfl⟩ := change_get_eq_ok.mp hget
  obtain ⟨total, _, hlift, h⟩ := change_bind_eq_ok.mp h
  obtain ⟨htotal, rfl⟩ := change_lift_checked_eq_ok.mp hlift
  obtain ⟨-, rfl⟩ := sized_eq_ok.mp htotal
  obtain ⟨hwidth, h⟩ := change_guard_eq_ok.mp h
  obtain ⟨_, _, hlift, h⟩ := change_bind_eq_ok.mp h
  obtain ⟨hcheck, rfl⟩ := forM_checkOffset_eq_ok.mp hlift
  obtain ⟨parts, _, hlift, h⟩ := change_bind_eq_ok.mp h
  obtain ⟨hparts, rfl⟩ := change_lift_checked_eq_ok.mp hlift
  rw [commit_run, EStateM.Result.ok.injEq, chunks_eq_ok hparts] at h
  exact ⟨not_not.mp hwidth, hcheck, h.2.symm⟩

theorem splitEntries_fst (width : Nat) (offsets : List Nat) (value : BitRange) :
    (splitEntries width offsets value).map Prod.fst = offsets :=
  List.map_fst_zip (by simp)

theorem mem_splitEntries {width : Nat} {offset number : Nat} (h : offsets[number]? = some offset) :
    (offset, splitTag width value (piece value width number)) ∈ splitEntries width offsets value := by
  obtain ⟨hlt, -⟩ := List.getElem?_eq_some_iff.mp h
  refine List.mem_iff_getElem?.mpr ⟨number, List.getElem?_zip_eq_some.mpr ⟨h, ?_⟩⟩
  rw [List.getElem?_map, List.getElem?_map, List.getElem?_range hlt]
  rfl

/-- Each part of a split value is one of its pieces. -/
theorem range_of_mem_splitEntries {width : Nat} {entry : Nat × Element}
    (h : entry ∈ splitEntries width offsets value) :
    ∃ number < offsets.length, entry.2.range = piece value width number := by
  obtain ⟨part, hpart, htag⟩ := List.mem_map.mp (List.of_mem_zip h).2
  obtain ⟨number, hnumber, rfl⟩ := List.mem_map.mp hpart
  exact ⟨number, List.mem_range.mp hnumber, by rw [← htag, range_splitTag]⟩

/-- Writing a value to each of some offsets. -/
theorem eq_of_broadcast (hwidth : value.width = store.elemType.width)
    (h : ArrayView.broadcast offsets value store = .ok .unit store') :
    (∀ offset ∈ offsets, offset < store.size ∧ store'.element offset = .ok (some (.whole value))) ∧
      ∀ place ∉ offsets, store'.element place = store.element place := by
  induction offsets generalizing store with
  | nil =>
    cases h
    exact ⟨fun _ hmem => (nomatch hmem), fun _ _ => rfl⟩
  | cons offset offsets ih =>
    change (set offset value >>= fun _ => ArrayView.broadcast offsets value) store = _ at h
    obtain ⟨_, middle, hset, hrest⟩ := change_bind_eq_ok.mp h
    obtain ⟨hlt, rfl⟩ := (set_eq_ok hwidth).mp hset
    have hwidth' : value.width = (store.put offset (.whole value)).counted.elemType.width := hwidth
    obtain ⟨hin, hout⟩ := ih hwidth' hrest
    refine ⟨List.forall_mem_cons.mpr ⟨⟨hlt, ?_⟩, fun later hmem => ?_⟩, fun place hplace => ?_⟩
    · -- a later write to the same offset writes the same value
      by_cases hmem : offset ∈ offsets
      · exact (hin offset hmem).2
      · rw [hout offset hmem, element_counted, element_put_self hlt]
    · obtain ⟨hlt', helement⟩ := hin later hmem
      rw [counted_size, put_size] at hlt'
      exact ⟨hlt', helement⟩
    · rw [List.mem_cons, not_or] at hplace
      rw [hout place hplace.2, element_counted, element_put_of_ne fun heq => hplace.1 heq.symm]

end Writes

/-! ### Elements stay within their sources -/

/-- Every element of the store has the width of its type and lies within its source. -/
structure Sound (builder : Builder) (store : Store) : Prop where
  /-- Memory can address the slots. -/
  addressable : store.size * 24 < signedBound
  /-- Written elements. -/
  slots : ∀ {offset : Nat} {element : Element}, store.slots[offset]? = some (some element) →
    element.range.width = store.elemType.width ∧ builder.InRange element.range
  /-- The import splits into just as many elements as there are slots. -/
  origin : ∀ {origin : BitRange}, store.origin = some origin →
    builder.InRange origin ∧ origin.width = store.size * store.elemType.width

/-- What a write may do to a store. -/
structure Extends (builder : Builder) (store store' : Store) : Prop where
  /-- The slots stay. -/
  size : store'.size = store.size
  /-- The type of the elements stays. -/
  elemType : store'.elemType = store.elemType
  /-- Elements still lie within their sources. -/
  sound : store.Sound builder → store'.Sound builder

variable {builder builder' : Builder} {store store' store'' : Store} {value : BitRange}

theorem Extends.refl (builder : Builder) (store : Store) : Extends builder store store :=
  ⟨rfl, rfl, id⟩

theorem Extends.trans (h : Extends builder store store') (h' : Extends builder store' store'') :
    Extends builder store store'' :=
  ⟨h'.size.trans h.size, h'.elemType.trans h.elemType, fun hsound => h'.sound (h.sound hsound)⟩

theorem Sound.mono (h : store.Sound builder) (hgrows : builder.Grows builder') :
    store.Sound builder' where
  addressable := h.addressable
  slots hslot := ⟨(h.slots hslot).1, (h.slots hslot).2.mono hgrows⟩
  origin horigin := ⟨(h.origin horigin).1.mono hgrows, (h.origin horigin).2⟩

/-- The parts of an import are its pieces, and all of them lie within it. -/
theorem Sound.importedElement (hbuilder : builder.Sound) (h : store.Sound builder)
    {origin : BitRange} (horigin : store.origin = some origin) {offset : Nat}
    (hlt : offset < store.size) :
    store.importedElement offset = .ok (some (.whole (piece origin store.elemType.width offset))) ∧
      builder.InRange (piece origin store.elemType.width offset) := by
  obtain ⟨⟨bits, hbits⟩, hwidth⟩ := h.origin horigin
  have hword := hbits.source_lt hbuilder
  -- the last piece ends where the import ends
  have hend : offset * store.elemType.width + store.elemType.width ≤ origin.width := by
    rw [hwidth, ← Nat.succ_mul]
    exact Nat.mul_le_mul_right _ hlt
  obtain ⟨hsub, hbacks⟩ := Builder.backs_sub hbuilder hbits hend
  refine ⟨?_, _, hbacks⟩
  rw [Store.importedElement, horigin]
  simp only [bind_eq_ok, word_eq_ok]
  exact ⟨_, ⟨by omega, rfl⟩, _, hsub, rfl⟩

/-- **Reading a slot** cannot fail, and what is there has the width of the type and lies within its
source. -/
theorem Sound.element (hbuilder : builder.Sound) (h : store.Sound builder) (offset : Nat) :
    ∃ found, store.element offset = .ok found ∧ ∀ element, found = some element →
      element.range.width = store.elemType.width ∧ builder.InRange element.range := by
  unfold Store.element
  cases hslot : store.slots[offset]? with
  | none => exact ⟨none, rfl, fun _ heq => (nomatch heq)⟩
  | some slot =>
    cases slot with
    | some element =>
      refine ⟨some element, rfl, fun _ heq => ?_⟩
      cases heq
      exact h.slots hslot
    | none =>
      -- a slot that was never written is answered by the import
      cases horigin : store.origin with
      | none =>
        refine ⟨none, ?_, fun _ heq => (nomatch heq)⟩
        change store.importedElement offset = _
        rw [Store.importedElement, horigin]
      | some origin =>
        have hlt : offset < store.size := (Array.getElem?_eq_some_iff.mp hslot).1
        obtain ⟨himported, hrange⟩ := h.importedElement hbuilder horigin hlt
        refine ⟨_, himported, fun _ heq => ?_⟩
        cases heq
        exact ⟨rfl, hrange⟩

/-- Every element of a slot after some entries were written was there before or is one of them. -/
private theorem slots_putAll {entries : List (Nat × Element)} {place : Nat} {element : Element}
    (h : (store.putAll entries).slots[place]? = some (some element)) :
    store.slots[place]? = some (some element) ∨ (place, element) ∈ entries := by
  induction entries generalizing store with
  | nil => exact .inl h
  | cons entry entries ih =>
    rw [putAll_cons] at h
    rcases ih h with hslot | hmem
    · -- it is what the first entry left in the slot
      rw [put_slots] at hslot
      split at hslot
      · next hplace =>
        cases hslot
        rw [← hplace.1]
        exact .inr List.mem_cons_self
      · exact .inl hslot
    · exact .inr (List.mem_cons_of_mem _ hmem)

/-- Writing elements that lie within their sources. -/
theorem extends_putAll {entries : List (Nat × Element)}
    (h : ∀ entry ∈ entries, entry.2.range.width = store.elemType.width ∧
      builder.InRange entry.2.range) : Extends builder store (store.putAll entries).counted where
  size := putAll_size
  elemType := putAll_elemType
  sound hsound := by
    refine ⟨?_, fun {place element} hslot => ?_, fun {origin} horigin => ?_⟩
    · rw [counted_size, putAll_size]
      exact hsound.addressable
    · rw [counted_elemType, putAll_elemType]
      rcases slots_putAll hslot with hold | hnew
      · exact hsound.slots hold
      · exact h _ hnew
    · rw [counted_size, counted_elemType, putAll_size, putAll_elemType]
      rw [show (store.putAll entries).counted.origin = store.origin from putAll_origin] at horigin
      exact hsound.origin horigin

/-- A piece of a value has that part of its bits. -/
theorem backs_piece (hbuilder : builder.Sound) {bits : List BitOrigin} (hvalue : builder.Backs value bits)
    {width number : Nat} (hend : number * width + width ≤ value.width) :
    builder.Backs (piece value width number) ((bits.drop (number * width)).take width) :=
  (Builder.backs_sub hbuilder hvalue hend).2

/-- A piece of a value lies within the source of the value. -/
theorem inRange_piece (hbuilder : builder.Sound) (hvalue : builder.InRange value) {width number : Nat}
    (hend : number * width + width ≤ value.width) : builder.InRange (piece value width number) := by
  obtain ⟨bits, hbits⟩ := hvalue
  exact ⟨_, backs_piece hbuilder hbits hend⟩

private theorem forM_checkOffset_final (offsets : List Nat) (store state : Store) :
    finalState ((offsets.forM fun offset =>
      (liftM (store.checkOffset offset) : Change Store ArrayError Unit)) state) = state := by
  induction offsets with
  | nil => rfl
  | cons offset offsets ih => exact finalState_lift_bind (P := (· = state)) rfl fun _ _ => ih

/-- Whatever becomes of a split write, elements stay within their sources. -/
theorem extends_setRange (hbuilder : builder.Sound) (hvalue : builder.InRange value)
    (offsets : List Nat) (store : Store) :
    Extends builder store (finalState (setRange offsets value store)) := by
  have hsame := Extends.refl builder store
  refine finalState_bind hsame fun _ _ hget => ?_
  obtain ⟨rfl, rfl⟩ := change_get_eq_ok.mp hget
  refine finalState_lift_checked_bind hsame fun total htotal => finalState_guard hsame fun hwidth => ?_
  refine finalState_bind (by rw [forM_checkOffset_final]; exact hsame) fun _ _ hcheck => ?_
  obtain ⟨-, rfl⟩ := forM_checkOffset_eq_ok.mp hcheck
  refine finalState_lift_checked_bind hsame fun parts hparts => ?_
  -- all checks have passed: the entries are the pieces of a value that is as wide as they are together
  rw [chunks_eq_ok hparts]
  obtain ⟨-, rfl⟩ := sized_eq_ok.mp htotal
  refine extends_putAll fun entry hentry => ?_
  obtain ⟨number, hnumber, hpiece⟩ := range_of_mem_splitEntries hentry
  rw [hpiece]
  refine ⟨rfl, inRange_piece hbuilder hvalue ?_⟩
  rw [not_not.mp hwidth, ← Nat.succ_mul]
  exact Nat.mul_le_mul_right _ hnumber

/-- Whatever becomes of a write, elements stay within their sources. -/
theorem extends_set (hbuilder : builder.Sound) (hvalue : builder.InRange value) (offset : Nat)
    (store : Store) : Extends builder store (finalState (set offset value store)) := by
  have hsame := Extends.refl builder store
  refine finalState_bind hsame fun _ _ hget => ?_
  obtain ⟨rfl, rfl⟩ := change_get_eq_ok.mp hget
  cases hclassify : WriteMode.classify value.width store.elemType with
  | mismatch => exact hsame
  | whole =>
    refine finalState_lift_bind hsame fun _ _ => extends_putAll fun entry hentry => ?_
    rw [List.mem_singleton.mp hentry]
    exact ⟨classify_eq_whole.mp hclassify, hvalue⟩
  | bitwise =>
    obtain ⟨hone, -⟩ := width_of_classify_bitwise hclassify
    refine finalState_lift_checked_bind hsame fun stop _ => finalState_guard hsame fun _ => ?_
    refine finalState_lift_checked_bind hsame fun bits hbits => extends_putAll fun entry hentry => ?_
    rw [chunks_eq_ok hbits] at hentry
    obtain ⟨bit, hbit, hentry⟩ := List.mem_map.mp (List.of_mem_zip hentry).2
    obtain ⟨number, hnumber, rfl⟩ := List.mem_map.mp hbit
    rw [← hentry]
    refine ⟨hone.symm, inRange_piece hbuilder hvalue ?_⟩
    have := List.mem_range.mp hnumber
    omega

/-- Whatever becomes of writing a value to each of some offsets, elements stay within their sources. -/
theorem extends_broadcast (hbuilder : builder.Sound) (hvalue : builder.InRange value)
    (offsets : List Nat) (store : Store) :
    Extends builder store (finalState (ArrayView.broadcast offsets value store)) := by
  induction offsets generalizing store with
  | nil => exact .refl _ _
  | cons offset offsets ih =>
    have hset := extends_set hbuilder hvalue offset store
    refine finalState_bind hset fun u middle hrun => ?_
    rw [show set offset value store = .ok u middle from hrun] at hset
    exact hset.trans (ih middle)

/-! ### Writes that succeed -/

section Succeed

variable {offsets : List Nat}

/-- A value that lies within its source has as many chunks as it is wide enough for. -/
theorem chunks_eq (hword : value.low + value.width < wordBound) {width count : Nat}
    (hend : count * width ≤ value.width) :
    chunks value width count = .ok ((List.range count).map (piece value width)) := by
  rw [chunks, mapM_eq_ok, List.forall₂_map_right_iff, List.forall₂_same]
  intro number hnumber
  -- the chunk ends where the next one begins
  have hpart : number * width + width ≤ value.width := by
    rw [← Nat.succ_mul]
    exact (Nat.mul_le_mul_right _ (List.mem_range.mp hnumber)).trans hend
  have hlow : word (number * width) = .ok (number * width) := word_eq_ok.mpr ⟨by omega, rfl⟩
  rw [bind_eq_ok]
  exact ⟨_, hlow, BitRange.sub_eq hpart hword⟩

/-- A value that is as wide as some slots together is split over them. -/
theorem setRange_eq (hword : value.low + value.width < wordBound) (hlt : ∀ offset ∈ offsets, offset < store.size)
    (hwidth : value.width = offsets.length * store.elemType.width) :
    setRange offsets value store
      = .ok .unit (store.putAll (splitEntries store.elemType.width offsets value)).counted := by
  have htotal : sized (offsets.length * store.elemType.width) = .ok (offsets.length * store.elemType.width) := by
    have := wordBound_lt_sizeBound
    exact sized_eq_ok.mpr ⟨by omega, rfl⟩
  have hcheck : (offsets.forM fun offset =>
      (liftM (store.checkOffset offset) : Change Store ArrayError Unit)) store = .ok .unit store :=
    forM_checkOffset_eq_ok.mpr ⟨hlt, rfl⟩
  rw [setRange, change_get_bind]
  -- the checks pass one after the other, and then all chunks are written
  refine (change_lift_checked_run htotal).trans ?_
  rw [if_neg (not_not.mpr hwidth)]
  refine (change_run hcheck).trans ?_
  exact change_lift_checked_run (chunks_eq hword hwidth.ge)

theorem exists_setRange (hbuilder : builder.Sound) (hvalue : builder.InRange value)
    (hlt : ∀ offset ∈ offsets, offset < store.size)
    (hwidth : value.width = offsets.length * store.elemType.width) :
    ∃ store', setRange offsets value store = .ok .unit store' := by
  obtain ⟨bits, hbits⟩ := hvalue
  exact ⟨_, setRange_eq (hbits.source_lt hbuilder) hlt hwidth⟩

/-- A value as wide as an element can be written to each of some slots. -/
theorem exists_broadcast (hwidth : value.width = store.elemType.width)
    (hlt : ∀ offset ∈ offsets, offset < store.size) :
    ∃ store', ArrayView.broadcast offsets value store = .ok .unit store' := by
  induction offsets generalizing store with
  | nil => exact ⟨store, rfl⟩
  | cons offset offsets ih =>
    obtain ⟨hhead, htail⟩ := List.forall_mem_cons.mp hlt
    have hset := (set_eq_ok hwidth).mpr ⟨hhead, rfl⟩
    -- a write leaves the number and the type of the slots as they are
    have htail' : ∀ later ∈ offsets, later < (store.put offset (.whole value)).counted.size := by
      intro later hlater
      rw [counted_size, put_size]
      exact htail later hlater
    have hwidth' : value.width = (store.put offset (.whole value)).counted.elemType.width := hwidth
    obtain ⟨store', hrest⟩ := ih hwidth' htail'
    exact ⟨store', change_bind_eq_ok.mpr ⟨.unit, _, hset, hrest⟩⟩

end Succeed

/-! ### New stores -/

theorem empty_slots (elemType : ElemType) {size offset : Nat} {element : Element} :
    (empty size elemType).slots[offset]? ≠ some (some element) := by
  change (Array.replicate size none)[offset]? ≠ _
  rw [Array.getElem?_replicate]
  split <;> simp

@[simp] theorem size_empty (size : Nat) (elemType : ElemType) : (empty size elemType).size = size :=
  Array.size_replicate

/-- A store of empty slots. -/
theorem sound_create {size : Nat} {elemType : ElemType} (h : create size elemType = .ok store) :
    store = empty size elemType ∧ store.Sound builder := by
  simp only [create, bind_eq_ok, addressable_eq_ok, pure_eq_ok] at h
  obtain ⟨_, ⟨hsize, rfl⟩, rfl⟩ := h
  refine ⟨rfl, ?_, fun hslot => absurd hslot (empty_slots elemType), fun horigin => ?_⟩
  · rw [size_empty]
    exact hsize
  · cases horigin

/-- A store that is imported from a value. -/
theorem sound_imported {origin : BitRange} {elemType : ElemType} (hbuilder : builder.Sound)
    (horigin : builder.InRange origin) (h : imported origin elemType = .ok store) :
    store = { empty (origin.width / elemType.width) elemType with origin := some origin } ∧
      store.Sound builder := by
  rw [imported] at h
  split at h
  · next hdivides =>
    cases h
    refine ⟨rfl, ?_, fun hslot => absurd hslot (empty_slots elemType), fun heq => ?_⟩
    · -- there are no more slots than bits, and no more bits than a machine word counts
      obtain ⟨bits, hbits⟩ := horigin
      have hword := hbits.source_lt hbuilder
      have hcount : origin.width / elemType.width ≤ origin.width := Nat.div_le_self _ _
      have hbound : wordBound * 24 < signedBound := by decide
      change (empty (origin.width / elemType.width) elemType).size * 24 < signedBound
      rw [size_empty]
      omega
    · cases heq
      refine ⟨horigin, ?_⟩
      change origin.width = (empty (origin.width / elemType.width) elemType).size * elemType.width
      rw [size_empty, Nat.div_mul_cancel (Nat.dvd_of_mod_eq_zero hdivides)]
  · cases h

end Store

end NetArray
