import Mathlib
import NetArray.Proofs.Array.WritePaths

/-!
# How a write to a store comes out

A store is written to at an offset or at a list of offsets, and the offsets come from anywhere: they may lie past the
end, and a list may name one of them twice. `Store.SetOutcome` and `Store.SetRangeOutcome` are the two tables of what
may happen. They need nothing of the store, which may be an import whose slots were never written.

* A write that fails leaves the store as it was: all checks come before the first slot is written.
* A write that succeeds has done what `Store.Wrote` says. Slots are written in the order of the list, so what a slot
  holds in the end is the chunk of the *last* number under which the list has it (`element_putAll_last`).

In both tables one line is a fault. Before the end of the value is compared with the end of the store, it is computed,
and it need not be a machine number. Hence an offset near the upper end of the machine numbers is not refused where the
value is to fill single bits, though it is where the value is as wide as an element.
-/

namespace NetArray

namespace Store

variable {store store' : Store} {offset place : Nat} {offsets : List Nat} {entries : List (Nat × Element)}
  {value : BitRange}

/-! ### What a write has done -/

/-- **The last entry counts.** A slot holds what the last entry for it says. -/
theorem element_putAll_last (hlt : ∀ entry ∈ entries, entry.1 < store.size) (hplace : place ∈ entries.map Prod.fst) :
    ∃ number element, entries[number]? = some (place, element) ∧
      place ∉ (entries.drop (number + 1)).map Prod.fst ∧
      (store.putAll entries).element place = .ok (some element) := by
  induction entries generalizing store with
  | nil => cases hplace
  | cons entry entries ih =>
    obtain ⟨hhead, htail⟩ := List.forall_mem_cons.mp hlt
    rw [putAll_cons]
    by_cases hlater : place ∈ entries.map Prod.fst
    · -- whatever this entry writes is written over
      have htail' : ∀ later ∈ entries, later.1 < (store.put entry.1 entry.2).size := by
        intro later hmem
        rw [put_size]
        exact htail later hmem
      obtain ⟨number, element, hentry, hlast, helement⟩ := ih htail' hlater
      exact ⟨number + 1, element, hentry, hlast, helement⟩
    · obtain rfl : place = entry.1 := by
        rw [List.map_cons] at hplace
        exact (List.mem_cons.mp hplace).resolve_right hlater
      refine ⟨0, entry.2, rfl, hlater, ?_⟩
      rw [element_putAll_of_notMem hlater, element_put_self hhead]

/-- Writing entries leaves all other slots as they were. -/
theorem slots_putAll_of_notMem (hplace : place ∉ entries.map Prod.fst) :
    (store.putAll entries).slots[place]? = store.slots[place]? := by
  induction entries generalizing store with
  | nil => rfl
  | cons entry entries ih =>
    rw [List.map_cons, List.mem_cons, not_or] at hplace
    rw [putAll_cons, ih hplace.2, put_slots, if_neg fun h => hplace.1 h.1.symm]

/-- One write of some chunks to as many slots, and what it has left. -/
structure Wrote (store : Store) (offsets : List Nat) (chunk : Nat → Element) (after : Store) : Prop where
  revision : after.revision = store.revision + 1
  size : after.size = store.size
  elemType : after.elemType = store.elemType
  origin : after.origin = store.origin
  /-- A slot reads back the chunk of the last number under which the list has it. -/
  reads : ∀ offset ∈ offsets, ∃ number, offsets[number]? = some offset ∧ offset ∉ offsets.drop (number + 1) ∧
    after.element offset = .ok (some (chunk number))
  /-- All other slots are what they were, and read what they read before. -/
  others : ∀ place ∉ offsets, after.slots[place]? = store.slots[place]? ∧
    after.element place = store.element place

/-- Some chunks, each with the offset where it belongs. -/
def dealt (offsets : List Nat) (chunk : Nat → Element) : List (Nat × Element) :=
  offsets.zip ((List.range offsets.length).map chunk)

theorem dealt_fst (offsets : List Nat) (chunk : Nat → Element) : (dealt offsets chunk).map Prod.fst = offsets :=
  List.map_fst_zip (by simp)

theorem wrote_putAll (chunk : Nat → Element) (hlt : ∀ offset ∈ offsets, offset < store.size) :
    store.Wrote offsets chunk (store.putAll (dealt offsets chunk)).counted where
  revision := by rw [counted_revision, putAll_revision]
  size := by rw [counted_size, putAll_size]
  elemType := by rw [counted_elemType, putAll_elemType]
  origin := putAll_origin
  reads offset hoffset := by
    have hentries : ∀ entry ∈ dealt offsets chunk, entry.1 < store.size :=
      fun entry hentry => hlt _ (List.of_mem_zip hentry).1
    obtain ⟨number, element, hentry, hlast, helement⟩ :=
      element_putAll_last hentries ((dealt_fst offsets chunk).symm ▸ hoffset)
    rw [List.map_drop, dealt_fst] at hlast
    -- the entry of this number is the chunk of this number
    obtain ⟨hnumber, hchunk⟩ := List.getElem?_zip_eq_some.mp hentry
    obtain ⟨hrange, -⟩ := List.getElem?_eq_some_iff.mp hnumber
    rw [List.getElem?_map, List.getElem?_range hrange] at hchunk
    cases hchunk
    exact ⟨number, hnumber, hlast, helement⟩
  others place hplace := by
    have hplace' : place ∉ (dealt offsets chunk).map Prod.fst := (dealt_fst offsets chunk).symm ▸ hplace
    exact ⟨slots_putAll_of_notMem hplace', element_putAll_of_notMem hplace'⟩

/-! ### Tables -/

/-- How a write at an offset comes out. -/
inductive SetOutcome (store : Store) (offset : Nat) (value : BitRange) :
    EStateM.Result (Failure ArrayError) Store Unit → Prop where
  /-- The value is as wide as an element. -/
  | whole {after : Store} (hwidth : value.width = store.elemType.width) (hlt : offset < store.size)
    (hwrote : store.Wrote [offset] (fun _ => .whole value) after) :
    SetOutcome store offset value (.ok () after)
  | outside (hwidth : value.width = store.elemType.width) (hle : store.size ≤ offset) :
    SetOutcome store offset value (.error (.refused (.index (.outOfStore offset store.size))) store)
  /-- The value fills single bits, as many as it has. -/
  | bits {after : Store} (hbits : store.elemType.width = 1) (hwide : 1 < value.width)
    (hsized : offset + value.width < sizeBound) (hend : offset + value.width ≤ store.size)
    (hwrote : store.Wrote (List.range' offset value.width) (fun number => .bit (piece value 1 number)) after) :
    SetOutcome store offset value (.ok () after)
  /-- There are not so many bits from there on. -/
  | pastEnd (hbits : store.elemType.width = 1) (hwide : 1 < value.width)
    (hsized : offset + value.width < sizeBound) (hend : store.size < offset + value.width) :
    SetOutcome store offset value
      (.error (.refused (.index (.bitsPastEnd value.width offset store.size))) store)
  /-- The end of the bits is no machine number. -/
  | overflow (hbits : store.elemType.width = 1) (hwide : 1 < value.width)
    (hlarge : sizeBound ≤ offset + value.width) :
    SetOutcome store offset value (.error (.fault .overflow) store)
  /-- The value does not suit the elements. -/
  | mismatch (hwidth : value.width ≠ store.elemType.width)
    (hmode : ¬(store.elemType.width = 1 ∧ 1 < value.width)) :
    SetOutcome store offset value
      (.error (.refused (.width (.store value.width 1 store.elemType.width))) store)

/-- How a write to a list of offsets comes out. -/
inductive SetRangeOutcome (store : Store) (offsets : List Nat) (value : BitRange) :
    EStateM.Result (Failure ArrayError) Store Unit → Prop where
  /-- The value is as wide as the slots together. -/
  | split {after : Store} (hwidth : value.width = offsets.length * store.elemType.width)
    (hlt : ∀ offset ∈ offsets, offset < store.size)
    (hwrote : store.Wrote offsets
      (fun number => splitTag store.elemType.width value (piece value store.elemType.width number)) after) :
    SetRangeOutcome store offsets value (.ok () after)
  /-- The first offset that has no slot is reported. -/
  | outside {front back : List Nat} {offset : Nat} (hwidth : value.width = offsets.length * store.elemType.width)
    (hoffsets : offsets = front ++ offset :: back) (hfront : ∀ earlier ∈ front, earlier < store.size)
    (hle : store.size ≤ offset) :
    SetRangeOutcome store offsets value (.error (.refused (.index (.outOfStore offset store.size))) store)
  | mismatch (hwidth : value.width ≠ offsets.length * store.elemType.width)
    (hsized : offsets.length * store.elemType.width < sizeBound) :
    SetRangeOutcome store offsets value
      (.error (.refused (.width (.store value.width offsets.length store.elemType.width))) store)
  /-- The width of the slots together is no machine number. -/
  | overflow (hlarge : sizeBound ≤ offsets.length * store.elemType.width) :
    SetRangeOutcome store offsets value (.error (.fault .overflow) store)

theorem checkOffset_refused (hle : store.size ≤ offset) :
    store.checkOffset offset = .error (.refused (.index (.outOfStore offset store.size))) :=
  if_neg (Nat.not_lt.mpr hle)

/-- Checking offsets stops at the first one that has no slot. -/
theorem forM_checkOffset_refused {front back : List Nat} (hfront : ∀ earlier ∈ front, earlier < store.size)
    (hle : store.size ≤ offset) (state : Store) :
    ((front ++ offset :: back).forM fun offset =>
      (liftM (store.checkOffset offset) : Change Store ArrayError Unit)) state
        = .error (.refused (.index (.outOfStore offset store.size))) state := by
  induction front with
  | nil =>
    change ((liftM (store.checkOffset offset) : Change Store ArrayError Unit) >>= fun _ => _) state = _
    rw [checkOffset_refused hle]
    rfl
  | cons earlier front ih =>
    obtain ⟨hhead, htail⟩ := List.forall_mem_cons.mp hfront
    have hcheck : store.checkOffset earlier = .ok () := checkOffset_eq_ok.mpr hhead
    exact (change_lift_run hcheck).trans (ih htail)

/-- **At an offset** the widths, the offset and the size of the store decide. -/
theorem set_outcome (hword : value.low + value.width < wordBound) (offset : Nat) :
    store.SetOutcome offset value (set offset value store) := by
  cases hmode : WriteMode.classify value.width store.elemType with
  | whole =>
    have hwidth : value.width = store.elemType.width := classify_eq_whole.mp hmode
    by_cases hlt : offset < store.size
    · rw [(set_eq_ok hwidth).mpr ⟨hlt, rfl⟩]
      exact .whole hwidth hlt (wrote_putAll _ (by simpa using hlt))
    · have hrun : set offset value store
          = .error (.refused (.index (.outOfStore offset store.size))) store := by
        rw [set, change_get_bind, hmode]
        change ((liftM (store.checkOffset offset) : Change Store ArrayError Unit) >>= fun _ => _) store = _
        rw [checkOffset_refused (Nat.not_lt.mp hlt)]
        rfl
      rw [hrun]
      exact .outside hwidth (Nat.not_lt.mp hlt)
  | bitwise =>
    obtain ⟨hbits, hwide⟩ := width_of_classify_bitwise hmode
    by_cases hsized : offset + value.width < sizeBound
    · by_cases hend : offset + value.width ≤ store.size
      · have hrun : set offset value store = .ok () (store.putAll (dealt (List.range' offset value.width)
            fun number => .bit (piece value 1 number))).counted := by
          rw [set_eq_fillBits hbits hwide hsized hend, fillBits]
          refine (change_lift_checked_run (chunks_eq hword (by omega))).trans ?_
          rw [commit_run, dealt, List.length_range', List.map_map]
          rfl
        have hlt : ∀ place ∈ List.range' offset value.width, place < store.size :=
          fun place hplace => (List.mem_range'_1.mp hplace).2.trans_le hend
        rw [hrun]
        exact .bits hbits hwide hsized hend (wrote_putAll _ hlt)
      · rw [set_pastEnd hbits hwide hsized (Nat.not_le.mp hend)]
        exact .pastEnd hbits hwide hsized (Nat.not_le.mp hend)
    · rw [set_overflow hbits hwide hsized]
      exact .overflow hbits hwide (Nat.not_lt.mp hsized)
  | mismatch =>
    obtain ⟨hwidth, hmode'⟩ := classify_eq_mismatch.mp hmode
    rw [set_mismatch hmode]
    exact .mismatch hwidth hmode'

/-- Offsets all have a slot, or there is a first one that has none. -/
theorem slots_cases (store : Store) (offsets : List Nat) : (∀ offset ∈ offsets, offset < store.size) ∨
    ∃ front offset back, offsets = front ++ offset :: back ∧ (∀ earlier ∈ front, earlier < store.size) ∧
      store.size ≤ offset := by
  induction offsets with
  | nil => exact .inl fun _ hmem => (nomatch hmem)
  | cons offset offsets ih =>
    by_cases hlt : offset < store.size
    · rcases ih with hall | ⟨front, outside, back, rfl, hfront, hle⟩
      · exact .inl (List.forall_mem_cons.mpr ⟨hlt, hall⟩)
      · exact .inr ⟨offset :: front, outside, back, rfl, List.forall_mem_cons.mpr ⟨hlt, hfront⟩, hle⟩
    · exact .inr ⟨[], offset, offsets, rfl, fun _ hmem => (nomatch hmem), Nat.not_lt.mp hlt⟩

/-- **To a list of offsets** the widths, the offsets and the size of the store decide. -/
theorem setRange_outcome (hword : value.low + value.width < wordBound) (offsets : List Nat) :
    store.SetRangeOutcome offsets value (setRange offsets value store) := by
  by_cases hsized : offsets.length * store.elemType.width < sizeBound
  · have htotal : sized (offsets.length * store.elemType.width) = .ok (offsets.length * store.elemType.width) :=
      sized_eq_ok.mpr ⟨hsized, rfl⟩
    have hset : setRange offsets value store = _ := change_get_bind.trans (change_lift_checked_run htotal)
    by_cases hwidth : value.width = offsets.length * store.elemType.width
    · rcases slots_cases store offsets with hlt | ⟨front, offset, back, rfl, hfront, hle⟩
      · have hentries : splitEntries store.elemType.width offsets value = dealt offsets fun number =>
            splitTag store.elemType.width value (piece value store.elemType.width number) := by
          rw [splitEntries, List.map_map]
          rfl
        rw [setRange_eq hword hlt hwidth, hentries]
        exact .split hwidth hlt (wrote_putAll _ hlt)
      · have hrun : setRange (front ++ offset :: back) value store
            = .error (.refused (.index (.outOfStore offset store.size))) store := by
          rw [hset, if_neg (not_not.mpr hwidth)]
          exact change_run_error (forM_checkOffset_refused hfront hle store)
        rw [hrun]
        exact .outside hwidth rfl hfront hle
    · rw [hset, if_pos hwidth]
      exact .mismatch hwidth hsized
  · have hrun : setRange offsets value store = .error (.fault .overflow) store := by
      rw [setRange, change_get_bind]
      change ((liftM (sized (offsets.length * store.elemType.width)) : Change Store ArrayError Nat) >>= fun _ => _)
        store = _
      rw [sized, if_neg hsized]
      rfl
    rw [hrun]
    exact .overflow (Nat.not_lt.mp hsized)

/-! ### All of it -/

variable {result : EStateM.Result (Failure ArrayError) Store Unit}

/-- Which of the writes at an offset succeed, for a store whose slots can be counted. -/
theorem SetOutcome.answers_iff (h : store.SetOutcome offset value result) (hsize : store.size < sizeBound) :
    (∃ after, result = .ok () after) ↔ value.width = store.elemType.width ∧ offset < store.size ∨
      store.elemType.width = 1 ∧ 1 < value.width ∧ offset + value.width ≤ store.size := by
  constructor
  · rintro ⟨after, rfl⟩
    cases h with
    | whole hwidth hlt => exact .inl ⟨hwidth, hlt⟩
    | bits hbits hwide _ hend => exact .inr ⟨hbits, hwide, hend⟩
  · intro hconditions
    cases h with
    | whole => exact ⟨_, rfl⟩
    | bits => exact ⟨_, rfl⟩
    | outside hwidth hle => omega
    | pastEnd hbits hwide _ hend => omega
    | overflow hbits hwide hlarge => omega
    | mismatch hwidth hmode => omega

/-- Which of the writes to a list of offsets succeed. -/
theorem SetRangeOutcome.answers_iff (h : store.SetRangeOutcome offsets value result)
    (hword : value.width < wordBound) : (∃ after, result = .ok () after) ↔
      value.width = offsets.length * store.elemType.width ∧ ∀ offset ∈ offsets, offset < store.size := by
  constructor
  · rintro ⟨after, rfl⟩
    cases h with
    | split hwidth hlt => exact ⟨hwidth, hlt⟩
  · rintro ⟨hwidth, hlt⟩
    cases h with
    | split => exact ⟨_, rfl⟩
    | outside _ hoffsets _ hle =>
      have hmem := hlt _ (hoffsets ▸ List.mem_append_right _ List.mem_cons_self)
      omega
    | mismatch hne => exact absurd hwidth hne
    | overflow hlarge =>
      have := wordBound_lt_sizeBound
      omega

/-- **Writes to a store.** Take any store, and any value that lies within its source.

* A write at an offset and a write to a list of offsets come out as the tables say, which list every refusal and the
  one fault. Only a write that succeeds changes the store.
* A write at an offset succeeds just when the value is as wide as an element and there is a slot, or it is to fill
  single bits and ends within the store.
* A write to a list of offsets succeeds just when the value is as wide as the slots together and there are such slots.
-/
theorem writes_checked (store : Store) (value : BitRange) (hend : value.low + value.width ≤ value.source.width)
    (hword : value.source.width < wordBound) :
    (∀ offset, store.SetOutcome offset value (set offset value store)) ∧
    (∀ offsets, store.SetRangeOutcome offsets value (setRange offsets value store)) ∧
    (store.size < sizeBound → ∀ offset, (∃ after, set offset value store = .ok () after) ↔
      value.width = store.elemType.width ∧ offset < store.size ∨
        store.elemType.width = 1 ∧ 1 < value.width ∧ offset + value.width ≤ store.size) ∧
    ∀ offsets, (∃ after, setRange offsets value store = .ok () after) ↔
      value.width = offsets.length * store.elemType.width ∧ ∀ offset ∈ offsets, offset < store.size := by
  have hlt : value.low + value.width < wordBound := hend.trans_lt hword
  refine ⟨set_outcome hlt, setRange_outcome hlt, ?_, ?_⟩
  · intro hsize offset
    exact (set_outcome hlt offset).answers_iff hsize
  · intro offsets
    exact (setRange_outcome hlt offsets).answers_iff (by omega)

/-- Four elements of two bits that nobody has written: the input of the grid answers for them. -/
def quarters : Store :=
  { empty 4 Scene.gridRows.elemType with origin := some (.whole Scene.gridInput) }

/-- Three chunks for two slots: slot 1 reads the third of them, and slot 2 still reads the import. -/
theorem writes_checked_quarters : ∃ after, setRange [1, 3, 1] ⟨Scene.gridInput, 0, 6⟩ quarters = .ok () after ∧
    after.element 1 = .ok (some (.whole ⟨Scene.gridInput, 4, 2⟩)) ∧
    after.element 2 = .ok (some (.whole ⟨Scene.gridInput, 4, 2⟩)) ∧ after.revision = 1 := by
  obtain ⟨-, houtcome, -, hanswers⟩ := writes_checked quarters ⟨Scene.gridInput, 0, 6⟩ (by decide) (by decide)
  obtain ⟨after, hrun⟩ := (hanswers [1, 3, 1]).mpr (by decide)
  have hsplit := houtcome [1, 3, 1]
  rw [hrun] at hsplit
  cases hsplit with
  | split _ _ hwrote =>
    obtain ⟨number, hnumber, hlast, hreads⟩ := hwrote.reads 1 (by decide)
    obtain rfl : number = 2 := by
      match number, hnumber, hlast with
      | 0, _, hlast => exact absurd (by decide) hlast
      | 1, hnumber, _ => cases hnumber
      | 2, _, _ => rfl
      | _ + 3, hnumber, _ => cases hnumber
    refine ⟨after, hrun, hreads, ?_, hwrote.revision⟩
    rw [(hwrote.others 2 (by decide)).2]
    decide

/-- There is no place for two bits at the last of the machine numbers, least of all in a store of four. The store does
not get to say so, since the end of the two bits cannot be computed. -/
theorem set_overflow_lastOffset :
    18446744073709551615 < sizeBound ∧ (⟨Scene.gridInput, 0, 2⟩ : BitRange).width ≤ Scene.gridInput.width ∧
      (empty 4 .i1).size < 18446744073709551615 + 2 ∧
      set 18446744073709551615 ⟨Scene.gridInput, 0, 2⟩ (empty 4 .i1) = .error (.fault .overflow) (empty 4 .i1) := by
  decide +kernel

end Store

end NetArray
