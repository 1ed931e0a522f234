import Mathlib
import NetArray.Proofs.Netlist.GroundedSignals
import NetArray.Array.BitRange

/-!
# The bits of a range

A `BitRange` stands for some bits of a value that nobody has cut out yet. `Builder.Backs builder range bits`
says which: the source of the range carries bits, the range lies within them, and `bits` is that part.

Everything that arrays do with ranges on the way to a signal keeps the bits, and each step has a lemma here:

* `backs_sub` — a part of a range has that part of its bits;
* `coalesce_backs` — merging neighbours keeps the bits of a list of ranges together;
* `materialize_carries` and `mapM_materialize_carries` — a range that is made a value carries its bits.

Merging is where two representations of the same bits meet. Two ranges that continue one another are a single
longer range of the *same* source, since a signal has only one value (`Carries.eq_of_signal`).
-/

namespace NetArray

/-- A part of a range is a range of the same source, if a bit width can say where the range ends. -/
theorem BitRange.sub_eq {range : BitRange} {low width : Nat} (hpart : low + width ≤ range.width)
    (hword : range.low + range.width < wordBound) :
    range.sub low width = .ok ⟨range.source, range.low + low, width⟩ := by
  rw [BitRange.sub, if_pos ⟨by omega, hpart⟩, bind_eq_ok]
  exact ⟨_, word_eq_ok.mpr ⟨by omega, rfl⟩, rfl⟩

theorem BitRange.extend_eq_ok {range next longer : BitRange} : range.extend next = .ok longer ↔
    range.width + next.width < wordBound ∧
      longer = { range with width := range.width + next.width } := by
  simp only [BitRange.extend, bind_eq_ok, word_eq_ok, pure_eq_ok]
  constructor
  · rintro ⟨_, ⟨hword, rfl⟩, rfl⟩
    exact ⟨hword, rfl⟩
  · rintro ⟨hword, rfl⟩
    exact ⟨_, ⟨hword, rfl⟩, rfl⟩

/-- The next range begins right above this one, in the same signal. -/
structure BitRange.Adjoins (range next : BitRange) : Prop where
  signal : range.source.signal = next.source.signal
  low : range.low + range.width = next.low

instance (range next : BitRange) : Decidable (range.Adjoins next) :=
  decidable_of_iff (range.source.signal = next.source.signal ∧ range.low + range.width = next.low)
    ⟨fun h => ⟨h.1, h.2⟩, fun h => ⟨h.signal, h.low⟩⟩

theorem BitRange.isFollowedBy_eq {range next : BitRange} (hword : range.low + range.width < wordBound) :
    range.isFollowedBy next = .ok (decide (range.Adjoins next)) := by
  rw [BitRange.isFollowedBy]
  split
  · next hsignal =>
    rw [bind_eq_ok]
    refine ⟨_, word_eq_ok.mpr ⟨hword, rfl⟩, ?_⟩
    rw [pure_eq_ok, decide_eq_decide]
    exact ⟨fun hlow => ⟨hsignal, hlow⟩, fun h => h.low⟩
  · next hsignal =>
    rw [decide_eq_false fun h => hsignal h.signal]

/-- A range that is adjoined takes the next one in. -/
theorem BitRange.coalesceFrom_adjoins {range next : BitRange} {ranges : List BitRange}
    (hadjoins : range.Adjoins next) (hword : next.low + next.width < wordBound) :
    range.coalesceFrom (next :: ranges)
      = { range with width := range.width + next.width }.coalesceFrom ranges := by
  have hlow := hadjoins.low
  have hlonger : range.extend next = .ok { range with width := range.width + next.width } :=
    BitRange.extend_eq_ok.mpr ⟨by omega, rfl⟩
  rw [BitRange.coalesceFrom, isFollowedBy_eq (by omega), decide_eq_true hadjoins]
  change (range.extend next >>= fun longer => longer.coalesceFrom ranges) = _
  rw [hlonger]
  rfl

/-- A range that is not adjoined is complete. -/
theorem BitRange.coalesceFrom_not_adjoins {range next : BitRange} {ranges runs : List BitRange}
    (hends : ¬range.Adjoins next) (hword : range.low + range.width < wordBound)
    (hruns : next.coalesceFrom ranges = .ok runs) :
    range.coalesceFrom (next :: ranges) = .ok (range :: runs) := by
  rw [BitRange.coalesceFrom, isFollowedBy_eq hword, decide_eq_false hends]
  change (next.coalesceFrom ranges >>= fun rest => pure (range :: rest)) = _
  rw [hruns]
  rfl

/-- The origins of the bits of a range, the least significant first. -/
def Builder.rangeOrigins (builder : Builder) (range : BitRange) : Checked (List BitOrigin) := do
  cutOut (← builder.origins range.source) range.low range.width

namespace Builder

/-- The range lies within its source and has these bits. -/
structure Backs (builder : Builder) (range : BitRange) (bits : List BitOrigin) : Prop where
  /-- The bits of the source, and the part that they are. -/
  source : ∃ all, builder.Carries range.source all ∧ bits = (all.drop range.low).take range.width
  /-- The range ends within its source. -/
  within : range.low + range.width ≤ range.source.width

/-- The range has some bits. -/
def InRange (builder : Builder) (range : BitRange) : Prop :=
  ∃ bits, builder.Backs range bits

variable {builder builder' : Builder} {range : BitRange} {bits : List BitOrigin}

theorem Backs.mono (h : builder.Backs range bits) (hgrows : builder.Grows builder') :
    builder'.Backs range bits := by
  obtain ⟨all, hcarries, hbits⟩ := h.source
  exact ⟨⟨all, hcarries.mono hgrows, hbits⟩, h.within⟩

theorem InRange.mono (h : builder.InRange range) (hgrows : builder.Grows builder') :
    builder'.InRange range := by
  obtain ⟨bits, hbits⟩ := h
  exact ⟨bits, hbits.mono hgrows⟩

theorem Backs.length (h : builder.Backs range bits) : bits.length = range.width := by
  obtain ⟨all, hcarries, rfl⟩ := h.source
  have hwithin := h.within
  rw [List.length_take, List.length_drop, hcarries.length]
  omega

theorem Backs.source_lt (hsound : builder.Sound) (h : builder.Backs range bits) :
    range.low + range.width < wordBound := by
  obtain ⟨all, hcarries, -⟩ := h.source
  exact h.within.trans_lt (hcarries.width_lt hsound)

/-- A range has one list of bits only. -/
theorem Backs.det {bits' : List BitOrigin} (h : builder.Backs range bits)
    (h' : builder.Backs range bits') : bits = bits' := by
  obtain ⟨all, hcarries, rfl⟩ := h.source
  obtain ⟨all', hcarries', rfl⟩ := h'.source
  rw [hcarries.det hcarries']

/-- The resolver finds the bits of a range. -/
theorem Backs.origins (hsound : builder.Sound) (h : builder.Backs range bits) :
    builder.rangeOrigins range = .ok bits := by
  have hword := h.source_lt hsound
  obtain ⟨all, hcarries, rfl⟩ := h.source
  rw [rangeOrigins, hcarries.origins]
  exact Wiring.cutOut_eq_ok.mpr ⟨hword, by rw [hcarries.length]; exact h.within, rfl⟩

theorem backs_whole {value : Value} (h : builder.Carries value bits) :
    builder.Backs (.whole value) bits := by
  refine ⟨⟨bits, h, ?_⟩, ?_⟩
  · rw [BitRange.whole, List.drop_zero, ← h.length, List.take_length]
  · rw [BitRange.whole, Nat.zero_add]

/-! ### Parts -/

/-- A part of a value that carries bits. -/
theorem inRange_of_carries {value : Value} (h : ∃ bits, builder.Carries value bits) {low width : Nat}
    (hend : low + width ≤ value.width) : builder.InRange ⟨value, low, width⟩ := by
  obtain ⟨bits, hbits⟩ := h
  exact ⟨(bits.drop low).take width, ⟨bits, hbits, rfl⟩, hend⟩

/-- A part of a range has that part of its bits. -/
theorem backs_sub (hsound : builder.Sound) (h : builder.Backs range bits) {low width : Nat}
    (hpart : low + width ≤ range.width) :
    range.sub low width = .ok ⟨range.source, range.low + low, width⟩ ∧
      builder.Backs ⟨range.source, range.low + low, width⟩ ((bits.drop low).take width) := by
  have hword := h.source_lt hsound
  have hwithin := h.within
  refine ⟨BitRange.sub_eq hpart (by omega), ?_, ?_⟩
  · obtain ⟨all, hcarries, rfl⟩ := h.source
    refine ⟨all, hcarries, ?_⟩
    -- cutting twice is cutting once
    rw [List.drop_take, List.take_take, List.drop_drop, Nat.min_eq_left (by omega)]
  · change range.low + low + width ≤ range.source.width
    omega

/-! ### Merging -/

/-- Neighbouring ranges of one source are a longer range of it. -/
private theorem backs_extend {next : BitRange} {bits' : List BitOrigin}
    (h : builder.Backs range bits) (h' : builder.Backs next bits') (hadjoins : range.Adjoins next) :
    builder.Backs { range with width := range.width + next.width } (bits ++ bits') := by
  have hwithin := h'.within
  obtain ⟨all, hcarries, rfl⟩ := h.source
  obtain ⟨all', hcarries', rfl⟩ := h'.source
  -- one signal has one value, and that has one list of bits
  have hsource := hcarries.eq_of_signal hcarries' hadjoins.signal
  rw [← hsource] at hcarries' hwithin
  obtain rfl := hcarries.det hcarries'
  refine ⟨⟨all, hcarries, ?_⟩, ?_⟩
  · change _ = (all.drop range.low).take (range.width + next.width)
    rw [List.take_add, List.drop_drop, hadjoins.low]
  · change range.low + (range.width + next.width) ≤ range.source.width
    have hlow := hadjoins.low
    omega

/-- Merging into a run: whatever the run has grown to, its bits and those of the ranges that follow are
the bits that there were. -/
theorem coalesceFrom_backs (hsound : builder.Sound) {run : BitRange} {ranges : List BitRange}
    {pieces : List (List BitOrigin)} (hrun : builder.Backs run bits)
    (h : List.Forall₂ builder.Backs ranges pieces) :
    ∃ runs pieces', run.coalesceFrom ranges = .ok runs ∧ List.Forall₂ builder.Backs runs pieces' ∧
      pieces'.flatten = bits ++ pieces.flatten := by
  induction h generalizing run bits with
  | nil =>
    refine ⟨[run], [bits], rfl, .cons hrun .nil, ?_⟩
    rw [List.flatten_singleton, List.flatten_nil, List.append_nil]
  | @cons next piece ranges pieces hnext _ ih =>
    by_cases hadjoins : run.Adjoins next
    · -- the run goes on: it takes the next range in
      obtain ⟨runs, pieces', heq, hruns, hpieces⟩ := ih (backs_extend hrun hnext hadjoins)
      refine ⟨runs, pieces', ?_, hruns, by rw [hpieces, List.flatten_cons, List.append_assoc]⟩
      rw [BitRange.coalesceFrom_adjoins hadjoins (hnext.source_lt hsound), heq]
    · -- the run ends, and the next range begins one
      obtain ⟨runs, pieces', heq, hruns, hpieces⟩ := ih hnext
      refine ⟨run :: runs, bits :: pieces', ?_, .cons hrun hruns, ?_⟩
      · exact BitRange.coalesceFrom_not_adjoins hadjoins (hrun.source_lt hsound) heq
      · rw [List.flatten_cons, hpieces, List.flatten_cons]

/-- **Merging.** The merged ranges have the bits of the given ones, in the same order. -/
theorem coalesce_backs (hsound : builder.Sound) {ranges : List BitRange}
    {pieces : List (List BitOrigin)} (h : List.Forall₂ builder.Backs ranges pieces) :
    ∃ runs pieces', BitRange.coalesce ranges = .ok runs ∧
      List.Forall₂ builder.Backs runs pieces' ∧ pieces'.flatten = pieces.flatten := by
  cases h with
  | nil => exact ⟨[], [], rfl, .nil, rfl⟩
  | cons hrun hranges =>
    obtain ⟨runs, pieces', heq, hruns, hpieces⟩ := coalesceFrom_backs hsound hrun hranges
    exact ⟨runs, pieces', heq, hruns, hpieces⟩

theorem coalesceFrom_pos {run : BitRange} {ranges runs : List BitRange}
    (hpos : ∀ range ∈ run :: ranges, 0 < range.width) (h : run.coalesceFrom ranges = .ok runs) :
    ∀ range ∈ runs, 0 < range.width := by
  induction ranges generalizing run runs with
  | nil =>
    cases h
    exact hpos
  | cons next ranges ih =>
    obtain ⟨hrun, hranges⟩ := List.forall_mem_cons.mp hpos
    rw [BitRange.coalesceFrom, bind_eq_ok] at h
    obtain ⟨follows, -, h⟩ := h
    cases follows with
    | true =>
      -- a longer run is no shorter than the run
      obtain ⟨longer, hlonger, h⟩ := bind_eq_ok.mp h
      obtain ⟨-, rfl⟩ := BitRange.extend_eq_ok.mp hlonger
      refine ih (List.forall_mem_cons.mpr ⟨?_, (List.forall_mem_cons.mp hranges).2⟩) h
      exact Nat.add_pos_left hrun _
    | false =>
      obtain ⟨rest, hrest, h⟩ := bind_eq_ok.mp h
      obtain rfl := pure_eq_ok.mp h
      exact List.forall_mem_cons.mpr ⟨hrun, ih hranges hrest⟩

/-- Merging makes no empty range. -/
theorem coalesce_pos {ranges runs : List BitRange} (hpos : ∀ range ∈ ranges, 0 < range.width)
    (h : BitRange.coalesce ranges = .ok runs) : ∀ range ∈ runs, 0 < range.width := by
  cases ranges with
  | nil =>
    cases h
    exact hpos
  | cons run ranges => exact coalesceFrom_pos hpos h

/-! ### Making values -/

theorem keeps_materialize (hword : range.width < wordBound) : Keeps Grows range.materialize := by
  unfold BitRange.materialize
  split
  · exact .pure _
  · exact keeps_slice hword

/-- A range that is made a value carries its bits. The whole of a source is that source. -/
theorem materialize_carries (hsound : builder.Sound) (h : builder.Backs range bits)
    (hpos : 0 < range.width) :
    ∃ value builder', range.materialize builder = .ok value builder' ∧ builder.Grows builder' ∧
      builder'.Carries value bits := by
  have hword := h.source_lt hsound
  have hwithin := h.within
  obtain ⟨all, hcarries, hbits⟩ := h.source
  by_cases hcovers : range.coversSource = true
  · -- no cell is needed: all bits of the source are the bits of the range
    refine ⟨range.source, builder, by rw [BitRange.materialize, if_pos hcovers]; rfl, .refl _, ?_⟩
    rw [BitRange.coversSource, Bool.and_eq_true, decide_eq_true_iff, decide_eq_true_iff] at hcovers
    rw [hcovers.1, hcovers.2, List.drop_zero, ← hcarries.length, List.take_length] at hbits
    rwa [hbits]
  · obtain ⟨value, builder', hrun, hslice⟩ := carries_slice hsound hcarries hpos hwithin
    rw [← hbits] at hslice
    refine ⟨value, builder', ?_, (keeps_slice (by omega)).ok hrun, hslice⟩
    rw [BitRange.materialize, if_neg hcovers]
    exact hrun

/-- Ranges that are made values one after the other: the earlier values keep their bits while the later ones
are cut. -/
theorem mapM_materialize_carries (hsound : builder.Sound) {ranges : List BitRange}
    {pieces : List (List BitOrigin)} (h : List.Forall₂ builder.Backs ranges pieces)
    (hpos : ∀ range ∈ ranges, 0 < range.width) :
    ∃ values builder', ranges.mapM BitRange.materialize builder = .ok values builder' ∧
      builder.Grows builder' ∧ List.Forall₂ builder'.Carries values pieces := by
  induction ranges generalizing builder pieces with
  | nil =>
    rw [List.forall₂_nil_left_iff] at h
    exact ⟨[], builder, rfl, .refl _, by rw [h]; exact .nil⟩
  | cons range ranges ih =>
    obtain ⟨piece, pieces, hrange, hranges, rfl⟩ := List.forall₂_cons_left_iff.mp h
    -- the ranges that follow are ranges of the larger netlist too
    obtain ⟨value, middle, hrun, hgrows, hcarries⟩ :=
      materialize_carries hsound hrange (hpos range List.mem_cons_self)
    obtain ⟨values, builder', hrest, hgrows', hvalues⟩ := ih (hgrows.sound hsound)
      (hranges.imp fun _ _ hbacks => hbacks.mono hgrows)
      fun range hmem => hpos range (List.mem_cons_of_mem _ hmem)
    refine ⟨value :: values, builder', ?_, hgrows.trans hgrows', .cons (hcarries.mono hgrows') hvalues⟩
    rw [List.mapM_cons, change_bind_eq_ok]
    exact ⟨value, middle, hrun, change_bind_eq_ok.mpr ⟨values, builder', hrest, rfl⟩⟩

/-- Making a value of a range adds a slice at most, and that has bits. -/
theorem Grounded.materialize (h : builder.Grounded) (hsound : builder.Sound) (hbacks : builder.Backs range bits) :
    (finalState (range.materialize builder)).Grounded := by
  unfold BitRange.materialize
  split
  · exact h
  · obtain ⟨all, hcarries, -⟩ := hbacks.source
    exact h.slice hsound hcarries

theorem Grounded.mapM_materialize (h : builder.Grounded) (hsound : builder.Sound) {ranges : List BitRange}
    {pieces : List (List BitOrigin)} (hbacks : List.Forall₂ builder.Backs ranges pieces) :
    (finalState (ranges.mapM BitRange.materialize builder)).Grounded := by
  induction ranges generalizing builder pieces with
  | nil => exact h
  | cons range ranges ih =>
    obtain ⟨piece, pieces, hrange, hranges, rfl⟩ := List.forall₂_cons_left_iff.mp hbacks
    have hfirst := h.materialize hsound hrange
    rw [List.mapM_cons]
    refine finalState_bind hfirst fun value middle hrun => ?_
    rw [finalState_bind_pure]
    -- the ranges that follow are ranges of the larger netlist too
    have hword : range.width < wordBound := (Nat.le_add_left _ _).trans_lt (hrange.source_lt hsound)
    have hgrows := (keeps_materialize hword).ok hrun
    rw [hrun] at hfirst
    exact ih hfirst (hgrows.sound hsound) (hranges.imp fun _ _ hbacks => hbacks.mono hgrows)

end Builder

/-- Ranges of one width have that many bits each. -/
theorem length_flatten_pieces {builder : Builder} {ranges : List BitRange} {pieces : List (List BitOrigin)}
    {width : Nat} (h : List.Forall₂ builder.Backs ranges pieces)
    (hwidth : ∀ range ∈ ranges, range.width = width) :
    pieces.flatten.length = ranges.length * width := by
  induction h with
  | nil => rw [List.length_nil, Nat.zero_mul]; rfl
  | @cons range piece ranges pieces hbacks _ ih =>
    obtain ⟨hhead, htail⟩ := List.forall_mem_cons.mp hwidth
    rw [List.flatten_cons, List.length_append, ih htail, hbacks.length, hhead, List.length_cons,
      Nat.succ_mul, Nat.add_comm]

end NetArray
