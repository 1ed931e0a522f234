import Mathlib
import NetArray.Proofs.Array.LoweringCosts

/-!
# Merging is minimal

`BitRange.coalesce` takes the ranges from the least significant one up and lets the last range of its result grow as
long as the next one adjoins it. No list of ranges with fewer members comes from joining neighbours, and how the list is
cut up before does not matter (`coalesce_minimal`):

* the result has the same bits in the same order (`places_of_spans`) and lies within the same sources;
* none of its ranges adjoins the next one (`isChain_of_spans`), so there is nothing left to merge;
* what was merged already may be merged with more (`coalesce_append`), which for no more is idempotence;
* it is no longer than any division of the list into stretches that adjoin throughout (`length_runs_flatten_le`).

The reason for the last one is that the runs of a list are its longest stretches. A stretch in front of a list is at
most one more run, for it is one by itself or the first run takes it in (`length_runs_append_le`).
-/

namespace NetArray

namespace BitRange

/-- Ranges that may occur together: each lies within its source, and a signal has one value only. -/
structure Compatible (ranges : List BitRange) : Prop where
  within : ∀ range ∈ ranges, range.low + range.width ≤ range.source.width
  word : ∀ range ∈ ranges, range.source.width < wordBound
  source : ∀ range ∈ ranges, ∀ other ∈ ranges, range.source.signal = other.source.signal →
    range.source = other.source

/-- The bits of a range, the least significant first: the signal and the place in it. -/
def places (range : BitRange) : List (SignalId × Nat) :=
  (List.range range.width).map fun bit => (range.source.signal, range.low + bit)

variable {range first next last whole : BitRange} {run rest segment ranges earlier later merged : List BitRange}
  {stretches : List (List BitRange)}

/-- Ranges of one builder's values may occur together. -/
theorem compatible_of_inRange {builder : Builder} (hsound : builder.Sound)
    (h : ∀ range ∈ ranges, builder.InRange range) : Compatible ranges where
  within range hrange := by
    obtain ⟨bits, hbacks⟩ := h range hrange
    exact hbacks.within
  word range hrange := by
    obtain ⟨bits, hbacks⟩ := h range hrange
    obtain ⟨all, hcarries, -⟩ := hbacks.source
    exact hcarries.width_lt hsound
  source range hrange other hother hsignal := by
    obtain ⟨bits, hbacks⟩ := h range hrange
    obtain ⟨bits', hbacks'⟩ := h other hother
    obtain ⟨all, hcarries, -⟩ := hbacks.source
    obtain ⟨all', hcarries', -⟩ := hbacks'.source
    -- both are the builder's handle of the signal
    have hhandle := hcarries'.handle
    rw [← hsignal] at hhandle
    exact Except.ok.inj (hcarries.handle.symm.trans hhandle)

theorem Compatible.append_left (h : Compatible (earlier ++ later)) : Compatible earlier where
  within range hrange := h.within range (List.mem_append_left _ hrange)
  word range hrange := h.word range (List.mem_append_left _ hrange)
  source range hrange other hother :=
    h.source range (List.mem_append_left _ hrange) other (List.mem_append_left _ hother)

/-- A range ends at a bit position that fits a machine word. -/
theorem Compatible.end_lt (h : Compatible ranges) (hrange : range ∈ ranges) :
    range.low + range.width < wordBound :=
  (h.within range hrange).trans_lt (h.word range hrange)

theorem adjoins_of_isFollowedBy (h : range.isFollowedBy next = .ok true) : range.Adjoins next := by
  unfold isFollowedBy at h
  split at h
  · next hsignal =>
    obtain ⟨high, hhigh, h⟩ := bind_eq_ok.mp h
    obtain ⟨-, rfl⟩ := word_eq_ok.mp hhigh
    exact ⟨hsignal, of_decide_eq_true (pure_eq_ok.mp h)⟩
  · cases h

/-! ### The range of a run -/

theorem places_grown (h : range.Adjoins next) : (range.grown next).places = range.places ++ next.places := by
  change (List.range (range.width + next.width)).map (fun bit => (range.source.signal, range.low + bit)) = _
  rw [List.range_add, List.map_append, List.map_map, places, places, ← h.signal, ← h.low]
  simp only [Function.comp_def, Nat.add_assoc]

/-- The range of a run has the bits of the ranges of the run. -/
theorem places_of_spans (hchain : run.IsChain Adjoins) (h : Spans run whole) :
    whole.places = run.flatMap places := by
  cases run with
  | nil => exact h.elim
  | cons first rest =>
    obtain rfl : whole = span first rest := h
    induction rest generalizing first with
    | nil => exact (List.append_nil _).symm
    | cons next rest ih =>
      have hadjoins := (List.isChain_cons_cons.mp hchain).1
      have hrest : (span (first.grown next) rest).places = (first.grown next :: rest).flatMap places :=
        ih _ (isChain_grown hchain)
      rw [List.flatMap_cons, places_grown hadjoins, List.append_assoc] at hrest
      rw [List.flatMap_cons, List.flatMap_cons]
      exact hrest

/-- The range of a run begins where the run begins and ends where it ends. -/
theorem ends_of_spans (hchain : run.IsChain Adjoins) (h : Spans run whole) :
    ∃ hnil : run ≠ [], whole.source = (run.head hnil).source ∧ whole.low = (run.head hnil).low ∧
      whole.SameEnd (run.getLast hnil) := by
  cases run with
  | nil => exact h.elim
  | cons first rest =>
    obtain rfl : whole = span first rest := h
    refine ⟨List.cons_ne_nil _ _, ?_, ?_, sameEnd_span hchain⟩
    · rw [span_eq]
      rfl
    · rw [span_eq]
      rfl

/-- The ranges of runs have the bits of all that is in the runs. -/
theorem flatMap_places_of_spans (hspans : List.Forall₂ Spans stretches ranges)
    (hchain : ∀ stretch ∈ stretches, stretch.IsChain Adjoins) :
    ranges.flatMap places = stretches.flatten.flatMap places := by
  induction hspans with
  | nil => rfl
  | cons hspan _ ih =>
    obtain ⟨hstretch, hchains⟩ := List.forall_mem_cons.mp hchain
    rw [List.flatMap_cons, List.flatten_cons, List.flatMap_append, places_of_spans hstretch hspan, ih hchains]

/-- What adjoins the range of a run adjoins the last range of the run, and the other way round. -/
theorem isChain_of_spans (hspans : List.Forall₂ Spans stretches ranges)
    (hchain : ∀ stretch ∈ stretches, stretch.IsChain Adjoins)
    (hends : stretches.IsChain fun stretch next =>
      ∃ hlast hfirst, ¬(stretch.getLast hlast).Adjoins (next.head hfirst)) :
    ranges.IsChain fun range next => ¬range.Adjoins next := by
  induction hspans with
  | nil => exact .nil
  | @cons stretch range stretches ranges hspan hrest ih =>
    obtain ⟨hstretch, hchains⟩ := List.forall_mem_cons.mp hchain
    have hranges := ih hchains hends.tail
    cases hrest with
    | nil => exact .singleton _
    | @cons stretch' next _ _ hspan' _ =>
      refine List.isChain_cons_cons.mpr ⟨fun hadjoins => ?_, hranges⟩
      obtain ⟨hlast, hfirst, hnot⟩ := (List.isChain_cons_cons.mp hends).1
      obtain ⟨_, -, -, hend⟩ := ends_of_spans hstretch hspan
      obtain ⟨_, hsource, hlow, -⟩ := ends_of_spans (hchains _ List.mem_cons_self) hspan'
      refine hnot ⟨?_, ?_⟩
      · rw [← hsource, ← hend.signal]
        exact hadjoins.signal
      · rw [← hlow, ← hend.high]
        exact hadjoins.low

/-- Ranges of runs may occur together where the ranges of the runs may. -/
theorem Compatible.of_spans (h : Compatible stretches.flatten) (hspans : List.Forall₂ Spans stretches ranges)
    (hchain : ∀ stretch ∈ stretches, stretch.IsChain Adjoins) : Compatible ranges := by
  -- the source of a range is that of the first and that of the last range of its run
  have hends : ∀ whole ∈ ranges, ∃ first ∈ stretches.flatten, ∃ last ∈ stretches.flatten,
      whole.source = first.source ∧ whole.source = last.source ∧
        whole.low + whole.width = last.low + last.width := by
    intro whole hwhole
    obtain ⟨stretch, hstretch, hspan⟩ := exists_of_forall₂_of_mem hspans hwhole
    obtain ⟨hnil, hsource, -, hend⟩ := ends_of_spans (hchain stretch hstretch) hspan
    have hfirst : stretch.head hnil ∈ stretches.flatten := List.mem_flatten_of_mem hstretch (List.head_mem hnil)
    have hlast : stretch.getLast hnil ∈ stretches.flatten :=
      List.mem_flatten_of_mem hstretch (List.getLast_mem hnil)
    refine ⟨_, hfirst, _, hlast, hsource, hsource.trans (h.source _ hfirst _ hlast ?_), hend.high⟩
    rw [← hsource]
    exact hend.signal
  refine ⟨fun whole hwhole => ?_, fun whole hwhole => ?_, fun whole hwhole other hother hsignal => ?_⟩
  · obtain ⟨-, -, last, hlast, -, hsource, hhigh⟩ := hends whole hwhole
    rw [hsource, hhigh]
    exact h.within last hlast
  · obtain ⟨first, hfirst, -, -, hsource, -⟩ := hends whole hwhole
    rw [hsource]
    exact h.word first hfirst
  · obtain ⟨first, hfirst, -, -, hsource, -⟩ := hends whole hwhole
    obtain ⟨first', hfirst', -, -, hsource', -⟩ := hends other hother
    rw [hsource, hsource'] at hsignal ⊢
    exact h.source _ hfirst _ hfirst' hsignal

/-! ### Merging in two goes -/

/-- Whether a range is followed depends on where the next one begins. -/
theorem isFollowedBy_congr (hsource : first.source = next.source) (hlow : first.low = next.low) :
    range.isFollowedBy first = range.isFollowedBy next := by
  unfold isFollowedBy
  rw [hsource, hlow]

/-- The first range of the result begins where the first range did, and what comes later may be merged with the
result. -/
theorem coalesceFrom_append (h : first.coalesceFrom ranges = .ok merged) (later : List BitRange) :
    ∃ head rest, merged = head :: rest ∧ head.source = first.source ∧ head.low = first.low ∧
      first.coalesceFrom (ranges ++ later) = head.coalesceFrom (rest ++ later) := by
  induction ranges generalizing first merged with
  | nil =>
    cases h
    exact ⟨first, [], rfl, rfl, rfl, rfl⟩
  | cons next ranges ih =>
    rw [coalesceFrom, bind_eq_ok] at h
    obtain ⟨follows, hfollows, h⟩ := h
    rw [List.cons_append, coalesceFrom, hfollows]
    cases follows with
    | true =>
      -- the first range grows, and begins where it did
      obtain ⟨longer, hlonger, h⟩ := bind_eq_ok.mp h
      obtain ⟨head, rest, rfl, hsource, hlow, hrest⟩ := ih h
      obtain ⟨-, rfl⟩ := extend_eq_ok.mp hlonger
      refine ⟨head, rest, rfl, hsource, hlow, ?_⟩
      rw [← hrest]
      change (first.extend next >>= fun longer => longer.coalesceFrom (ranges ++ later)) = _
      rw [hlonger]
      rfl
    | false =>
      -- the first range is complete, also if what follows it was merged before
      obtain ⟨rest, hmerged, h⟩ := bind_eq_ok.mp h
      obtain rfl := pure_eq_ok.mp h
      obtain ⟨head, rest, rfl, hsource, hlow, hrest⟩ := ih hmerged
      refine ⟨first, head :: rest, rfl, rfl, rfl, ?_⟩
      rw [List.cons_append, coalesceFrom, isFollowedBy_congr hsource hlow, hfollows, hrest]
      rfl

/-- **Merging in two goes.** What was merged before may be merged with what comes later. -/
theorem coalesce_append (h : coalesce ranges = .ok merged) (later : List BitRange) :
    coalesce (ranges ++ later) = coalesce (merged ++ later) := by
  cases ranges with
  | nil =>
    cases h
    rfl
  | cons first ranges =>
    obtain ⟨head, rest, rfl, -, -, happend⟩ := coalesceFrom_append h later
    exact happend

/-! ### The fewest stretches -/

/-- A stretch that the list adjoins is taken in by the first run of the list. -/
theorem runs_append_of_adjoins {others : List (List BitRange)} (hchain : segment.IsChain Adjoins)
    (hruns : runs ranges = run :: others) (hlast : last ∈ segment.getLast?) (hnext : next ∈ ranges.head?)
    (hadjoins : last.Adjoins next) : runs (segment ++ ranges) = (segment ++ run) :: others := by
  obtain ⟨hflatten, hnil, hchains, hends⟩ := List.splitBy_eq_iff.mp hruns
  rw [List.mem_cons, not_or] at hnil
  obtain ⟨hrun, hothers⟩ := List.forall_mem_cons.mp hchains
  have hhead : run.head? = ranges.head? := by
    rw [hflatten, List.flatten_cons, List.head?_append_of_ne_nil _ (Ne.symm hnil.1)]
  refine List.splitBy_eq_iff.mpr ⟨?_, ?_, List.forall_mem_cons.mpr ⟨?_, hothers⟩, ?_⟩
  · rw [hflatten, List.flatten_cons, List.flatten_cons, List.append_assoc]
  · rw [List.mem_cons, not_or]
    exact ⟨fun heq => hnil.1 (List.append_eq_nil_iff.mp heq.symm).2.symm, hnil.2⟩
  · simp only [decide_eq_true_eq] at hrun ⊢
    refine List.isChain_append.mpr ⟨hchain, hrun, fun last' hlast' next' hnext' => ?_⟩
    rw [hhead] at hnext'
    rw [Option.mem_unique hlast' hlast, Option.mem_unique hnext' hnext]
    exact hadjoins
  · -- the taken run ends where it did
    rw [List.isChain_cons] at hends ⊢
    refine ⟨fun other hother => ?_, hends.2⟩
    obtain ⟨hrunNil, hotherNil, hnot⟩ := hends.1 other hother
    refine ⟨List.append_ne_nil_of_right_ne_nil _ hrunNil, hotherNil, ?_⟩
    rwa [List.getLast_append_of_ne_nil _ hrunNil]

/-- A stretch that adjoins throughout is at most one run more: it is one by itself, or it is taken in by the first run
of what comes behind it. -/
theorem length_runs_append_le (hchain : segment.IsChain Adjoins) (ranges : List BitRange) :
    (runs (segment ++ ranges)).length ≤ (runs ranges).length + 1 := by
  by_cases hapart : ∀ last ∈ segment.getLast?, ∀ next ∈ ranges.head?, ¬last.Adjoins next
  · have hruns : runs (segment ++ ranges) = runs segment ++ runs ranges :=
      List.splitBy_append (by simpa only [decide_eq_false_iff_not] using hapart)
    have hone : (runs segment).length ≤ 1 := by
      cases segment with
      | nil => exact Nat.zero_le _
      | cons first rest => rw [runs_of_isChain (List.cons_ne_nil _ _) hchain, List.length_singleton]
    rw [hruns, List.length_append, Nat.add_comm]
    exact Nat.add_le_add_left hone _
  · push Not at hapart
    obtain ⟨last, hlast, next, hnext, hadjoins⟩ := hapart
    have hnil : ranges ≠ [] := by
      rintro rfl
      cases hnext
    obtain ⟨run, others, hruns⟩ := List.exists_cons_of_ne_nil (List.splitBy_ne_nil.mpr hnil)
    rw [runs_append_of_adjoins hchain hruns hlast hnext hadjoins, runs, hruns]
    exact Nat.le_succ _

/-- **The fewest stretches.** A list cannot be divided into fewer stretches that adjoin throughout than it has runs. -/
theorem length_runs_flatten_le (hchain : ∀ stretch ∈ stretches, stretch.IsChain Adjoins) :
    (runs stretches.flatten).length ≤ stretches.length := by
  induction stretches with
  | nil => exact le_rfl
  | cons stretch stretches ih =>
    obtain ⟨hstretch, hstretches⟩ := List.forall_mem_cons.mp hchain
    calc (runs (stretch :: stretches).flatten).length
      _ ≤ (runs stretches.flatten).length + 1 := length_runs_append_le hstretch _
      _ ≤ stretches.length + 1 := Nat.add_le_add_right (ih hstretches) 1

/-! ### Merging -/

/-- **Merging is minimal.** Merging ranges that may occur together gives ranges that may occur together, with the same
bits in the same order. No range of the result is followed by its neighbour, merging the result again changes nothing,
and a part of the list may be merged before the rest. There is no way to divide the list into fewer stretches in which
every range is followed by the next one. -/
theorem coalesce_minimal (h : Compatible ranges) :
    ∃ merged, coalesce ranges = .ok merged ∧ Compatible merged ∧
      merged.flatMap places = ranges.flatMap places ∧
      merged.IsChain (fun range next => range.isFollowedBy next = .ok false) ∧
      coalesce merged = .ok merged ∧
      (∀ earlier later, earlier ++ later = ranges →
        ∃ part, coalesce earlier = .ok part ∧ coalesce (part ++ later) = .ok merged) ∧
      ∀ stretches : List (List BitRange), stretches.flatten = ranges →
        (∀ stretch ∈ stretches, stretch.IsChain fun range next => range.isFollowedBy next = .ok true) →
        merged.length ≤ stretches.length := by
  have hchains : ∀ run ∈ runs ranges, run.IsChain Adjoins := fun _ => isChain_of_mem_runs
  obtain ⟨merged, hmerged, hspans⟩ := coalesce_runs fun _ => h.end_lt
  have hcompatible : Compatible merged := by
    refine Compatible.of_spans ?_ hspans hchains
    rwa [flatten_runs]
  refine ⟨merged, hmerged, hcompatible, ?_, ?_, ?_, ?_, ?_⟩
  · rw [flatMap_places_of_spans hspans hchains, flatten_runs]
  · -- a range of the result that was followed would adjoin its neighbour
    refine (isChain_of_spans hspans hchains (isChain_runs ranges)).imp_of_mem_imp fun range next hrange _ hnot => ?_
    rw [isFollowedBy_eq (hcompatible.end_lt hrange), decide_eq_false hnot]
  · have happend := coalesce_append hmerged []
    rw [List.append_nil, List.append_nil, hmerged] at happend
    exact happend.symm
  · rintro earlier later rfl
    obtain ⟨part, hpart, -⟩ := coalesce_runs fun _ => h.append_left.end_lt
    exact ⟨part, hpart, (coalesce_append hpart later).symm.trans hmerged⟩
  · rintro stretches rfl hfollowed
    rw [← hspans.length_eq]
    exact length_runs_flatten_le fun stretch hstretch =>
      (hfollowed stretch hstretch).imp fun _ _ => adjoins_of_isFollowedBy

/-- Ranges of two values: neighbours, an empty range, the same signal again further on, and one range twice. -/
def patchwork : List BitRange :=
  [⟨⟨⟨0⟩, ⟨0⟩, 8⟩, 0, 2⟩, ⟨⟨⟨0⟩, ⟨0⟩, 8⟩, 2, 2⟩, ⟨⟨⟨0⟩, ⟨0⟩, 8⟩, 4, 0⟩, ⟨⟨⟨1⟩, ⟨0⟩, 8⟩, 0, 4⟩,
    ⟨⟨⟨0⟩, ⟨0⟩, 8⟩, 4, 4⟩, ⟨⟨⟨0⟩, ⟨0⟩, 8⟩, 4, 4⟩]

/-- Four ranges are left, and fewer stretches that adjoin throughout there are not. -/
theorem coalesce_minimal_patchwork :
    Compatible patchwork ∧
      coalesce patchwork = .ok [⟨⟨⟨0⟩, ⟨0⟩, 8⟩, 0, 4⟩, ⟨⟨⟨1⟩, ⟨0⟩, 8⟩, 0, 4⟩, ⟨⟨⟨0⟩, ⟨0⟩, 8⟩, 4, 4⟩,
        ⟨⟨⟨0⟩, ⟨0⟩, 8⟩, 4, 4⟩] ∧
      ∀ stretches : List (List BitRange), stretches.flatten = patchwork →
        (∀ stretch ∈ stretches, stretch.IsChain fun range next => range.isFollowedBy next = .ok true) →
        4 ≤ stretches.length := by
  have hcompatible : Compatible patchwork := ⟨by decide, by decide, by decide⟩
  have hfour : coalesce patchwork = .ok [⟨⟨⟨0⟩, ⟨0⟩, 8⟩, 0, 4⟩, ⟨⟨⟨1⟩, ⟨0⟩, 8⟩, 0, 4⟩,
      ⟨⟨⟨0⟩, ⟨0⟩, 8⟩, 4, 4⟩, ⟨⟨⟨0⟩, ⟨0⟩, 8⟩, 4, 4⟩] := by decide
  obtain ⟨merged, hmerged, -, -, -, -, -, hfewest⟩ := coalesce_minimal hcompatible
  obtain rfl := Except.ok.inj (hmerged.symm.trans hfour)
  exact ⟨hcompatible, hfour, hfewest⟩

end BitRange

end NetArray
