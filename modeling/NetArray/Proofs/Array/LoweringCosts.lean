import Mathlib
import NetArray.Proofs.Array.LoweringRuns

/-!
# What lowering costs

Lowering an array costs cells: a slice for each part that is not all of its source, a concatenation if there are
several parts, and a buffer for the wire (`adds_build`). What the parts are depends on whether neighbours are merged.

Merged, there is one part for each *run*, which is a longest stretch of consecutive elements that adjoin one another.
Both ways to the parts come to that (`exists_parts_of_runs`): the scan takes the elements of a run in one after the
other (`coalesce_runs`), and the elements of an untouched import are a single run (`runs_pieces`). So what lowering
costs can be read off the elements (`Scene.lowering_costs`).

Merging never costs more than it saves. There are at most as many runs as elements; and a run that is not all of its
source has an element that is not, for an element that is all of its source adjoins no other (`countP_runs_le`).
-/

namespace NetArray

/-! ### Runs -/

namespace BitRange

/-- The longest stretches of consecutive ranges each of which adjoins the next one. -/
def runs (ranges : List BitRange) : List (List BitRange) :=
  ranges.splitBy fun range next => range.Adjoins next

/-- The ranges of a run are together all bits of their source. -/
def CoverSource : List BitRange → Prop
  | [] => False
  | first :: rest => first.low = 0 ∧ first.width + (rest.map (·.width)).sum = first.source.width

instance (run : List BitRange) : Decidable (CoverSource run) :=
  match run with
  | [] => .isFalse id
  | first :: rest =>
    inferInstanceAs (Decidable (first.low = 0 ∧ first.width + (rest.map (·.width)).sum = first.source.width))

variable {first next last whole : BitRange} {run rest ranges : List BitRange}

theorem flatten_runs (ranges : List BitRange) : (runs ranges).flatten = ranges :=
  List.flatten_splitBy _ _

theorem nil_notMem_runs (ranges : List BitRange) : [] ∉ runs ranges :=
  List.nil_notMem_splitBy _ _

theorem isChain_of_mem_runs (h : run ∈ runs ranges) : run.IsChain Adjoins := by
  have hchain := List.isChain_of_mem_splitBy h
  simpa only [decide_eq_true_eq] using hchain

/-- No run adjoins the next one. -/
theorem isChain_runs (ranges : List BitRange) : (runs ranges).IsChain fun run next =>
    ∃ hlast hfirst, ¬(run.getLast hlast).Adjoins (next.head hfirst) := by
  have hchain := List.isChain_getLast_head_splitBy (fun range next : BitRange => decide (range.Adjoins next)) ranges
  simp only [decide_eq_false_iff_not] at hchain
  exact hchain

/-- Ranges that adjoin one another are a single run. -/
theorem runs_of_isChain (hnil : ranges ≠ []) (hchain : ranges.IsChain Adjoins) : runs ranges = [ranges] :=
  List.splitBy_of_isChain hnil (by simpa only [decide_eq_true_eq] using hchain)

/-! ### The range of a run -/

/-- A range with the bits of the next one on top. -/
def grown (range next : BitRange) : BitRange :=
  { range with width := range.width + next.width }

/-- A range with the bits of others on top. -/
def span (first : BitRange) (rest : List BitRange) : BitRange :=
  rest.foldl grown first

theorem span_eq : span first rest = { first with width := first.width + (rest.map (·.width)).sum } := by
  induction rest generalizing first with
  | nil => rfl
  | cons next rest ih =>
    rw [span, List.foldl_cons, ← span, ih, List.map_cons, List.sum_cons, ← Nat.add_assoc]
    rfl

/-- Both ranges end at the same bit of the same signal. -/
structure SameEnd (range other : BitRange) : Prop where
  signal : range.source.signal = other.source.signal
  high : range.low + range.width = other.low + other.width

theorem SameEnd.adjoins_iff {other : BitRange} (h : first.SameEnd other) :
    first.Adjoins next ↔ other.Adjoins next :=
  ⟨fun hadjoins => ⟨h.signal.symm.trans hadjoins.signal, h.high.symm.trans hadjoins.low⟩,
    fun hadjoins => ⟨h.signal.trans hadjoins.signal, h.high.trans hadjoins.low⟩⟩

theorem sameEnd_grown (hadjoins : first.Adjoins next) : (first.grown next).SameEnd next where
  signal := hadjoins.signal
  high := by rw [← hadjoins.low, Nat.add_assoc]; rfl

theorem isChain_grown (hchain : (first :: next :: rest).IsChain Adjoins) :
    (first.grown next :: rest).IsChain Adjoins := by
  -- what comes next only looks at where the range before it ends
  obtain ⟨hadjoins, hrest⟩ := List.isChain_cons_cons.mp hchain
  rw [List.isChain_cons] at hrest ⊢
  exact ⟨fun last hlast => (sameEnd_grown hadjoins).adjoins_iff.mpr (hrest.1 last hlast), hrest.2⟩

theorem sameEnd_span (hchain : (first :: rest).IsChain Adjoins) :
    (span first rest).SameEnd ((first :: rest).getLast (List.cons_ne_nil _ _)) := by
  induction rest generalizing first with
  | nil => exact ⟨rfl, rfl⟩
  | cons next rest ih =>
    have hspan := ih (isChain_grown hchain)
    cases rest with
    | nil => exact sameEnd_grown (List.isChain_cons_cons.mp hchain).1
    | cons _ _ => exact hspan

/-- **A run** is taken in by its first range. -/
theorem coalesceFrom_run (hchain : (first :: rest).IsChain Adjoins)
    (hword : ∀ range ∈ rest, range.low + range.width < wordBound) (ranges : List BitRange) :
    first.coalesceFrom (rest ++ ranges) = (span first rest).coalesceFrom ranges := by
  induction rest generalizing first with
  | nil => rfl
  | cons next rest ih =>
    -- the first range grows by the next one, and the rest of the run adjoins what has grown
    obtain ⟨hnext, hwords⟩ := List.forall_mem_cons.mp hword
    have hadjoins := (List.isChain_cons_cons.mp hchain).1
    rw [List.cons_append, coalesceFrom_adjoins hadjoins hnext]
    exact ih (isChain_grown hchain) hwords

/-- The range is that of the run. -/
def Spans : List BitRange → BitRange → Prop
  | [], _ => False
  | first :: rest, whole => whole = span first rest

/-- The range of a run is all of its source just when the run is. -/
theorem Spans.coversSource_eq (h : Spans run whole) : whole.coversSource = decide (CoverSource run) := by
  cases run with
  | nil => exact h.elim
  | cons first rest =>
    obtain rfl : whole = span first rest := h
    rw [span_eq]
    exact (Bool.decide_and _ _).symm

/-- Stretches of ranges that adjoin one another are merged if none adjoins the next. -/
private theorem coalesce_flatten {stretches : List (List BitRange)} (hnil : [] ∉ stretches)
    (hchain : ∀ stretch ∈ stretches, stretch.IsChain Adjoins)
    (hends : stretches.IsChain fun stretch next =>
      ∃ hlast hfirst, ¬(stretch.getLast hlast).Adjoins (next.head hfirst))
    (hword : ∀ range ∈ stretches.flatten, range.low + range.width < wordBound) :
    ∃ wholes, coalesce stretches.flatten = .ok wholes ∧ List.Forall₂ Spans stretches wholes := by
  induction stretches with
  | nil => exact ⟨[], rfl, .nil⟩
  | cons stretch stretches ih =>
    obtain ⟨hstretch, hchains⟩ := List.forall_mem_cons.mp hchain
    rw [List.mem_cons, not_or] at hnil
    obtain ⟨hwords, hwords'⟩ := List.forall_mem_append.mp hword
    obtain ⟨wholes, hwholes, hspans⟩ := ih hnil.2 hchains hends.tail hwords'
    cases stretch with
    | nil => exact absurd rfl hnil.1
    | cons first rest =>
      have hmerge := coalesceFrom_run hstretch (List.forall_mem_cons.mp hwords).2 stretches.flatten
      refine ⟨span first rest :: wholes, hmerge.trans ?_, .cons rfl hspans⟩
      -- the scan closes the range of this stretch: it ends where the stretch does, and the next one does not adjoin it
      cases stretches with
      | nil =>
        cases hspans
        rfl
      | cons stretch' stretches =>
        obtain ⟨hlast, hfirst, hnot⟩ := (List.isChain_cons_cons.mp hends).1
        have hend := sameEnd_span hstretch
        have hspanWord : (span first rest).low + (span first rest).width < wordBound := by
          rw [hend.high]
          exact hwords _ (List.getLast_mem hlast)
        cases stretch' with
        | nil => exact absurd rfl hfirst
        | cons next members =>
          exact coalesceFrom_not_adjoins (fun hadjoins => hnot (hend.adjoins_iff.mp hadjoins)) hspanWord hwholes

/-- **Merging.** There is one range for each run. -/
theorem coalesce_runs (hword : ∀ range ∈ ranges, range.low + range.width < wordBound) :
    ∃ wholes, coalesce ranges = .ok wholes ∧ List.Forall₂ Spans (runs ranges) wholes := by
  have hmerged := coalesce_flatten (nil_notMem_runs ranges) (fun run => isChain_of_mem_runs) (isChain_runs ranges)
    (by rwa [flatten_runs])
  rwa [flatten_runs] at hmerged

/-! ### Counting runs -/

/-- A run that is not all of its source has a range that is not: one that is all of its source adjoins no other. -/
theorem exists_not_coversSource (hchain : run.IsChain Adjoins) (hnil : run ≠ [])
    (hpos : ∀ range ∈ run, 0 < range.width) (h : ¬CoverSource run) : ∃ range ∈ run, range.coversSource = false := by
  by_contra hall
  have hcovers : ∀ range ∈ run, range.low = 0 ∧ range.width = range.source.width := by
    intro range hmem
    have htrue : range.coversSource = true := by
      by_contra hfalse
      exact hall ⟨range, hmem, eq_false_of_ne_true hfalse⟩
    rwa [coversSource, Bool.and_eq_true, decide_eq_true_iff, decide_eq_true_iff] at htrue
  cases run with
  | nil => exact hnil rfl
  | cons first rest =>
    obtain ⟨hlow, hwidth⟩ := hcovers first List.mem_cons_self
    cases rest with
    | nil => exact h ⟨hlow, hwidth⟩
    | cons next rest =>
      -- the second range would begin at bit 0 too, but it begins above the first
      have hadjoins := (List.isChain_cons_cons.mp hchain).1.low
      have hfirst := hpos first List.mem_cons_self
      have hnext := (hcovers next (List.mem_cons_of_mem _ List.mem_cons_self)).1
      omega

/-- What is counted of some lists has an item of its own in each of them. -/
theorem countP_le_countP_flatten {α : Type} {p : List α → Bool} {q : α → Bool} {lists : List (List α)}
    (h : ∀ list ∈ lists, p list = true → ∃ item ∈ list, q item = true) :
    lists.countP p ≤ lists.flatten.countP q := by
  induction lists with
  | nil => exact le_rfl
  | cons list lists ih =>
    obtain ⟨hlist, hlists⟩ := List.forall_mem_cons.mp h
    rw [List.countP_cons, List.flatten_cons, List.countP_append, Nat.add_comm]
    refine Nat.add_le_add ?_ (ih hlists)
    split
    · next hcounted => exact List.countP_pos_iff.mpr (hlist hcounted)
    · exact Nat.zero_le _

theorem length_runs_le (ranges : List BitRange) : (runs ranges).length ≤ ranges.length := by
  have hle : (runs ranges).countP (fun _ => true) ≤ (runs ranges).flatten.countP fun _ => true := by
    refine countP_le_countP_flatten fun run hmem _ => ?_
    exact ⟨run.head (List.ne_nil_of_mem_splitBy hmem), List.head_mem _, rfl⟩
  rwa [flatten_runs, List.countP_true, List.countP_true] at hle

/-- **Merging saves slices.** At most as many runs are parts of their sources only as ranges are. -/
theorem countP_runs_le (hpos : ∀ range ∈ ranges, 0 < range.width) :
    (runs ranges).countP (¬CoverSource ·) ≤ ranges.countP (!·.coversSource) := by
  have hle : (runs ranges).countP (¬CoverSource ·) ≤ (runs ranges).flatten.countP (!·.coversSource) := by
    refine countP_le_countP_flatten fun run hmem hpart => ?_
    have hwidths : ∀ range ∈ run, 0 < range.width := by
      intro range hrange
      refine hpos range ?_
      rw [← flatten_runs ranges]
      exact List.mem_flatten_of_mem hmem hrange
    obtain ⟨range, hrange, hnot⟩ := exists_not_coversSource (isChain_of_mem_runs hmem)
      (List.ne_nil_of_mem_splitBy hmem) hwidths (of_decide_eq_true hpart)
    exact ⟨range, hrange, by rw [hnot]; rfl⟩
  rwa [flatten_runs] at hle

end BitRange

/-! ### Cells that are added -/

/-- The cells are those from before, and after them one for each of the operations. -/
def Builder.Adds (builder builder' : Builder) (operations : List Operation) : Prop :=
  ∃ cells, builder'.cells.items.toList = builder.cells.items.toList ++ cells ∧ cells.map (·.operation) = operations

namespace Builder

variable {builder middle builder' : Builder} {value : Value} {values : List Value}
  {operation : Operation} {operations operations' : List Operation}

theorem adds_of_cells_eq (h : builder'.cells = builder.cells) : builder.Adds builder' [] :=
  ⟨[], by rw [h, List.append_nil], rfl⟩

theorem Adds.trans (h : builder.Adds middle operations) (h' : middle.Adds builder' operations') :
    builder.Adds builder' (operations ++ operations') := by
  obtain ⟨cells, hcells, hmap⟩ := h
  obtain ⟨cells', hcells', hmap'⟩ := h'
  exact ⟨cells ++ cells', by rw [hcells', hcells, List.append_assoc], by rw [List.map_append, hmap, hmap']⟩

theorem Adds.size (h : builder.Adds builder' operations) :
    builder'.cells.size = builder.cells.size + operations.length := by
  obtain ⟨cells, hcells, rfl⟩ := h
  rw [List.length_map, Table.size, Table.size, ← Array.length_toList, hcells, List.length_append, Array.length_toList]

theorem adds_addCell {inputs : List SignalId} {type : TypeId} {name : Option Ident}
    (hrun : Build.addCell operation inputs type name builder = .ok value builder') :
    builder.Adds builder' [operation] := by
  obtain ⟨names, cellName, outName, pins, hcell, -⟩ := addCell_run operation inputs type name builder
  have hfinal := valueOf_final ⟨builder.signals.size⟩
    (builder.withCell names (name.getD cellName) cellName outName type operation pins)
  rw [← hcell, hrun] at hfinal
  obtain rfl : builder' = _ := hfinal
  exact ⟨[_], Array.toList_push .., rfl⟩

theorem adds_typedCell {inputs : List SignalId} {width : Nat}
    (hrun : (do Build.addCell operation inputs (← Build.bitsType width) none : Build Value) builder
      = .ok value builder') : builder.Adds builder' [operation] := by
  obtain ⟨type, middle, htype, hcell⟩ := change_bind_eq_ok.mp hrun
  have hcells : middle.cells = builder.cells := by
    obtain ⟨-, rfl⟩ := EStateM.Result.ok.inj htype
    rfl
  exact (adds_of_cells_eq hcells).trans (adds_addCell hcell)

theorem adds_slice {source : Value} {low width : Nat}
    (hrun : Build.slice source low width builder = .ok value builder') :
    builder.Adds builder' [.slice low width] := by
  obtain ⟨-, -, hcell⟩ := slice_eq_ok.mp hrun
  exact adds_typedCell hcell

theorem adds_concat (hrun : Build.concat values builder = .ok value builder') :
    builder.Adds builder' [.concat] := by
  obtain ⟨-, -, hcell⟩ := concat_eq_ok.mp hrun
  exact adds_typedCell hcell

end Builder

/-- The slice that makes a value of a range, if it takes one. -/
def BitRange.cuts (range : BitRange) : List Operation :=
  if range.coversSource then [] else [.slice range.low range.width]

namespace ArrayView

variable {view lowered : ArrayView} {store : Store} {workspace workspace' : Workspace} {settings : Settings}
  {builder builder' : Builder} {value : Value} {parts ranges : List BitRange}

/-- What lowering adds for these parts. -/
def operationsFor (parts : List BitRange) (createWire : Bool) : List Operation :=
  parts.reverse.flatMap BitRange.cuts ++ (if 1 < parts.length then [.concat] else []) ++
    if createWire then [.buffer] else []

theorem adds_materialize {range : BitRange} (hrun : range.materialize builder = .ok value builder') :
    builder.Adds builder' range.cuts := by
  unfold BitRange.materialize at hrun
  unfold BitRange.cuts
  split at hrun
  · next hcovers =>
    obtain ⟨-, rfl⟩ := change_pure_eq_ok.mp hrun
    rw [if_pos hcovers]
    exact Builder.adds_of_cells_eq rfl
  · next hcovers =>
    rw [if_neg hcovers]
    exact Builder.adds_slice hrun

theorem adds_mapM_materialize {values : List Value}
    (hrun : parts.mapM BitRange.materialize builder = .ok values builder') :
    values.length = parts.length ∧ builder.Adds builder' (parts.flatMap BitRange.cuts) := by
  induction parts generalizing builder values with
  | nil =>
    obtain ⟨rfl, rfl⟩ := change_pure_eq_ok.mp hrun
    exact ⟨rfl, Builder.adds_of_cells_eq rfl⟩
  | cons part parts ih =>
    rw [List.mapM_cons] at hrun
    obtain ⟨value, middle, hpart, hrun⟩ := change_bind_eq_ok.mp hrun
    obtain ⟨values, _, hparts, hrun⟩ := change_bind_eq_ok.mp hrun
    obtain ⟨rfl, rfl⟩ := change_pure_eq_ok.mp hrun
    obtain ⟨hlength, hadds⟩ := ih hparts
    exact ⟨congrArg (· + 1) hlength, (adds_materialize hpart).trans hadds⟩

theorem adds_join (hpos : 0 < parts.length) (hrun : join parts builder = .ok value builder') :
    builder.Adds builder' (parts.reverse.flatMap BitRange.cuts ++ if 1 < parts.length then [.concat] else []) := by
  obtain ⟨values, middle, hvalues, -⟩ := change_bind_eq_ok.mp hrun
  obtain ⟨hlength, hadds⟩ := adds_mapM_materialize hvalues
  rw [List.length_reverse] at hlength
  refine hadds.trans ?_
  -- a single value is given back as it is
  by_cases hone : values.length = 1
  · obtain ⟨single, rfl⟩ := List.length_eq_one_iff.mp hone
    obtain ⟨-, rfl⟩ := EStateM.Result.ok.inj ((join_single hvalues).symm.trans hrun)
    rw [if_neg (by omega)]
    exact Builder.adds_of_cells_eq rfl
  · rw [if_pos (by omega)]
    exact Builder.adds_concat ((join_several hvalues hone).symm.trans hrun)

theorem adds_barrier {name : Option String} {stem : String} {source : Value}
    (hrun : barrier name stem source builder = .ok value builder') : builder.Adds builder' [.buffer] := by
  rw [barrier_eq] at hrun
  obtain ⟨ident, middle, hname, hwire⟩ := change_bind_eq_ok.mp hrun
  obtain ⟨_, names, hnamed⟩ := wireName_run name stem builder
  obtain ⟨-, rfl⟩ := EStateM.Result.ok.inj (hnamed.symm.trans hname)
  have hnames : builder.Adds { builder with names := names } [] := Builder.adds_of_cells_eq rfl
  exact hnames.trans (Builder.adds_addCell hwire)

/-- **What lowering adds** when the parts are known. -/
theorem adds_build (hpos : 0 < parts.length) (hrun : view.build settings parts builder = .ok value builder') :
    builder.Adds builder' (operationsFor parts settings.createWire) := by
  obtain ⟨flat, middle, hjoin, hrun⟩ := change_bind_eq_ok.mp hrun
  refine (adds_join hpos hjoin).trans ?_
  split at hrun
  · next hwire =>
    rw [if_pos hwire]
    exact adds_barrier hrun
  · next hwire =>
    obtain ⟨-, rfl⟩ := change_pure_eq_ok.mp hrun
    rw [if_neg hwire]
    exact Builder.adds_of_cells_eq rfl

/-! ### The parts of a lowered array -/

/-- The pieces of a range, from the first to the last, are a single run. -/
theorem runs_pieces {origin : BitRange} {width count : Nat} (hpos : 0 < count) :
    BitRange.runs ((List.range count).map (Store.piece origin width))
      = [(List.range count).map (Store.piece origin width)] := by
  refine BitRange.runs_of_isChain ?_ ?_
  · rw [ne_eq, List.map_eq_nil_iff, List.range_eq_nil]
    exact hpos.ne'
  · rw [List.isChain_map, List.isChain_range]
    intro number _
    refine ⟨rfl, ?_⟩
    change origin.low + number * width + width = origin.low + (number + 1) * width
    rw [Nat.succ_mul, Nat.add_assoc]

/-- The range of this run is the range that the pieces are of. -/
theorem spans_pieces {origin : BitRange} {width count : Nat} (hpos : 0 < count)
    (hwidth : origin.width = count * width) :
    BitRange.Spans ((List.range count).map (Store.piece origin width)) origin := by
  obtain ⟨rest, rfl⟩ := Nat.exists_eq_succ_of_ne_zero hpos.ne'
  rw [List.range_succ_eq_map, List.map_cons]
  change origin = BitRange.span _ _
  have hwidths : (((List.range rest).map Nat.succ).map (Store.piece origin width)).map (·.width)
      = List.replicate rest width := by
    simp [Function.comp_def, Store.piece]
  rw [BitRange.span_eq, hwidths, List.sum_replicate_nat]
  change origin = ⟨origin.source, origin.low + 0 * width, width + rest * width⟩
  rw [Nat.zero_mul, Nat.add_zero, Nat.add_comm width, ← Nat.succ_mul, ← hwidth]

section Fits

variable {count : Nat} (hsound : workspace.Sound) (h : view.Fits store) (hcount : view.count = .ok count)
  (hpos : 0 < count) (hranges : view.elements store = .ok ranges)

include hsound h hcount hpos hranges

/-- **The parts of an array that is merged** are those of its runs, also if it is an untouched import. -/
theorem exists_parts_of_runs (hstore : store.Sound workspace.builder) :
    ∃ parts, view.parts store true = .ok parts ∧ List.Forall₂ BitRange.Spans (BitRange.runs ranges) parts := by
  rw [ArrayView.parts, if_pos rfl]
  cases horigin : view.passThrough? store with
  | some origin =>
    obtain ⟨hpieces, hwidth, -⟩ := elements_of_passThrough hsound h hstore hcount hpos horigin
    obtain rfl := Except.ok.inj (hranges.symm.trans hpieces)
    have hprod : 0 < view.shape.prod := by rwa [← (eq_of_elementCount hcount).1]
    rw [runs_pieces hprod]
    exact ⟨[origin], rfl, .cons (spans_pieces hprod hwidth) .nil⟩
  | none =>
    obtain ⟨-, hall⟩ := h.elements hsound.builder hstore hcount hranges
    have hwords : ∀ range ∈ ranges, range.low + range.width < wordBound := by
      intro range hmem
      obtain ⟨bits, hbits⟩ := (hall range hmem).2
      exact hbits.source_lt hsound.builder
    obtain ⟨parts, hparts, hspans⟩ := BitRange.coalesce_runs hwords
    refine ⟨parts, ?_, hspans⟩
    change (view.elements store >>= fun ranges => liftM (BitRange.coalesce ranges)) = _
    rw [hranges]
    exact lift_checked_eq_ok.mpr hparts

/-- **Lowering adds** what its parts take. -/
theorem exists_lower_adds (hstore : workspace.store view.store = .ok store)
    (hword : count * view.elemType.width < wordBound) (settings : Settings) {parts : List BitRange}
    (hparts : view.parts store settings.coalesce = .ok parts) (hlength : 0 < parts.length) :
    ∃ value lowered workspace', view.lower settings workspace = .ok (value, lowered) workspace' ∧
      workspace.builder.Adds workspace'.builder (operationsFor parts settings.createWire) := by
  obtain ⟨value, lowered, workspace', hlowered, hlower⟩ :=
    lower_of_elements hsound h hstore settings hcount hpos hword hranges
  obtain ⟨-, store', parts', builder, -, -, hstore', hparts', hbuild, rfl⟩ := lowered_eq_ok.mp hlowered
  obtain rfl := Except.ok.inj (hstore.symm.trans hstore')
  obtain rfl := Except.ok.inj (hparts.symm.trans hparts')
  exact ⟨value, lowered, _, hlower, adds_build hlength hbuild⟩

end Fits

/-! ### Counting cells -/

theorem length_flatMap_cuts (parts : List BitRange) :
    (parts.flatMap BitRange.cuts).length = parts.countP (!·.coversSource) := by
  induction parts with
  | nil => rfl
  | cons part parts ih =>
    rw [List.flatMap_cons, List.length_append, ih, List.countP_cons, Nat.add_comm, BitRange.cuts]
    cases part.coversSource <;> rfl

theorem exists_slice_of_mem {operation : Operation} (h : operation ∈ parts.flatMap BitRange.cuts) :
    ∃ low width, operation = .slice low width := by
  obtain ⟨part, -, hmem⟩ := List.mem_flatMap.mp h
  rw [BitRange.cuts] at hmem
  split at hmem
  · cases hmem
  · exact ⟨_, _, List.mem_singleton.mp hmem⟩

/-- There is a slice for each run that is not all of its source. -/
theorem countP_of_spans {stretches : List (List BitRange)} (h : List.Forall₂ BitRange.Spans stretches parts) :
    parts.countP (!·.coversSource) = stretches.countP (¬BitRange.CoverSource ·) := by
  induction h with
  | nil => rfl
  | cons hspans _ ih =>
    rw [List.countP_cons, List.countP_cons, ih, hspans.coversSource_eq, decide_not]

theorem length_operationsFor (parts : List BitRange) (createWire : Bool) :
    (operationsFor parts createWire).length
      = parts.countP (!·.coversSource) + (if 1 < parts.length then 1 else 0) + if createWire then 1 else 0 := by
  rw [operationsFor, List.length_append, List.length_append, length_flatMap_cuts, List.countP_reverse]
  split <;> split <;> rfl

/-- Fewer parts that take fewer slices take fewer cells. -/
theorem length_operationsFor_le {parts' : List BitRange} (createWire : Bool)
    (hslices : parts.countP (!·.coversSource) ≤ parts'.countP (!·.coversSource))
    (hlength : parts.length ≤ parts'.length) :
    (operationsFor parts createWire).length ≤ (operationsFor parts' createWire).length := by
  rw [length_operationsFor, length_operationsFor]
  refine Nat.add_le_add_right (Nat.add_le_add hslices ?_) _
  split
  · next hmany => rw [if_pos (hmany.trans_le hlength)]
  · exact Nat.zero_le _

end ArrayView

namespace Scene

variable {scene : Scene} {view : ArrayView}

open BitRange in
/-- **What lowering costs.** Take an array whose elements are all there and whose bits a machine word can count.
Lowering it with neighbours merged adds a slice for each run that is not all of its source, then a concatenation if
there are several runs, then a buffer if there is a wire, and nothing else. Lowering it without would not add fewer
cells. -/
theorem lowering_costs (hscene : scene.Reachable) (hview : view ∈ scene.arrays) (hpos : 0 < view.shape.prod)
    (hword : view.shape.prod * view.elemType.width < wordBound) :
    ∃ store, scene.workspace.store view.store = .ok store ∧ (view.gaps store = ∅ →
      ∃ ranges, view.elements store = .ok ranges ∧ ∀ settings : Settings,
        ∃ slices value lowered merged,
          view.lower { settings with coalesce := true } scene.workspace = .ok (value, lowered) merged ∧
          scene.workspace.builder.Adds merged.builder (slices ++
            (if 1 < (runs ranges).length then [.concat] else []) ++ if settings.createWire then [.buffer] else []) ∧
          slices.length = (runs ranges).countP (¬CoverSource ·) ∧
          (∀ operation ∈ slices, ∃ low width, operation = .slice low width) ∧
          ∃ value' lowered' apart,
            view.lower { settings with coalesce := false } scene.workspace = .ok (value', lowered') apart ∧
            merged.builder.cells.size ≤ apart.builder.cells.size) := by
  have hsound := sound_of_reachable hscene
  obtain ⟨store, hstore, hfits, hstoreSound⟩ := hsound.fits hview
  refine ⟨store, hstore, fun hfull => ?_⟩
  have hcount := hfits.count_eq hstoreSound.addressable hpos
  obtain ⟨ranges, hranges⟩ :=
    ArrayView.exists_elements hsound.workspace hfits hstoreSound hcount (ArrayView.gaps_eq_empty_iff.mp hfull)
  obtain ⟨hlength, hall⟩ := hfits.elements hsound.workspace.builder hstoreSound hcount hranges
  obtain ⟨parts, hparts, hspans⟩ :=
    ArrayView.exists_parts_of_runs hsound.workspace hfits hcount hpos hranges hstoreSound
  have hrangesPos : 0 < ranges.length := by rwa [hlength]
  have hpartsPos : 0 < parts.length := by
    rw [← hspans.length_eq, List.length_pos_iff, runs, List.splitBy_ne_nil, ← List.length_pos_iff]
    exact hrangesPos
  have hbuilt := ArrayView.exists_lower_adds hsound.workspace hfits hcount hpos hranges hstore hword
  refine ⟨ranges, hranges, fun settings => ?_⟩
  obtain ⟨value, lowered, merged, hmerged, hadds⟩ := hbuilt { settings with coalesce := true } hparts hpartsPos
  obtain ⟨value', lowered', apart, hapart, hadds'⟩ :=
    hbuilt { settings with coalesce := false } hranges hrangesPos
  refine ⟨parts.reverse.flatMap cuts, value, lowered, merged, hmerged, ?_, ?_, ?_, value', lowered', apart, hapart, ?_⟩
  · rw [hspans.length_eq]
    exact hadds
  · rw [ArrayView.length_flatMap_cuts, List.countP_reverse, ArrayView.countP_of_spans hspans]
  · exact fun operation => ArrayView.exists_slice_of_mem
  · -- merged, there are fewer parts, and fewer of them are slices
    have hslices : parts.countP (!·.coversSource) ≤ ranges.countP (!·.coversSource) := by
      rw [ArrayView.countP_of_spans hspans]
      refine countP_runs_le fun range hmem => ?_
      rw [(hall range hmem).1]
      exact view.elemType.width_pos
    have hfewer : parts.length ≤ ranges.length := hspans.length_eq.symm.trans_le (length_runs_le ranges)
    rw [hadds.size, hadds'.size]
    exact Nat.add_le_add_left (ArrayView.length_operationsFor_le settings.createWire hslices hfewer) _

/-- The grid in rows has four elements, the last two of which are one run. So lowering it takes three slices, a
concatenation and a wire. -/
theorem lowering_costs_gridRows :
    ∃ slices value lowered merged, gridRows.lower {} grid.workspace = .ok (value, lowered) merged ∧
      slices.length = 3 ∧ grid.workspace.builder.Adds merged.builder (slices ++ [.concat] ++ [.buffer]) ∧
      ∃ value' lowered' apart,
        gridRows.lower { coalesce := false } grid.workspace = .ok (value', lowered') apart ∧
        merged.builder.cells.size ≤ apart.builder.cells.size := by
  obtain ⟨store, hstore, hcosts⟩ :=
    @lowering_costs grid gridRows grid_reachable (by decide +kernel) (by decide) (by decide)
  obtain rfl : gridStore = store :=
    Except.ok.inj ((show grid.workspace.store ⟨0⟩ = .ok gridStore by decide +kernel).symm.trans hstore)
  obtain ⟨ranges, hranges, hadds⟩ := hcosts (ArrayView.gaps_eq_empty_iff.mpr (by decide +kernel))
  obtain rfl : [⟨gridInput, 0, 2⟩, ⟨gridInput, 6, 2⟩, ⟨gridInput, 4, 2⟩, ⟨gridInput, 6, 2⟩] = ranges :=
    Except.ok.inj (Eq.trans (by rfl) hranges)
  obtain ⟨slices, value, lowered, merged, hmerged, hcells, hlength, -, hless⟩ := hadds {}
  exact ⟨slices, value, lowered, merged, hmerged, hlength, hcells, hless⟩

end Scene

end NetArray
