import Mathlib
import NetArray.Proofs.Array.Frames
import NetArray.Proofs.Array.Imports

/-!
# The operands of a join

What is joined to an array is another array, or a value that is imported first. An operand suits if it has elements of
the right type then; it offends, for a cause, if it cannot be imported or has elements of another type. One of the two
it does (`suits_or_offends`).

The operands become arrays one after the other, and every import adds a store for the next one to find. It is not
looked at: what an operand is, and what it holds, is the same in every workspace that stores were only added to
(`toArray_adds`). So everything can be said in terms of the workspace in which the join was asked for:

* `exists_operandViews` — the operands become arrays just when all of them suit;
* `refused_operandViews` — otherwise, the first one that offends decides about the cause;
* `reads_operandViews` — they hold what they held before.
-/

namespace NetArray

/-! ### What an array holds -/

namespace ArrayView

variable {view part : ArrayView} {workspace workspace' : Workspace}
  {items items' : List (Option Element)}

/-- The array has these elements in row-major order, with gaps where there are none. -/
def Holds (view : ArrayView) (workspace : Workspace) (items : List (Option Element)) : Prop :=
  ∃ store, workspace.store view.store = .ok store ∧ view.count = .ok items.length ∧
    List.Forall₂ (fun offset found => view.element store offset = .ok found)
      (List.range items.length) items

theorem Holds.det (h : view.Holds workspace items) (h' : view.Holds workspace items') :
    items = items' := by
  obtain ⟨store, hstore, hcount, hread⟩ := h
  obtain ⟨_, hstore', hcount', hread'⟩ := h'
  obtain rfl := Except.ok.inj (hstore.symm.trans hstore')
  rw [← Except.ok.inj (hcount.symm.trans hcount')] at hread'
  exact forall₂_det hread hread' fun _ _ _ hfound hfound' => Except.ok.inj (hfound.symm.trans hfound')

theorem Holds.mono (h : view.Holds workspace items) (hleaves : Workspace.Leaves view.store workspace workspace') :
    view.Holds workspace' items := by
  obtain ⟨store, hstore, hholds⟩ := h
  exact ⟨store, hleaves store hstore, hholds⟩

/-- Where the store is there already, to add others makes no difference. -/
theorem holds_adds {store : Store} (hadds : workspace.Adds workspace')
    (hstore : workspace.store view.store = .ok store) :
    view.Holds workspace' items ↔ view.Holds workspace items := by
  refine ⟨fun h => ?_, fun h => h.mono fun _ => hadds.stores⟩
  obtain ⟨_, hstore', hholds⟩ := h
  obtain rfl := Except.ok.inj ((hadds.stores hstore).symm.trans hstore')
  exact ⟨store, hstore, hholds⟩

/-- A snapshot is what the array holds. -/
theorem snapshot_iff : (workspace.store view.store >>= fun store => view.snapshot store) = .ok items ↔
    view.Holds workspace items := by
  simp only [snapshot, bind_eq_ok, mapM_eq_ok, Holds]
  constructor
  · rintro ⟨store, hstore, count, hcount, hread⟩
    have hlength : count = items.length := by rw [← hread.length_eq, List.length_range]
    rw [hlength] at hcount hread
    exact ⟨store, hstore, hcount, hread⟩
  · rintro ⟨store, hstore, hcount, hread⟩
    exact ⟨store, hstore, _, hcount, hread⟩

/-- Whatever fits its store can be read. -/
theorem exists_holds (hsound : workspace.Sound) (h : view.Sound workspace) {count : Nat}
    (hcount : view.count = .ok count) : ∃ items, view.Holds workspace items ∧ items.length = count := by
  obtain ⟨store, hstore, hfits⟩ := h
  have hread : ∀ offset ∈ List.range count, ∃ found, view.element store offset = .ok found := by
    intro offset hoffset
    have hlt : offset < view.shape.prod := by
      rw [← (eq_of_elementCount hcount).1]
      exact List.mem_range.mp hoffset
    obtain ⟨slot, -, hslot⟩ := hfits.embeds.lands offset hlt
    obtain ⟨found, hfound, -⟩ := (hsound.stores hstore).element hsound.builder slot
    exact ⟨found, element_eq_ok.mpr ⟨slot, hslot, hfound⟩⟩
  obtain ⟨items, hitems⟩ := exists_forall₂ hread
  have hlength : items.length = count := by rw [← hitems.length_eq, List.length_range]
  rw [← hlength] at hcount hitems
  exact ⟨items, ⟨store, hstore, hcount, hitems⟩, hlength⟩

end ArrayView

/-! ### Operands -/

namespace Operand

variable {operand : Operand} {elemType : ElemType} {workspace workspace' after : Workspace}
  {part : ArrayView} {items : List (Option Element)} {cause : ArrayError}

/-- The operand is an array of the element type, as it is or once it is imported. -/
def Suits (elemType : ElemType) (workspace : Workspace) (operand : Operand) : Prop :=
  ∃ part after, operand.toArray workspace = .ok part after ∧ part.elemType = elemType

/-- The operand cannot be joined to elements of the type: it cannot be imported, or its elements are of
another type. -/
def Offends (elemType : ElemType) (workspace : Workspace) (operand : Operand) (cause : ArrayError) : Prop :=
  (∃ after, operand.toArray workspace = .error (.refused cause) after) ∨
    ∃ part after, operand.toArray workspace = .ok part after ∧ part.elemType ≠ elemType ∧
      cause = .elementTypes elemType.width part.elemType.width

/-- The operand has so many elements. -/
def Counts (workspace : Workspace) (operand : Operand) (count : Nat) : Prop :=
  ∃ part after, operand.toArray workspace = .ok part after ∧ part.count = .ok count

/-- The operand suits, and these are its elements. -/
def Reads (elemType : ElemType) (workspace : Workspace) (operand : Operand)
    (items : List (Option Element)) : Prop :=
  ∃ part after, operand.toArray workspace = .ok part after ∧ part.elemType = elemType ∧
    part.Holds after items

/-- An import is held by the store that it adds. -/
private theorem holds_import {shape : List Nat} {store : Store} :
    ArrayView.Holds { shape := shape, elemType := store.elemType, store := ⟨workspace.stores.size⟩ }
      { workspace with stores := workspace.stores.push store } items ↔
    elementCount shape = .ok items.length ∧
      List.Forall₂ (fun offset found => store.element offset = .ok found) (List.range items.length) items := by
  refine ⟨?_, fun h => ⟨store, Session.store_push_self _ _, h⟩⟩
  rintro ⟨_, hstore, h⟩
  obtain rfl := Except.ok.inj ((Session.store_push_self store workspace).symm.trans hstore)
  exact h

theorem Sound.adds (h : operand.Sound workspace) (hadds : workspace.Adds workspace') :
    operand.Sound workspace' := by
  cases operand with
  | array view =>
    obtain ⟨store, hstore, hfits⟩ := h
    exact ⟨store, hadds.stores hstore, hfits⟩
  | value source =>
    obtain ⟨bits, hbits⟩ := h
    exact ⟨bits, by rwa [hadds.builder]⟩

/-- To become an array, an operand asks only for what it finds in the larger workspace just as well. -/
theorem toArray_adds (h : operand.Sound workspace) (hadds : workspace.Adds workspace') :
    (∃ failure, operand.toArray workspace = .error failure workspace ∧
      operand.toArray workspace' = .error failure workspace') ∨
    ∃ part after part' after', operand.toArray workspace = .ok part after ∧
      operand.toArray workspace' = .ok part' after' ∧ part'.elemType = part.elemType ∧
      part'.count = part.count ∧ ∀ items, part'.Holds after' items ↔ part.Holds after items := by
  cases operand with
  | array view =>
    obtain ⟨store, hstore, -⟩ := h
    exact .inr ⟨view, workspace, view, workspace', rfl, rfl, rfl, rfl, fun _ =>
      ArrayView.holds_adds hadds hstore⟩
  | value source =>
    change (∃ failure, ArrayView.ofValue source workspace = .error failure workspace ∧
      ArrayView.ofValue source workspace' = .error failure workspace') ∨ ∃ part after part' after',
        ArrayView.ofValue source workspace = .ok part after ∧
          ArrayView.ofValue source workspace' = .ok part' after' ∧ _
    -- the types are the same ones, and nothing else decides
    rw [ArrayView.ofValue_run, ArrayView.ofValue_run, hadds.builder]
    cases ArrayView.importOf workspace.builder.types source with
    | error failure => exact .inl ⟨failure, rfl, rfl⟩
    | ok made =>
      exact .inr ⟨_, _, _, _, rfl, rfl, rfl, rfl, fun _ => holds_import.trans holds_import.symm⟩

theorem reads_array {view : ArrayView} : (Operand.array view).Reads elemType workspace items ↔
    view.elemType = elemType ∧ view.Holds workspace items := by
  refine ⟨?_, fun h => ⟨view, workspace, rfl, h⟩⟩
  rintro ⟨_, _, hrun, h⟩
  obtain ⟨rfl, rfl⟩ := EStateM.Result.ok.inj hrun
  exact h

theorem Reads.det {items' : List (Option Element)} (h : operand.Reads elemType workspace items)
    (h' : operand.Reads elemType workspace items') : items = items' := by
  obtain ⟨part, after, hrun, -, hholds⟩ := h
  obtain ⟨_, _, hrun', -, hholds'⟩ := h'
  obtain ⟨rfl, rfl⟩ := EStateM.Result.ok.inj (hrun.symm.trans hrun')
  exact hholds.det hholds'

theorem Reads.suits (h : operand.Reads elemType workspace items) : operand.Suits elemType workspace := by
  obtain ⟨part, after, hrun, htype, -⟩ := h
  exact ⟨part, after, hrun, htype⟩

theorem Reads.counts (h : operand.Reads elemType workspace items) : operand.Counts workspace items.length := by
  obtain ⟨part, after, hrun, -, -, -, hcount, -⟩ := h
  exact ⟨part, after, hrun, hcount⟩

/-- An operand that suits is read if its elements can be counted. -/
theorem exists_reads (hsound : workspace.Sound) (h : operand.Sound workspace)
    (hsuits : operand.Suits elemType workspace) {count : Nat} (hcounts : operand.Counts workspace count) :
    ∃ items, operand.Reads elemType workspace items ∧ items.length = count := by
  obtain ⟨part, after, hrun, htype⟩ := hsuits
  obtain ⟨_, _, hrun', hcount⟩ := hcounts
  obtain ⟨rfl, rfl⟩ := EStateM.Result.ok.inj (hrun.symm.trans hrun')
  have hyields := ArrayView.yields_toArray hsound.builder h
  obtain ⟨items, hholds, hlength⟩ :=
    ArrayView.exists_holds ((hyields.extends_ok hrun).sound hsound) (hyields.answer hrun) hcount
  exact ⟨items, ⟨part, after, hrun, htype, hholds⟩, hlength⟩

section Adds

variable (h : operand.Sound workspace) (hadds : workspace.Adds workspace')

include h hadds

theorem suits_adds : operand.Suits elemType workspace' ↔ operand.Suits elemType workspace := by
  rcases toArray_adds h hadds with ⟨failure, hrun, hrun'⟩ | ⟨part, after, part', after', hrun, hrun', htype, -⟩
  · simp [Suits, hrun, hrun']
  · simp [Suits, hrun, hrun', htype]

theorem offends_adds : operand.Offends elemType workspace' cause ↔ operand.Offends elemType workspace cause := by
  rcases toArray_adds h hadds with ⟨failure, hrun, hrun'⟩ | ⟨part, after, part', after', hrun, hrun', htype, -⟩
  · simp [Offends, hrun, hrun']
  · simp [Offends, hrun, hrun', htype]

theorem reads_adds : operand.Reads elemType workspace' items ↔ operand.Reads elemType workspace items := by
  rcases toArray_adds h hadds with
    ⟨failure, hrun, hrun'⟩ | ⟨part, after, part', after', hrun, hrun', htype, -, hholds⟩
  · simp [Reads, hrun, hrun']
  · simp [Reads, hrun, hrun', htype, hholds]

end Adds

end Operand

/-- The first operand that cannot be joined cannot be for this cause. -/
def FirstOffends (elemType : ElemType) (workspace : Workspace) (operands : List Operand)
    (cause : ArrayError) : Prop :=
  ∃ before offender rest, operands = before ++ offender :: rest ∧
    (∀ operand ∈ before, operand.Suits elemType workspace) ∧ offender.Offends elemType workspace cause

/-- Operands that suit are read if the elements of each of them can be counted. -/
theorem exists_reads_all {operands : List Operand} {elemType : ElemType} {workspace : Workspace}
    (hsound : workspace.Sound) (h : ∀ operand ∈ operands, operand.Sound workspace)
    (hsuits : ∀ operand ∈ operands, operand.Suits elemType workspace) {counts : List Nat}
    (hcounts : List.Forall₂ (Operand.Counts workspace) operands counts) :
    ∃ parts, List.Forall₂ (Operand.Reads elemType workspace) operands parts ∧ parts.map List.length = counts := by
  induction hcounts with
  | nil => exact ⟨[], .nil, rfl⟩
  | cons hcount _ ih =>
    obtain ⟨hoperand, hrest⟩ := List.forall_mem_cons.mp h
    obtain ⟨hsuit, hsuits⟩ := List.forall_mem_cons.mp hsuits
    obtain ⟨items, hread, rfl⟩ := Operand.exists_reads hsound hoperand hsuit hcount
    obtain ⟨parts, hparts, rfl⟩ := ih hrest hsuits
    exact ⟨items :: parts, .cons hread hparts, rfl⟩

namespace ArrayView

variable {view part : ArrayView} {views : List ArrayView} {elemType : ElemType} {operand : Operand}
  {operands : List Operand} {workspace workspace' middle : Workspace} {cause : ArrayError}
  {parts : List (List (Option Element))}

/-- An operand that does not suit offends: an import that fails is refused, and never faults. -/
theorem suits_or_offends (hsound : workspace.builder.Sound) (h : operand.Sound workspace) :
    operand.Suits elemType workspace ∨ ∃ cause, operand.Offends elemType workspace cause := by
  have hmade : (∃ part after, operand.toArray workspace = .ok part after) ∨
      ∃ cause after, operand.toArray workspace = .error (.refused cause) after := by
    cases operand with
    | array view => exact .inl ⟨view, workspace, rfl⟩
    | value source =>
      obtain ⟨bits, hbits⟩ := h
      have htype := hbits.bitWidth
      change (∃ part after, ofValue source workspace = .ok part after) ∨
        ∃ cause after, ofValue source workspace = .error (.refused cause) after
      rw [ofValue_run]
      rcases Nat.eq_zero_or_pos source.width with hzero | hpos
      · obtain ⟨cause, hrefused⟩ := refused_importOf hzero htype
        rw [hrefused]
        exact .inr ⟨cause, workspace, rfl⟩
      · obtain ⟨dims, elemType, -, hsplits, -, heq⟩ := exists_importOf hpos htype
        rw [heq, (importAs_eq_ok (hbits.width_lt hsound)).mpr ⟨hsplits, rfl⟩]
        exact .inl ⟨_, _, rfl⟩
  rcases hmade with ⟨part, after, hrun⟩ | ⟨cause, after, hrun⟩
  · by_cases htype : part.elemType = elemType
    · exact .inl ⟨part, after, hrun, htype⟩
    · exact .inr ⟨_, .inr ⟨part, after, hrun, htype, rfl⟩⟩
  · exact .inr ⟨cause, .inl ⟨after, hrun⟩⟩

theorem firstOffends_nil : ¬FirstOffends elemType workspace [] cause := by
  rintro ⟨before, offender, rest, hsplit, -⟩
  cases before <;> cases hsplit

theorem firstOffends_cons : FirstOffends elemType workspace (operand :: operands) cause ↔
    operand.Offends elemType workspace cause ∨
      operand.Suits elemType workspace ∧ FirstOffends elemType workspace operands cause := by
  constructor
  · rintro ⟨before, offender, rest, hsplit, hbefore, hoffends⟩
    cases before with
    | nil =>
      obtain ⟨rfl, rfl⟩ := List.cons.inj hsplit
      exact .inl hoffends
    | cons head before =>
      obtain ⟨rfl, rfl⟩ := List.cons.inj hsplit
      obtain ⟨hhead, hbefore⟩ := List.forall_mem_cons.mp hbefore
      exact .inr ⟨hhead, before, offender, rest, rfl, hbefore, hoffends⟩
  · rintro (hoffends | ⟨hsuits, before, offender, rest, rfl, hbefore, hoffends⟩)
    · exact ⟨[], operand, operands, rfl, (fun _ hmem => nomatch hmem), hoffends⟩
    · exact ⟨operand :: before, offender, rest, rfl, List.forall_mem_cons.mpr ⟨hsuits, hbefore⟩, hoffends⟩

/-- Some operand offends, or all of them suit. -/
theorem all_suit_or_firstOffends (hsound : workspace.builder.Sound)
    (h : ∀ operand ∈ operands, operand.Sound workspace) :
    (∀ operand ∈ operands, operand.Suits elemType workspace) ∨
      ∃ cause, FirstOffends elemType workspace operands cause := by
  induction operands with
  | nil => exact .inl fun _ hmem => nomatch hmem
  | cons operand operands ih =>
    obtain ⟨hoperand, hrest⟩ := List.forall_mem_cons.mp h
    have hdecided : operand.Suits elemType workspace ∨ ∃ cause, operand.Offends elemType workspace cause :=
      suits_or_offends hsound hoperand
    rcases hdecided with hsuits | ⟨cause, hoffends⟩
    · rcases ih hrest with hall | ⟨cause, hfirst⟩
      · exact .inl (List.forall_mem_cons.mpr ⟨hsuits, hall⟩)
      · exact .inr ⟨cause, firstOffends_cons.mpr (.inr ⟨hsuits, hfirst⟩)⟩
    · exact .inr ⟨cause, firstOffends_cons.mpr (.inl hoffends)⟩

/-- The operands become arrays one after the other. -/
theorem operandViews_cons_eq_ok : operandViews elemType (operand :: operands) workspace = .ok views middle ↔
    ∃ part after rest, operand.toArray workspace = .ok part after ∧ part.elemType = elemType ∧
      operandViews elemType operands after = .ok rest middle ∧ views = part :: rest := by
  rw [operandViews, change_bind_eq_ok]
  simp only [change_guard_eq_ok, change_bind_eq_ok, change_pure_eq_ok, not_not]
  constructor
  · rintro ⟨part, after, hrun, htype, rest, _, hrest, rfl, rfl⟩
    exact ⟨part, after, rest, hrun, htype, hrest, rfl⟩
  · rintro ⟨part, after, rest, hrun, htype, hrest, rfl⟩
    exact ⟨part, after, hrun, htype, rest, middle, hrest, rfl, rfl⟩

theorem operandViews_cons_refused :
    (∃ after, operandViews elemType (operand :: operands) workspace = .error (.refused cause) after) ↔
      operand.Offends elemType workspace cause ∨ ∃ part after, operand.toArray workspace = .ok part after ∧
        part.elemType = elemType ∧ ∃ last, operandViews elemType operands after = .error (.refused cause) last := by
  rw [operandViews, change_bind]
  unfold Operand.Offends
  cases hrun : operand.toArray workspace with
  | error failure after => simp
  | ok part after =>
    by_cases htype : part.elemType = elemType
    · cases hrest : operandViews elemType operands after with
      | error failure last => simp [htype, change_bind, hrest]
      | ok rest last => simp [htype, change_bind, hrest]
    · simpa [htype, change_bind] using eq_comm

section Adds

variable (h : ∀ operand ∈ operands, operand.Sound workspace) (hadds : workspace.Adds workspace')

include h hadds

theorem all_sound_adds : ∀ operand ∈ operands, operand.Sound workspace' :=
  fun operand hmem => (h operand hmem).adds hadds

theorem all_suit_adds : (∀ operand ∈ operands, operand.Suits elemType workspace') ↔
    ∀ operand ∈ operands, operand.Suits elemType workspace :=
  forall₂_congr fun operand hmem => Operand.suits_adds (h operand hmem) hadds

theorem reads_all_adds : List.Forall₂ (Operand.Reads elemType workspace') operands parts ↔
    List.Forall₂ (Operand.Reads elemType workspace) operands parts :=
  forall₂_congr_of_mem fun operand hmem _ => Operand.reads_adds (h operand hmem) hadds

theorem firstOffends_adds :
    FirstOffends elemType workspace' operands cause ↔ FirstOffends elemType workspace operands cause := by
  induction operands with
  | nil => exact iff_of_false firstOffends_nil firstOffends_nil
  | cons operand operands ih =>
    obtain ⟨hoperand, hrest⟩ := List.forall_mem_cons.mp h
    rw [firstOffends_cons, firstOffends_cons, ih hrest, Operand.offends_adds hoperand hadds,
      Operand.suits_adds hoperand hadds]

end Adds

/-- **Who can be joined.** All operands become arrays just when all of them suit. -/
theorem exists_operandViews (h : ∀ operand ∈ operands, operand.Sound workspace) :
    (∃ views middle, operandViews elemType operands workspace = .ok views middle) ↔
      ∀ operand ∈ operands, operand.Suits elemType workspace := by
  induction operands generalizing workspace with
  | nil => exact iff_of_true ⟨[], workspace, rfl⟩ fun _ hmem => nomatch hmem
  | cons operand operands ih =>
    obtain ⟨-, hrest⟩ := List.forall_mem_cons.mp h
    rw [List.forall_mem_cons]
    constructor
    · rintro ⟨views, middle, hrun⟩
      obtain ⟨part, after, rest, hrun, htype, hrun', -⟩ := operandViews_cons_eq_ok.mp hrun
      have hadds := operand.adds_toArray.ok hrun
      have hsuits := (ih (all_sound_adds hrest hadds)).mp ⟨rest, middle, hrun'⟩
      exact ⟨⟨part, after, hrun, htype⟩, (all_suit_adds hrest hadds).mp hsuits⟩
    · rintro ⟨⟨part, after, hrun, htype⟩, hsuits⟩
      have hadds := operand.adds_toArray.ok hrun
      obtain ⟨rest, middle, hrun'⟩ := (ih (all_sound_adds hrest hadds)).mpr
        ((all_suit_adds hrest hadds).mpr hsuits)
      exact ⟨part :: rest, middle, operandViews_cons_eq_ok.mpr ⟨part, after, rest, hrun, htype, hrun', rfl⟩⟩

/-- **Who cannot.** The first operand that offends decides. -/
theorem refused_operandViews (h : ∀ operand ∈ operands, operand.Sound workspace) :
    (∃ after, operandViews elemType operands workspace = .error (.refused cause) after) ↔
      FirstOffends elemType workspace operands cause := by
  induction operands generalizing workspace with
  | nil => exact iff_of_false (fun ⟨_, hrun⟩ => nomatch hrun) firstOffends_nil
  | cons operand operands ih =>
    obtain ⟨-, hrest⟩ := List.forall_mem_cons.mp h
    rw [operandViews_cons_refused, firstOffends_cons]
    refine or_congr_right ⟨?_, ?_⟩
    · rintro ⟨part, after, hrun, htype, hrun'⟩
      have hadds := operand.adds_toArray.ok hrun
      have hfirst := (ih (all_sound_adds hrest hadds)).mp hrun'
      exact ⟨⟨part, after, hrun, htype⟩, (firstOffends_adds hrest hadds).mp hfirst⟩
    · rintro ⟨⟨part, after, hrun, htype⟩, hfirst⟩
      have hadds := operand.adds_toArray.ok hrun
      exact ⟨part, after, hrun, htype, (ih (all_sound_adds hrest hadds)).mpr
        ((firstOffends_adds hrest hadds).mpr hfirst)⟩

/-- An operand is read in the workspace that it came from, and again when the others are imported too. -/
theorem reads_of_toArray {items : List (Option Element)} {after : Workspace} (h : operand.Sound workspace)
    (hrun : operand.toArray workspace = .ok part after) (htype : part.elemType = elemType)
    (hadds : after.Adds middle) :
    operand.Reads elemType workspace items ↔ part.Holds middle items := by
  have hstore : ∃ store, after.store part.store = .ok store := by
    cases operand with
    | array view =>
      obtain ⟨rfl, rfl⟩ := EStateM.Result.ok.inj hrun
      obtain ⟨store, hstore, -⟩ := h
      exact ⟨store, hstore⟩
    | value source =>
      obtain ⟨made, -, rfl, rfl⟩ := ofValue_eq_ok.mp hrun
      exact ⟨made.2, Session.store_push_self _ _⟩
  obtain ⟨store, hstore⟩ := hstore
  rw [holds_adds hadds hstore]
  simp [Operand.Reads, hrun, htype]

/-- The operands are read together. -/
theorem reads_operandViews (h : ∀ operand ∈ operands, operand.Sound workspace)
    (hrun : operandViews elemType operands workspace = .ok views middle) :
    List.Forall₂ (Operand.Reads elemType workspace) operands parts ↔
      List.Forall₂ (fun part items => part.Holds middle items) views parts := by
  induction operands generalizing workspace views parts with
  | nil =>
    cases hrun
    rw [List.forall₂_nil_left_iff, List.forall₂_nil_left_iff]
  | cons operand operands ih =>
    obtain ⟨hoperand, hrest⟩ := List.forall_mem_cons.mp h
    obtain ⟨part, after, rest, hpart, htype, hviews, rfl⟩ := operandViews_cons_eq_ok.mp hrun
    have hadds := operand.adds_toArray.ok hpart
    have hadds' := (adds_operandViews elemType operands).ok hviews
    have hparts : ∀ parts, List.Forall₂ (Operand.Reads elemType workspace) operands parts ↔
        List.Forall₂ (fun part items => part.Holds middle items) rest parts := by
      intro parts
      rw [← ih (all_sound_adds hrest hadds) hviews, reads_all_adds hrest hadds]
    rw [List.forall₂_cons_left_iff, List.forall₂_cons_left_iff]
    simp only [hparts, reads_of_toArray hoperand hpart htype hadds']

end ArrayView

end NetArray
