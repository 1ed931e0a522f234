import Mathlib
import NetArray.Proofs.Array.Operands

/-!
# Joined arrays

Joining takes a snapshot. The elements of the array and of the operands are read one after the other, and what was
found is written to a store of its own, a gap as a gap and a part of an import like every other element
(`concatenate_eq_ok`). Three things follow:

* the operands alone decide whether there is an answer and what is in it (`joinsTo_iff`), so joins can be nested in
  any way (`joinsTo_append`, `joinsTo_nested`);
* no view of anything that was there has the store of the joined array (`apart_of_concatenate`);
* so the joined array stays as it is until something is written through a view of it, and everything else stays as it
  is when that happens, which is `store_of_sparing`.
-/

namespace NetArray

namespace ArrayView

variable {view : ArrayView} {views : List ArrayView} {elemType : ElemType}
  {operands : List Operand} {workspace middle : Workspace} {cause : ArrayError}
  {parts : List (List (Option Element))}

/-! ### Joining -/

/-- What fits into memory can be counted. -/
private theorem sized_of_memory {count : Nat} (hmemory : count * 24 < signedBound) : count < sizeBound := calc
  count ≤ count * 24 := Nat.le_mul_of_pos_right _ (by decide)
  _ < signedBound := hmemory
  _ < sizeBound := signedBound_lt_sizeBound

/-- The elements are counted before they are copied. -/
theorem totalCount_eq_ok {start total : Nat} (hparts : List.Forall₂ (fun part items => part.Holds workspace items)
    views parts) (hstart : start < sizeBound) :
    totalCount start views = .ok total ↔ start + parts.flatten.length = total ∧ total < sizeBound := by
  induction hparts generalizing start with
  | nil =>
    rw [totalCount, Except.ok.injEq]
    change start = total ↔ start + 0 = total ∧ _
    omega
  | @cons part items views parts hpart _ ih =>
    obtain ⟨-, -, hcount, -⟩ := hpart
    rw [totalCount, hcount]
    change (sized (start + items.length) >>= fun next => totalCount next views) = .ok total ↔ _
    rw [List.flatten_cons, List.length_append, ← Nat.add_assoc, bind_eq_ok]
    simp only [sized_eq_ok]
    constructor
    · rintro ⟨_, ⟨hnext, rfl⟩, hrun⟩
      exact (ih hnext).mp hrun
    · intro htotal
      have hnext : start + items.length < sizeBound := by omega
      exact ⟨_, ⟨hnext, rfl⟩, (ih hnext).mpr htotal⟩

/-- The array that is joined of these elements, and the workspace with its store. -/
def joinedIn (elemType : ElemType) (items : List (Option Element)) (middle : Workspace) :
    ArrayView × Workspace :=
  ({ shape := [items.length], elemType := elemType, store := ⟨middle.stores.size⟩ },
    { middle with stores := middle.stores.push { elemType := elemType, slots := items.toArray } })

/-- **Joining.** What was read of the operands is written to a store of its own, if memory can address so
much. -/
theorem concatenate_eq_ok {joined : ArrayView} {after : Workspace} :
    view.concatenate operands workspace = .ok joined after ↔ ∃ views middle parts,
      operandViews view.elemType operands workspace = .ok views middle ∧
      List.Forall₂ (fun part items => part.Holds middle items) (view :: views) parts ∧
      parts.flatten.length * 24 < signedBound ∧ (joined, after) = joinedIn view.elemType parts.flatten middle := by
  rw [concatenate, change_bind_eq_ok]
  constructor
  · rintro ⟨views, middle, hviews, hrun⟩
    obtain ⟨count, _, hlift, hrun⟩ := change_bind_eq_ok.mp hrun
    obtain ⟨hcount, rfl⟩ := change_lift_checked_eq_ok.mp hlift
    obtain ⟨store, _, hlift, hrun⟩ := change_bind_eq_ok.mp hrun
    obtain ⟨hcreate, rfl⟩ := change_lift_checked_eq_ok.mp hlift
    obtain ⟨_, _, hget, hrun⟩ := change_bind_eq_ok.mp hrun
    obtain ⟨rfl, rfl⟩ := change_get_eq_ok.mp hget
    obtain ⟨parts, _, hlift, hrun⟩ := change_bind_eq_ok.mp hrun
    obtain ⟨hparts, rfl⟩ := change_lift_checked_eq_ok.mp hlift
    have hholds := (mapM_eq_ok.mp hparts).imp fun _ _ hsnapshot => snapshot_iff.mp hsnapshot
    obtain ⟨htotal, -⟩ := (totalCount_eq_ok hholds (by decide)).mp hcount
    rw [Nat.zero_add] at htotal
    simp only [Store.create, bind_eq_ok, addressable_eq_ok, pure_eq_ok] at hcreate
    obtain ⟨_, ⟨hmemory, rfl⟩, rfl⟩ := hcreate
    obtain ⟨rfl, rfl⟩ := EStateM.Result.ok.inj hrun
    rw [← htotal] at hmemory
    exact ⟨views, middle, parts, hviews, hholds, hmemory, by rw [← htotal]; rfl⟩
  · rintro ⟨views, middle, parts, hviews, hholds, hmemory, hjoined⟩
    obtain ⟨rfl, rfl⟩ := Prod.mk.inj hjoined
    have hcount := (totalCount_eq_ok hholds (by decide)).mpr ⟨Nat.zero_add _, sized_of_memory hmemory⟩
    have hparts := mapM_eq_ok.mpr (hholds.imp fun _ _ hpart => snapshot_iff.mpr hpart)
    have hcreate : Store.create parts.flatten.length view.elemType
        = .ok (.empty parts.flatten.length view.elemType) := by
      simp only [Store.create, bind_eq_ok, addressable_eq_ok, pure_eq_ok]
      exact ⟨_, ⟨hmemory, rfl⟩, rfl⟩
    refine ⟨views, middle, hviews, ?_⟩
    refine change_bind_eq_ok.mpr ⟨_, middle, change_lift_checked_eq_ok.mpr ⟨hcount, rfl⟩, ?_⟩
    refine change_bind_eq_ok.mpr ⟨_, middle, change_lift_checked_eq_ok.mpr ⟨hcreate, rfl⟩, ?_⟩
    refine change_bind_eq_ok.mpr ⟨middle, middle, rfl, ?_⟩
    exact change_bind_eq_ok.mpr ⟨parts, middle, change_lift_checked_eq_ok.mpr ⟨hparts, rfl⟩, rfl⟩

/-- The joined array holds the elements, each in a slot of its own. -/
theorem holds_joinedIn {items : List (Option Element)} (hmemory : items.length * 24 < signedBound)
    (elemType : ElemType) (middle : Workspace) :
    (joinedIn elemType items middle).1.Holds (joinedIn elemType items middle).2 items := by
  refine ⟨_, Session.store_push_self _ _, ?_, ?_⟩
  · simpa [count, joinedIn, elementCount, productFrom, sized_eq_ok] using sized_of_memory hmemory
  · refine List.forall₂_iff_get.mpr ⟨List.length_range, fun place _ hplace => element_eq_ok.mpr ⟨place, ?_, ?_⟩⟩
    · rw [List.get_eq_getElem, List.getElem_range]
      rfl
    · have hslot : items.toArray[place]? = some items[place] := by
        rw [List.getElem?_toArray, List.getElem?_eq_getElem hplace]
      rw [Store.element, hslot, List.get_eq_getElem]
      -- a gap is a gap: there is no import behind it
      cases items[place] <;> rfl

theorem elemType_of_concatenate {joined : ArrayView} {after : Workspace}
    (hrun : view.concatenate operands workspace = .ok joined after) : joined.elemType = view.elemType := by
  obtain ⟨_, _, _, -, -, -, hjoined⟩ := concatenate_eq_ok.mp hrun
  exact congrArg (fun made => made.1.elemType) hjoined

/-- Once the operands are arrays, nothing refuses any more. -/
theorem refused_concatenate (h : ∀ operand ∈ operands, operand.Sound workspace) :
    (∃ after, view.concatenate operands workspace = .error (.refused cause) after) ↔
      FirstOffends view.elemType workspace operands cause := by
  rw [← refused_operandViews h]
  constructor
  · rintro ⟨after, hrun⟩
    rcases change_bind_eq_refused.mp hrun with hviews | ⟨views, middle, -, hrest⟩
    · exact ⟨after, hviews⟩
    · -- what is left is to count and to copy, which is not refused
      refine absurd hrest (NeverRefuses.bind (.lift_checked _) (fun _ => ?_) middle cause after)
      refine .bind (.lift_checked _) fun _ => .bind (.of_ok fun _ => ⟨_, _, rfl⟩) fun _ => ?_
      exact .bind (.lift_checked _) fun _ => .of_ok fun _ => ⟨_, _, rfl⟩
  · rintro ⟨after, hrun⟩
    exact ⟨after, change_run_error hrun⟩

section Sound

variable (h : ∀ operand ∈ Operand.array view :: operands, operand.Sound workspace)

include h

/-- What is joined, in terms of the operands as they were. -/
theorem reads_of_concatenate {joined : ArrayView} {after : Workspace}
    (hrun : view.concatenate operands workspace = .ok joined after) :
    ∃ middle parts, workspace.Adds middle ∧
      List.Forall₂ (Operand.Reads view.elemType workspace) (.array view :: operands) parts ∧
      parts.flatten.length * 24 < signedBound ∧ (joined, after) = joinedIn view.elemType parts.flatten middle := by
  obtain ⟨views, middle, parts, hviews, hholds, hmemory, hjoined⟩ := concatenate_eq_ok.mp hrun
  have hadds := (adds_operandViews view.elemType operands).ok hviews
  have hself : (Operand.array view).toArray workspace = .ok view workspace := rfl
  have hall := operandViews_cons_eq_ok.mpr ⟨view, workspace, views, hself, rfl, hviews, rfl⟩
  exact ⟨middle, parts, hadds, (reads_operandViews h hall).mpr hholds, hmemory, hjoined⟩

/-- Operands that suit are joined if memory can address the result. -/
theorem exists_concatenate
    (hparts : List.Forall₂ (Operand.Reads view.elemType workspace) (.array view :: operands) parts)
    (hmemory : parts.flatten.length * 24 < signedBound) :
    ∃ joined after, view.concatenate operands workspace = .ok joined after := by
  have hsuits : ∀ operand ∈ Operand.array view :: operands, operand.Suits view.elemType workspace := by
    intro operand hmem
    obtain ⟨items, -, hread⟩ := exists_of_forall₂_of_mem hparts.flip hmem
    exact Operand.Reads.suits hread
  obtain ⟨views, middle, hall⟩ := (exists_operandViews h).mpr hsuits
  obtain ⟨_, _, rest, hpart, -, hviews, rfl⟩ := operandViews_cons_eq_ok.mp hall
  obtain ⟨rfl, rfl⟩ := EStateM.Result.ok.inj hpart
  have hholds := (reads_operandViews h hall).mp hparts
  exact ⟨_, _, concatenate_eq_ok.mpr ⟨rest, middle, parts, hviews, hholds, hmemory, rfl⟩⟩

/-- The operands can be joined to the array, and these are the elements of the result. -/
def JoinsTo (view : ArrayView) (operands : List Operand) (workspace : Workspace)
    (items : List (Option Element)) : Prop :=
  ∃ joined after, view.concatenate operands workspace = .ok joined after ∧ joined.Holds after items

theorem joinsTo_iff {items : List (Option Element)} : view.JoinsTo operands workspace items ↔
    ∃ parts, List.Forall₂ (Operand.Reads view.elemType workspace) (.array view :: operands) parts ∧
      parts.flatten = items ∧ items.length * 24 < signedBound := by
  constructor
  · rintro ⟨joined, after, hrun, hholds⟩
    obtain ⟨middle, parts, -, hparts, hmemory, hjoined⟩ := reads_of_concatenate h hrun
    obtain ⟨rfl, rfl⟩ := Prod.mk.inj hjoined
    obtain rfl := hholds.det (holds_joinedIn hmemory view.elemType middle)
    exact ⟨parts, hparts, rfl, hmemory⟩
  · rintro ⟨parts, hparts, rfl, hmemory⟩
    obtain ⟨joined, after, hrun⟩ := exists_concatenate h hparts hmemory
    obtain ⟨middle, parts', -, hparts', -, hjoined⟩ := reads_of_concatenate h hrun
    obtain ⟨rfl, rfl⟩ := Prod.mk.inj hjoined
    obtain rfl := forall₂_det hparts hparts' fun _ _ _ hread hread' => hread.det hread'
    exact ⟨_, _, hrun, holds_joinedIn hmemory view.elemType middle⟩

/-- The same with the array apart from the operands. -/
theorem joinsTo_iff_holds {items : List (Option Element)} : view.JoinsTo operands workspace items ↔
    ∃ held parts, view.Holds workspace held ∧
      List.Forall₂ (Operand.Reads view.elemType workspace) operands parts ∧
      held ++ parts.flatten = items ∧ items.length * 24 < signedBound := by
  rw [joinsTo_iff h]
  constructor
  · rintro ⟨_, hread, rfl, hmemory⟩
    obtain ⟨held, parts, hheld, hparts, rfl⟩ := List.forall₂_cons_left_iff.mp hread
    exact ⟨held, parts, (Operand.reads_array.mp hheld).2, hparts, rfl, hmemory⟩
  · rintro ⟨held, parts, hheld, hparts, rfl, hmemory⟩
    exact ⟨held :: parts, .cons (Operand.reads_array.mpr ⟨rfl, hheld⟩) hparts, rfl, hmemory⟩

end Sound

/-! ### Joining step by step -/

section Sound

variable {before rest : List Operand} {items : List (Option Element)} (hsound : workspace.Sound)
  (hview : view.Sound workspace)

include hsound hview

omit hsound in
/-- The array and its operands. -/
theorem sound_operands (h : ∀ operand ∈ operands, operand.Sound workspace) :
    ∀ operand ∈ Operand.array view :: operands, operand.Sound workspace :=
  List.forall_mem_cons.mpr ⟨hview, h⟩

/-- After an array was joined, it is an operand like the others, which are as they were. -/
private theorem sound_joined {part : ArrayView} (hbefore : ∀ operand ∈ before, operand.Sound workspace)
    (hrest : ∀ operand ∈ rest, operand.Sound workspace)
    (hrun : view.concatenate before workspace = .ok part middle) :
    (∀ operand ∈ Operand.array part :: rest, operand.Sound middle) ∧
      ∀ {elemType parts}, List.Forall₂ (Operand.Reads elemType middle) rest parts ↔
        List.Forall₂ (Operand.Reads elemType workspace) rest parts := by
  have hadds := (adds_concatenate view before).ok hrun
  have hpart := (yields_concatenate hsound hview hbefore).answer hrun
  exact ⟨sound_operands hpart (all_sound_adds hrest hadds), reads_all_adds hrest hadds⟩

/-- **From the left.** What is joined in two steps is joined in one. -/
theorem joinsTo_append (h : ∀ operand ∈ before ++ rest, operand.Sound workspace) :
    (∃ part middle, view.concatenate before workspace = .ok part middle ∧ part.JoinsTo rest middle items) ↔
      view.JoinsTo (before ++ rest) workspace items := by
  obtain ⟨hbefore, hrest⟩ := List.forall_mem_append.mp h
  have hfirst := sound_operands hview hbefore
  rw [joinsTo_iff_holds (sound_operands hview h)]
  constructor
  · rintro ⟨part, middle, hrun, hjoins⟩
    obtain ⟨hmiddle, hsame⟩ := sound_joined hsound hview hbefore hrest hrun
    obtain ⟨_, parts', hholds, hparts', rfl, hmemory⟩ := (joinsTo_iff_holds hmiddle).mp hjoins
    obtain ⟨held, parts, hheld, hparts, rfl, -⟩ := (joinsTo_iff_holds hfirst).mp ⟨part, middle, hrun, hholds⟩
    rw [elemType_of_concatenate hrun, hsame] at hparts'
    refine ⟨held, parts ++ parts', hheld, List.rel_append hparts hparts', ?_, hmemory⟩
    rw [List.flatten_append, List.append_assoc]
  · rintro ⟨held, all, hheld, hread, rfl, hmemory⟩
    obtain ⟨parts, parts', hparts, hparts', rfl⟩ := forall₂_append_left_iff.mp hread
    rw [List.flatten_append, ← List.append_assoc] at hmemory ⊢
    have hmemory' : (held ++ parts.flatten).length * 24 < signedBound := by
      rw [List.length_append] at hmemory
      omega
    obtain ⟨part, middle, hrun, hholds⟩ :=
      (joinsTo_iff_holds hfirst).mpr ⟨held, parts, hheld, hparts, rfl, hmemory'⟩
    obtain ⟨hmiddle, hsame⟩ := sound_joined hsound hview hbefore hrest hrun
    rw [← elemType_of_concatenate hrun, ← hsame] at hparts'
    exact ⟨part, middle, hrun, (joinsTo_iff_holds hmiddle).mpr ⟨_, _, hholds, hparts', rfl, hmemory⟩⟩

omit hsound in
/-- An array that is joined to another one, once both are there. -/
private theorem joinsTo_single {tail : ArrayView} {after : Workspace} (hadds : workspace.Adds after)
    (htail : tail.Sound after) : view.JoinsTo [.array tail] after items ↔ ∃ held inner,
      view.Holds workspace held ∧ tail.elemType = view.elemType ∧ tail.Holds after inner ∧
      held ++ inner = items ∧ items.length * 24 < signedBound := by
  obtain ⟨store, hstore, hfits⟩ := hview
  have hview' : view.Sound after := ⟨store, hadds.stores hstore, hfits⟩
  have htail' : (Operand.array tail).Sound after := htail
  rw [joinsTo_iff_holds (sound_operands hview' (List.forall_mem_singleton.mpr htail'))]
  simp only [holds_adds hadds hstore, List.forall₂_cons_left_iff, List.forall₂_nil_left_iff,
    Operand.reads_array]
  constructor
  · rintro ⟨held, _, hheld, ⟨inner, _, ⟨htype, hinner⟩, rfl, rfl⟩, rfl, hmemory⟩
    rw [List.flatten_singleton] at hmemory ⊢
    exact ⟨held, inner, hheld, htype, hinner, rfl, hmemory⟩
  · rintro ⟨held, inner, hheld, htype, hinner, rfl, hmemory⟩
    exact ⟨held, [inner], hheld, ⟨inner, [], ⟨htype, hinner⟩, rfl, rfl⟩, by rw [List.flatten_singleton], hmemory⟩

/-- **From the right.** What was joined before is joined as it is. -/
theorem joinsTo_nested {first : Operand} (hfirst : first.Sound workspace)
    (hrest : ∀ operand ∈ rest, operand.Sound workspace) :
    (∃ head middle tail after, first.toArray workspace = .ok head middle ∧
      head.concatenate rest middle = .ok tail after ∧ view.JoinsTo [.array tail] after items) ↔
      view.JoinsTo (first :: rest) workspace items := by
  -- when the head was imported, the other operands are as they were
  have hhead : ∀ {head middle}, first.toArray workspace = .ok head middle →
      workspace.Adds middle ∧ middle.Sound ∧ head.Sound middle ∧
        (∀ operand ∈ rest, operand.Sound middle) ∧
        ∀ {elemType parts}, List.Forall₂ (Operand.Reads elemType middle) rest parts ↔
          List.Forall₂ (Operand.Reads elemType workspace) rest parts := by
    intro head middle hrun
    have hyields := yields_toArray hsound.builder hfirst
    have hadds := first.adds_toArray.ok hrun
    exact ⟨hadds, (hyields.extends_ok hrun).sound hsound, hyields.answer hrun,
      all_sound_adds hrest hadds, reads_all_adds hrest hadds⟩
  rw [joinsTo_iff_holds (sound_operands hview (List.forall_mem_cons.mpr ⟨hfirst, hrest⟩))]
  constructor
  · rintro ⟨head, middle, tail, after, hrun, hrun', hjoins⟩
    obtain ⟨hadds, hmiddle, hheadSound, hrest', hsame⟩ := hhead hrun
    have hafter := hadds.trans ((adds_concatenate head rest).ok hrun')
    have htail := (yields_concatenate hmiddle hheadSound hrest').answer hrun'
    obtain ⟨held, _, hheld, htype, hjoined, rfl, hmemory⟩ := (joinsTo_single hview hafter htail).mp hjoins
    obtain ⟨inner, parts, hinner, hparts, rfl, -⟩ :=
      (joinsTo_iff_holds (sound_operands hheadSound hrest')).mp ⟨tail, after, hrun', hjoined⟩
    rw [elemType_of_concatenate hrun'] at htype
    rw [htype, hsame] at hparts
    exact ⟨held, inner :: parts, hheld, .cons ⟨head, middle, hrun, htype, hinner⟩ hparts, rfl, hmemory⟩
  · rintro ⟨held, all, hheld, hread, rfl, hmemory⟩
    obtain ⟨inner, parts, ⟨head, middle, hrun, htype, hinner⟩, hparts, rfl⟩ :=
      List.forall₂_cons_left_iff.mp hread
    obtain ⟨hadds, hmiddle, hheadSound, hrest', hsame⟩ := hhead hrun
    rw [← htype, ← hsame] at hparts
    have hmemory' : (inner ++ parts.flatten).length * 24 < signedBound := by
      rw [List.flatten_cons, List.length_append] at hmemory
      omega
    obtain ⟨tail, after, hrun', htail⟩ := (joinsTo_iff_holds (sound_operands hheadSound hrest')).mpr
      ⟨inner, parts, hinner, hparts, rfl, hmemory'⟩
    have hafter := hadds.trans ((adds_concatenate head rest).ok hrun')
    have htailSound := (yields_concatenate hmiddle hheadSound hrest').answer hrun'
    exact ⟨head, middle, tail, after, hrun, hrun', (joinsTo_single hview hafter htailSound).mpr
      ⟨held, _, hheld, (elemType_of_concatenate hrun').trans htype, htail, rfl, hmemory⟩⟩

end Sound

/-- **When operands are joined.** All of them have to suit, and memory has to address the result. -/
theorem concatenate_ok_iff (hsound : workspace.Sound)
    (h : ∀ operand ∈ Operand.array view :: operands, operand.Sound workspace) :
    (∃ joined after, view.concatenate operands workspace = .ok joined after) ↔
      (∀ operand ∈ operands, operand.Suits view.elemType workspace) ∧
        ∃ counts, List.Forall₂ (Operand.Counts workspace) (.array view :: operands) counts ∧
          counts.sum * 24 < signedBound := by
  constructor
  · rintro ⟨joined, after, hrun⟩
    obtain ⟨middle, parts, -, hparts, hmemory, -⟩ := reads_of_concatenate h hrun
    refine ⟨fun operand hmem => ?_, parts.map List.length, ?_, ?_⟩
    · obtain ⟨items, -, hread⟩ := exists_of_forall₂_of_mem hparts.flip (List.mem_cons_of_mem _ hmem)
      exact Operand.Reads.suits hread
    · rw [List.forall₂_map_right_iff]
      exact hparts.imp fun _ _ => Operand.Reads.counts
    · rwa [← List.length_flatten]
  · rintro ⟨hsuits, counts, hcounts, hmemory⟩
    have hself : (Operand.array view).Suits view.elemType workspace := ⟨view, workspace, rfl, rfl⟩
    obtain ⟨parts, hparts, rfl⟩ := exists_reads_all hsound h (List.forall_mem_cons.mpr ⟨hself, hsuits⟩) hcounts
    rw [← List.length_flatten] at hmemory
    exact exists_concatenate h hparts hmemory

/-! ### Copies -/

/-- A joined array has one axis, and a store of its own for all that was read of the operands. -/
structure Copies (joined : ArrayView) (after : Workspace) (elemType : ElemType)
    (parts : List (List (Option Element))) : Prop where
  shape : joined.shape = [(parts.map List.length).sum]
  type : joined.elemType = elemType
  /-- Nothing is left to an import: what was read of one is in a slot. -/
  store : after.store joined.store = .ok { elemType := elemType, slots := parts.flatten.toArray }
  holds : joined.Holds after parts.flatten

/-- No view of the one array has the store of a view of the other. -/
def Apart (view other : ArrayView) : Prop :=
  ∀ steps steps' derived derived', view.transformAll steps = .ok derived →
    other.transformAll steps' = .ok derived' → derived.store ≠ derived'.store

theorem store_of_transformAll {steps : List Transform} {derived : ArrayView}
    (h : view.transformAll steps = .ok derived) : derived.store = view.store := by
  induction steps generalizing view with
  | nil =>
    cases h
    rfl
  | cons step steps ih =>
    obtain ⟨middle, hstep, hrest⟩ := transformAll_cons.mp h
    exact (ih hrest).trans (store_of_transform hstep)

theorem copies_of_concatenate {joined : ArrayView} {after : Workspace}
    (h : ∀ operand ∈ Operand.array view :: operands, operand.Sound workspace)
    (hrun : view.concatenate operands workspace = .ok joined after) :
    ∃ parts, List.Forall₂ (Operand.Reads view.elemType workspace) (.array view :: operands) parts ∧
      joined.Copies after view.elemType parts := by
  obtain ⟨middle, parts, -, hparts, hmemory, hjoined⟩ := reads_of_concatenate h hrun
  obtain ⟨rfl, rfl⟩ := Prod.mk.inj hjoined
  refine ⟨parts, hparts, ?_, rfl, Session.store_push_self _ _, holds_joinedIn hmemory view.elemType middle⟩
  rw [← List.length_flatten]

/-- The store of a joined array is a new one. -/
theorem apart_of_concatenate {joined other : ArrayView} {after : Workspace} (hother : other.Sound workspace)
    (h : ∀ operand ∈ Operand.array view :: operands, operand.Sound workspace)
    (hrun : view.concatenate operands workspace = .ok joined after) : other.Apart joined := by
  intro steps steps' derived derived' hderived hderived' heq
  rw [store_of_transformAll hderived, store_of_transformAll hderived'] at heq
  obtain ⟨middle, parts, hadds, -, -, hjoined⟩ := reads_of_concatenate h hrun
  obtain ⟨rfl, rfl⟩ := Prod.mk.inj hjoined
  -- an array that was there before has a store below the new one
  obtain ⟨store, hstore, -⟩ := hother
  have hlt := (Array.getElem?_eq_some_iff.mp (Workspace.store_eq_ok.mp (hadds.stores hstore))).1
  rw [heq] at hlt
  exact Nat.lt_irrefl _ hlt

end ArrayView

namespace Scene

variable {scene : Scene} {view : ArrayView} {operands : List Operand}

/-- The operands of an action that is allowed can be read. -/
theorem sound_of_allows (h : scene.Sound) (hallows : scene.Allows (.concatenate view operands)) :
    view.Sound scene.workspace ∧ ∀ operand ∈ operands, operand.Sound scene.workspace := by
  obtain ⟨-, hvalues, harrays⟩ := hallows
  refine ⟨h.made.arrays view (harrays view List.mem_cons_self), fun operand hmem => ?_⟩
  cases operand with
  | array other =>
    have hother : other ∈ operands.flatMap Operand.arrays := List.mem_flatMap.mpr ⟨_, hmem, List.mem_cons_self⟩
    exact h.made.arrays other (harrays other (List.mem_cons_of_mem _ hother))
  | value source => exact h.made.values source (hvalues source (List.mem_flatMap.mpr ⟨_, hmem, List.mem_cons_self⟩))

/-- **Joining takes a snapshot.** An operand that offends is refused, the first one if there are several. If all
suit, they are joined, provided that the elements of each can be counted, which they always can where there are any, and
that memory can address the result. The result holds all elements one after the other as they are at that moment. From
then on it has nothing in common with what was there before, and to join step by step, from the left or from the right,
is to join at once. -/
theorem joined_snapshot (hscene : scene.Reachable) (hallows : scene.Allows (.concatenate view operands)) :
    -- who is refused
    ((∀ operand ∈ operands, operand.Suits view.elemType scene.workspace) ∨
      ∃ cause, FirstOffends view.elemType scene.workspace operands cause) ∧
    (∀ cause, (∃ after, view.concatenate operands scene.workspace = .error (.refused cause) after) ↔
      FirstOffends view.elemType scene.workspace operands cause) ∧
    -- who is joined: all that suit, if they can be counted and memory can address a result of so many elements
    ((∃ joined after, view.concatenate operands scene.workspace = .ok joined after) ↔
      (∀ operand ∈ operands, operand.Suits view.elemType scene.workspace) ∧
        ∃ counts, List.Forall₂ (Operand.Counts scene.workspace) (.array view :: operands) counts ∧
          counts.sum * 24 < signedBound) ∧
    -- what the result is, and that it stays so as long as nothing is written to its own store
    (∀ joined after, view.concatenate operands scene.workspace = .ok joined after → ∃ parts,
      List.Forall₂ (Operand.Reads view.elemType scene.workspace) (.array view :: operands) parts ∧
      joined.Copies after view.elemType parts ∧
      (∀ later, ReachesSparing joined.store (scene.step (.concatenate view operands)) later →
        joined.Holds later.workspace parts.flatten) ∧
      ∀ other ∈ scene.arrays, other.Apart joined ∧ ∀ items, other.Holds scene.workspace items → ∀ later,
        ReachesSparing other.store (scene.step (.concatenate view operands)) later →
          other.Holds later.workspace items) ∧
    -- from the left
    (∀ before rest items, operands = before ++ rest →
      ((∃ part middle, view.concatenate before scene.workspace = .ok part middle ∧
        part.JoinsTo rest middle items) ↔ view.JoinsTo operands scene.workspace items)) ∧
    -- from the right
    ∀ first rest items, operands = first :: rest →
      ((∃ head middle tail after, first.toArray scene.workspace = .ok head middle ∧
        head.concatenate rest middle = .ok tail after ∧ view.JoinsTo [.array tail] after items) ↔
          view.JoinsTo operands scene.workspace items) := by
  have hsound := sound_of_reachable hscene
  obtain ⟨hview, hoperands⟩ := sound_of_allows hsound hallows
  have hall := ArrayView.sound_operands hview hoperands
  refine ⟨ArrayView.all_suit_or_firstOffends hsound.workspace.builder hoperands,
    fun cause => ArrayView.refused_concatenate hoperands, ArrayView.concatenate_ok_iff hsound.workspace hall,
    fun joined after hrun => ?_, ?_, ?_⟩
  · obtain ⟨parts, hparts, hcopies⟩ := ArrayView.copies_of_concatenate hall hrun
    have hperform : (Action.concatenate view operands).perform scene.workspace
        = .ok { arrays := [joined] } after := change_bind_eq_ok.mpr ⟨joined, after, hrun, rfl⟩
    have hstep : (scene.step (.concatenate view operands)).workspace = after := by rw [step, hperform]
    have hnone : ∀ id, (Action.concatenate view operands).target? ≠ some id := fun _ => nofun
    refine ⟨parts, hparts, hcopies, fun later hlater => ?_,
      fun other hother => ⟨?_, fun items hitems later hlater => ?_⟩⟩
    · refine hcopies.holds.mono fun store hstore => store_of_sparing hlater ?_
      rw [hstep]
      exact hstore
    · exact ArrayView.apart_of_concatenate (hsound.made.arrays other hother) hall hrun
    · exact hitems.mono fun store hstore => store_of_sparing hlater (store_of_step (hnone _) hstore)
  · rintro before rest items rfl
    exact ArrayView.joinsTo_append hsound.workspace hview hoperands
  · rintro first rest items rfl
    obtain ⟨hfirst, hrest⟩ := List.forall_mem_cons.mp hoperands
    exact ArrayView.joinsTo_nested hsound.workspace hview hfirst hrest

/-- The parts of an input. -/
def shelfParts : ArrayView := { shape := [2, 2], elemType := ⟨2, Nat.two_pos⟩, store := ⟨0⟩ }

/-- Two elements, of which the second one was written. -/
def shelfGaps : ArrayView := { shape := [2], elemType := ⟨2, Nat.two_pos⟩, store := ⟨1⟩ }

/-- An untouched import, an array with a gap, and an input as wide as their elements. -/
def shelf : Scene :=
  [.call (.internType (.bits 8)), .call (.input "a" ⟨0⟩), .call (.internType (.bits 2)),
    .call (.input "b" ⟨1⟩), .importAs ⟨⟨0⟩, ⟨0⟩, 8⟩ ⟨2, Nat.two_pos⟩ (some [2, 2]), .create [2] ⟨2, Nat.two_pos⟩,
    .set shelfGaps [1] (.whole ⟨⟨1⟩, ⟨1⟩, 2⟩)].foldl step (start {} "m")

/-- The array with the gap, the input and the parts once more are joined to the parts; the wide input is not. -/
theorem joined_snapshot_shelf :
    (∃ parts, List.Forall₂ (Operand.Reads ⟨2, by decide⟩ shelf.workspace)
        [.array shelfParts, .array shelfGaps, .value ⟨⟨1⟩, ⟨1⟩, 2⟩, .array shelfParts] parts ∧
      (parts.map List.length).sum = 11 ∧ shelfGaps.Apart { shelfParts with shape := [11], store := ⟨3⟩ }) ∧
    ∃ after, shelfParts.concatenate [.array shelfGaps, .value ⟨⟨0⟩, ⟨0⟩, 8⟩] shelf.workspace
      = .error (.refused (.elementTypes 2 8)) after := by
  have hreachable : shelf.Reachable := ⟨{}, "m", reaches_foldl (by decide +kernel)⟩
  have hallows : shelf.Allows (.concatenate shelfParts
      [.array shelfGaps, .value ⟨⟨1⟩, ⟨1⟩, 2⟩, .array shelfParts]) := by decide +kernel
  have hallows' : shelf.Allows (.concatenate shelfParts
      [.array shelfGaps, .value ⟨⟨0⟩, ⟨0⟩, 8⟩]) := by decide +kernel
  have hrun : shelfParts.concatenate [.array shelfGaps, .value ⟨⟨1⟩, ⟨1⟩, 2⟩, .array shelfParts] shelf.workspace
      = .ok { shelfParts with shape := [11], store := ⟨3⟩ } (finalState (shelfParts.concatenate
        [.array shelfGaps, .value ⟨⟨1⟩, ⟨1⟩, 2⟩, .array shelfParts] shelf.workspace)) := by decide +kernel
  constructor
  · obtain ⟨-, -, -, hjoined, -⟩ := joined_snapshot hreachable hallows
    obtain ⟨parts, hparts, hcopies, -, hothers⟩ := hjoined _ _ hrun
    exact ⟨parts, hparts, (List.cons.inj hcopies.shape).1.symm, (hothers shelfGaps (by decide +kernel)).1⟩
  · obtain ⟨-, hrefused, -⟩ := joined_snapshot hreachable hallows'
    refine (hrefused (.elementTypes 2 8)).mpr ⟨[.array shelfGaps], .value ⟨⟨0⟩, ⟨0⟩, 8⟩, [], rfl, ?_, .inr ?_⟩
    · exact List.forall_mem_singleton.mpr ⟨shelfGaps, shelf.workspace, rfl, rfl⟩
    · have himport : (Operand.value ⟨⟨0⟩, ⟨0⟩, 8⟩).toArray shelf.workspace
          = .ok { shape := [1], elemType := ⟨8, by decide⟩, store := ⟨2⟩ }
            (finalState ((Operand.value ⟨⟨0⟩, ⟨0⟩, 8⟩).toArray shelf.workspace)) := by decide +kernel
      exact ⟨_, _, himport, by decide, rfl⟩

/-- An operand that suits and has no element is not joined, since its elements cannot be counted. With the empty axis in
front it is. -/
theorem concatenate_overflow_hollowArray :
    hollow.Reachable ∧ hollow.Allows (.concatenate emptyArray [.array hollowArray]) ∧
      (∀ operand ∈ [Operand.array hollowArray], operand.Suits emptyArray.elemType hollow.workspace) ∧
      hollowArray.shape.prod = 0 ∧
      emptyArray.concatenate [.array hollowArray] hollow.workspace
        = .error (.fault .overflow) hollow.workspace ∧
      ∃ joined after, emptyArray.concatenate [.array emptyArray] hollow.workspace = .ok joined after ∧
        joined.shape = [0] := by
  have hrun : emptyArray.concatenate [.array emptyArray] hollow.workspace
      = .ok { shape := [0], elemType := .i8, store := ⟨1⟩ } (finalState
        (emptyArray.concatenate [.array emptyArray] hollow.workspace)) := by decide +kernel
  refine ⟨hollow_reachable, by decide +kernel, ?_, by decide, by decide +kernel, _, _, hrun, rfl⟩
  exact List.forall_mem_singleton.mpr ⟨hollowArray, hollow.workspace, rfl, rfl⟩

end Scene

end NetArray
