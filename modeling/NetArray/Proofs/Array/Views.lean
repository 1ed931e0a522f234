import Mathlib
import NetArray.Proofs.Array.Workspaces
import NetArray.Proofs.Index.OffsetMaps
import NetArray.Proofs.Index.Regions
import NetArray.Array.Write

/-!
# Views

A view is right for a store when the chain of its offset maps sends its offsets to distinct slots of the store,
and when it covers the whole store unless something was selected on the way (`ArrayView.Fits`). This file shows
that every view that can be made is:

* `Transform` lists the ways to derive a view, and `Fits.transform` follows the chain through one of them;
* `yields_create`, `yields_ofValueAs`, `yields_ofValue` and `yields_concatenate` — the arrays that operations
  of a session make, each with a store of its own.

Operations of a session are described by `Yields`: whatever the outcome, the workspace has only been extended,
and an answer satisfies what it is meant to satisfy. The triple is closed under sequencing (`Yields.bind`), so a
proof about an operation follows its text.
-/

namespace NetArray

/-! ### Deriving views -/

/-- A way to derive a view of a view. -/
inductive Transform where
  | select (selection : List Selector)
  | transpose (permutation : List Nat)
  | reshape (shape : List Nat)
  /-- The elements moved around, along one axis or in row-major order. -/
  | roll (amount : Int) (axis : Option Nat)
  deriving DecidableEq, Repr

namespace ArrayView

/-- Derives a view. -/
def transform (view : ArrayView) : Transform → Attempt ArrayError ArrayView
  | .select selection => view.select selection
  | .transpose permutation => view.transpose permutation
  | .reshape shape => view.reshape shape
  | .roll amount axis => view.roll amount axis

/-- Derives a view step by step. -/
def transformAll (view : ArrayView) (steps : List Transform) : Attempt ArrayError ArrayView :=
  steps.foldlM transform view

variable {view derived : ArrayView}

theorem transformAll_cons {step : Transform} {steps : List Transform} :
    view.transformAll (step :: steps) = .ok derived ↔
      ∃ middle, view.transform step = .ok middle ∧ middle.transformAll steps = .ok derived := by
  rw [transformAll, List.foldlM_cons, bind_eq_ok]
  rfl

theorem eq_of_select {selection : List Selector} (h : view.select selection = .ok derived) :
    ∃ kept, region view.shape selection = .ok kept ∧
      derived = view.derive (if kept.shape.isEmpty then [1] else kept.shape)
        (.gather kept.offsets.toArray) := by
  simp only [select, bind_eq_ok, pure_eq_ok] at h
  obtain ⟨kept, hkept, rfl⟩ := h
  exact ⟨kept, hkept, rfl⟩

theorem eq_of_transpose {permutation : List Nat} (h : view.transpose permutation = .ok derived) :
    permutation.Perm (List.range view.shape.length) ∧
      derived = view.derive (permuted permutation view.shape)
        (.permute (permuted permutation view.shape) view.shape permutation) := by
  simp only [transpose, bind_eq_ok, pure_eq_ok] at h
  obtain ⟨⟨shape, map⟩, hmap, rfl⟩ := h
  obtain ⟨hperm, rfl, rfl⟩ := transposeMap_eq_ok hmap
  exact ⟨hperm, rfl⟩

theorem eq_of_reshape {shape : List Nat} (h : view.reshape shape = .ok derived) :
    view.shape.prod = shape.prod ∧ derived = view.derive shape .identity := by
  simp only [reshape, bind_eq_ok, pure_eq_ok] at h
  obtain ⟨map, hmap, rfl⟩ := h
  obtain ⟨-, hprod, rfl⟩ := reshapeMap_eq_ok hmap
  exact ⟨hprod, rfl⟩

theorem eq_of_roll {amount : Int} {axis : Option Nat} (h : view.roll amount axis = .ok derived) :
    ∃ map, derived = view.derive view.shape map ∧ match axis with
      | none => rollMap view.shape amount = .ok map
      | some axis => rollAxisMap view.shape axis amount = .ok map := by
  cases axis with
  | none =>
    simp only [roll, bind_eq_ok, pure_eq_ok, lift_checked_eq_ok] at h
    obtain ⟨map, hmap, rfl⟩ := h
    exact ⟨map, rfl, hmap⟩
  | some axis =>
    simp only [roll, bind_eq_ok, pure_eq_ok] at h
    obtain ⟨map, hmap, rfl⟩ := h
    exact ⟨map, rfl, hmap⟩

/-- A derived view has the same store. -/
theorem store_of_transform {step : Transform} (h : view.transform step = .ok derived) :
    derived.store = view.store := by
  cases step with
  | select selection =>
    obtain ⟨_, -, rfl⟩ := eq_of_select (lift_index_eq_ok.mp h)
    rfl
  | transpose permutation =>
    obtain ⟨-, rfl⟩ := eq_of_transpose (lift_shape_eq_ok.mp h)
    rfl
  | reshape shape =>
    obtain ⟨-, rfl⟩ := eq_of_reshape (lift_shape_eq_ok.mp h)
    rfl
  | roll amount axis =>
    obtain ⟨_, rfl, -⟩ := eq_of_roll (lift_index_eq_ok.mp h)
    rfl

/-! ### Views that fit a store -/

/-- The view reads distinct slots of the store, and all of them unless it selects. -/
structure Fits (view : ArrayView) (store : Store) : Prop where
  /-- The view knows the type of the elements. -/
  elemType : view.elemType = store.elemType
  /-- Distinct offsets of the view are distinct slots of the store. -/
  embeds : Embeds view.storeOffset view.shape.prod store.size
  /-- Where nothing was selected the view has as many elements as the store. -/
  full : (∀ table, OffsetMap.gather table ∉ view.maps) → view.shape.prod = store.size

/-- The view fits its store in a workspace. -/
def Sound (view : ArrayView) (workspace : Workspace) : Prop :=
  ∃ store, workspace.store view.store = .ok store ∧ view.Fits store

variable {store store' : Store} {workspace workspace' : Workspace}

theorem Fits.mono (h : view.Fits store) (hsize : store'.size = store.size)
    (htype : store'.elemType = store.elemType) : view.Fits store' where
  elemType := h.elemType.trans htype.symm
  embeds := by rw [hsize]; exact h.embeds
  full hmaps := by rw [hsize]; exact h.full hmaps

theorem Sound.mono (h : view.Sound workspace) (hextends : workspace.Extends workspace') :
    view.Sound workspace' := by
  obtain ⟨store, hstore, hfits⟩ := h
  obtain ⟨store', hstore', hsize, htype⟩ := hextends.stores hstore
  exact ⟨store', hstore', hfits.mono hsize htype⟩

theorem Fits.shape_lt (h : view.Fits store) (hstore : store.size * 24 < signedBound) :
    view.shape.prod < signedBound := by
  -- distinct slots for all offsets: there are no more offsets than slots
  have := h.embeds.le
  omega

/-- The number of elements is found, unless there are none, when a large axis may get in the way. -/
theorem Fits.count_eq (h : view.Fits store) (hstore : store.size * 24 < signedBound)
    (hpos : 0 < view.shape.prod) : view.count = .ok view.shape.prod :=
  elementCount_eq hpos ((h.shape_lt hstore).trans signedBound_lt_sizeBound)

/-- The slots of a view are found through the new map first. -/
theorem storeOffset_derive (view : ArrayView) (shape : List Nat) (map : OffsetMap) (offset : Nat) :
    (view.derive shape map).storeOffset offset = map.apply offset >>= view.storeOffset := by
  -- the identity is left out of the chain, every other map is put in front
  cases map <;> rfl

/-- A view of a view that fits, through a map that embeds. -/
theorem Fits.derive (h : view.Fits store) {shape : List Nat} {map : OffsetMap}
    (hmap : Embeds map.apply shape.prod view.shape.prod)
    (hfull : (∀ table, map ≠ .gather table) → shape.prod = view.shape.prod) :
    (view.derive shape map).Fits store where
  elemType := h.elemType
  embeds := by
    have hcomp := hmap.comp h.embeds
    rwa [show (fun offset => map.apply offset >>= view.storeOffset)
      = (view.derive shape map).storeOffset from
        funext fun offset => (storeOffset_derive view shape map offset).symm] at hcomp
  full hmaps := by
    -- the map is one of the maps of the new view, unless it is the identity
    have hsplit : (∀ table, map ≠ .gather table) ∧ ∀ table, OffsetMap.gather table ∉ view.maps := by
      cases map with
      | identity => exact ⟨fun _ => nofun, hmaps⟩
      | gather table => exact absurd List.mem_cons_self (hmaps table)
      | permute | roll | rollAxis =>
        exact ⟨fun _ => nofun, fun table hmem => hmaps table (List.mem_cons_of_mem _ hmem)⟩
    exact (hfull hsplit.1).trans (h.full hsplit.2)

/-- **Deriving.** A view that is derived from a view that fits a store fits it too. -/
theorem Fits.transform (h : view.Fits store) (hsize : view.shape.prod < signedBound)
    {step : Transform} (hstep : view.transform step = .ok derived) : derived.Fits store := by
  cases step with
  | select selection =>
    obtain ⟨kept, hkept, rfl⟩ := eq_of_select (lift_index_eq_ok.mp hstep)
    obtain ⟨hascend, hlt⟩ := region_offsets hkept
    refine h.derive ?_ fun hno => absurd rfl (hno _)
    have hgather := gather_embeds (hascend.imp Nat.ne_of_lt) hlt
    rw [(region_eq_ok hkept).2.2] at hgather
    -- without an axis there is one element, and the view has an axis of length one for it
    cases hshape : kept.shape with
    | nil => rwa [hshape] at hgather
    | cons size shape => rwa [hshape] at hgather
  | transpose permutation =>
    obtain ⟨hperm, rfl⟩ := eq_of_transpose (lift_shape_eq_ok.mp hstep)
    have hbound : view.shape.prod < sizeBound := hsize.trans signedBound_lt_sizeBound
    exact h.derive (permute_embeds hperm hbound) fun _ => prod_permuted hperm
  | reshape shape =>
    obtain ⟨hprod, rfl⟩ := eq_of_reshape (lift_shape_eq_ok.mp hstep)
    refine h.derive ?_ fun _ => hprod.symm
    rw [hprod]
    exact .id _
  | roll amount axis =>
    obtain ⟨map, rfl, hmap⟩ := eq_of_roll (lift_index_eq_ok.mp hstep)
    cases axis with
    | none => exact h.derive (rollMap_eq_ok hsize hmap).embeds fun _ => rfl
    | some axis =>
      obtain ⟨_, -, hrearranges⟩ := rollAxisMap_eq_ok hsize hmap
      exact h.derive hrearranges.embeds fun _ => rfl

theorem Fits.transformAll (h : view.Fits store) (hsize : store.size * 24 < signedBound)
    {steps : List Transform} (hsteps : view.transformAll steps = .ok derived) : derived.Fits store := by
  induction steps generalizing view with
  | nil =>
    cases hsteps
    exact h
  | cons step steps ih =>
    obtain ⟨middle, hstep, hrest⟩ := transformAll_cons.mp hsteps
    exact ih (h.transform (h.shape_lt hsize) hstep) hrest

end ArrayView

/-! ### What an operation of a session yields -/

/-- Whatever the outcome, the workspace has only been extended; an answer satisfies `P`, in the workspace
that it comes with. -/
structure Yields {α : Type} (workspace : Workspace) (operation : Session α)
    (P : α → Workspace → Prop) : Prop where
  /-- The workspace in the end. -/
  final : workspace.Extends (finalState (operation workspace))
  /-- The answer. -/
  answer : ∀ {a workspace'}, operation workspace = .ok a workspace' → P a workspace'

namespace Yields

variable {α β : Type} {workspace : Workspace} {P : α → Workspace → Prop} {Q : β → Workspace → Prop}

theorem extends_ok {operation : Session α} (h : Yields workspace operation P) {a : α}
    {workspace' : Workspace} (hrun : operation workspace = .ok a workspace') :
    workspace.Extends workspace' := by
  have := h.final
  rwa [hrun] at this

theorem bind {x : Session α} {f : α → Session β} (hx : Yields workspace x P)
    (hf : ∀ a workspace', workspace.Extends workspace' → P a workspace' → Yields workspace' (f a) Q) :
    Yields workspace (x >>= f) Q where
  final := by
    refine finalState_bind hx.final fun a workspace' hrun => ?_
    have hextends := hx.extends_ok hrun
    exact hextends.trans (hf a workspace' hextends (hx.answer hrun)).final
  answer hrun := by
    obtain ⟨a, workspace', hx', hrun⟩ := change_bind_eq_ok.mp hrun
    exact (hf a workspace' (hx.extends_ok hx') (hx.answer hx')).answer hrun

theorem mono {operation : Session α} {P' : α → Workspace → Prop} (h : Yields workspace operation P)
    (hP : ∀ a workspace', workspace.Extends workspace' → P a workspace' → P' a workspace') :
    Yields workspace operation P' :=
  ⟨h.final, fun hrun => hP _ _ (h.extends_ok hrun) (h.answer hrun)⟩

theorem pure {a : α} (h : P a workspace) : Yields workspace (pure a) P := by
  refine ⟨.refl _, fun hrun => ?_⟩
  obtain ⟨rfl, rfl⟩ := change_pure_eq_ok.mp hrun
  exact h

theorem throw (e : Failure ArrayError) : Yields workspace (throw e) P :=
  ⟨.refl _, fun hrun => nomatch hrun⟩

/-- What is only looked at. -/
theorem lift_bind {x : Attempt ArrayError α} {f : α → Session β}
    (h : ∀ a, x = .ok a → Yields workspace (f a) Q) : Yields workspace (liftM x >>= f) Q where
  final := finalState_lift_bind (.refl _) fun a ha => (h a ha).final
  answer hrun := by
    obtain ⟨a, _, hlift, hrun⟩ := change_bind_eq_ok.mp hrun
    obtain ⟨hx, rfl⟩ := change_lift_eq_ok.mp hlift
    exact (h a hx).answer hrun

theorem lift_checked_bind {x : Checked α} {f : α → Session β}
    (h : ∀ a, x = .ok a → Yields workspace (f a) Q) : Yields workspace (liftM x >>= f) Q where
  final := finalState_lift_checked_bind (.refl _) fun a ha => (h a ha).final
  answer hrun := by
    obtain ⟨a, _, hlift, hrun⟩ := change_bind_eq_ok.mp hrun
    obtain ⟨hx, rfl⟩ := change_lift_checked_eq_ok.mp hlift
    exact (h a hx).answer hrun

theorem get_bind {f : Workspace → Session β} (h : Yields workspace (f workspace) Q) :
    Yields workspace (get >>= f) Q where
  final := h.final
  answer hrun := by
    obtain ⟨_, _, hget, hrun⟩ := change_bind_eq_ok.mp hrun
    obtain ⟨rfl, rfl⟩ := change_get_eq_ok.mp hget
    exact h.answer hrun

theorem guard {c : Prop} [Decidable c] {e : Failure ArrayError} {k : α → Session β} {y : Session β}
    (h : ¬c → Yields workspace y Q) :
    Yields workspace (if c then (MonadExcept.throw e : Session α) >>= k else y) Q := by
  split
  · exact ⟨.refl _, fun hrun => nomatch hrun⟩
  · next hc => exact h hc

end Yields

/-! ### New arrays -/

namespace ArrayView

variable {workspace : Workspace}

/-- The array of a new store. -/
theorem yields_ofStore {shape : List Nat} {store : Store} (hstore : store.Sound workspace.builder)
    (hshape : shape.prod = store.size) :
    Yields workspace (ofStore shape store) fun view workspace' => view.Sound workspace' := by
  have hextends := Session.extends_push fun _ => hstore
  refine ⟨hextends, fun hrun => ?_⟩
  change EStateM.Result.ok (ArrayView.mk shape store.elemType none ⟨workspace.stores.size⟩ [] none) _
    = _ at hrun
  obtain ⟨rfl, rfl⟩ := EStateM.Result.ok.inj hrun
  refine ⟨store, Session.store_push_self _ _, rfl, ?_, fun _ => hshape⟩
  -- without maps, an offset is its own slot
  change Embeds .ok shape.prod store.size
  rw [hshape]
  exact .id _

theorem yields_create (shape : List Nat) (elemType : ElemType) :
    Yields workspace (create shape elemType) fun view workspace' => view.Sound workspace' := by
  refine .lift_bind fun _ _ => .lift_checked_bind fun count hcount => .lift_checked_bind fun store hstore => ?_
  obtain ⟨rfl, hsound⟩ := Store.sound_create hstore
  refine yields_ofStore hsound ?_
  rw [Store.size_empty, (eq_of_elementCount hcount).1]

theorem prod_of_importShape {value : Value} {store : Store} {shape : Option (List Nat)}
    {result : List Nat} (h : importShape value store shape = .ok result) : result.prod = store.size := by
  cases shape with
  | none =>
    cases h
    exact List.prod_singleton
  | some shape =>
    simp only [importShape, bind_eq_ok, lift_checked_eq_ok] at h
    obtain ⟨_, -, count, hcount, h⟩ := h
    split at h
    · next hsize =>
      obtain rfl := pure_eq_ok.mp h
      rw [← (eq_of_elementCount hcount).1, hsize]
    · cases h

theorem yields_ofValueAs {value : Value} {bits : List BitOrigin} (hbuilder : workspace.builder.Sound)
    (hvalue : workspace.builder.Carries value bits) (elemType : ElemType) (shape : Option (List Nat)) :
    Yields workspace (ofValueAs value elemType shape) fun view workspace' => view.Sound workspace' := by
  refine .lift_bind fun store hstore => .lift_bind fun shape' hshape => ?_
  -- a value is all of itself, so the import lies within it
  have hrange : workspace.builder.InRange (.whole value) := ⟨bits, Builder.backs_whole hvalue⟩
  obtain ⟨-, hsound⟩ := Store.sound_imported hbuilder hrange hstore
  exact yields_ofStore hsound (prod_of_importShape hshape)

theorem yields_ofValue {value : Value} {bits : List BitOrigin} (hbuilder : workspace.builder.Sound)
    (hvalue : workspace.builder.Carries value bits) :
    Yields workspace (ofValue value) fun view workspace' => view.Sound workspace' := by
  -- the type of the value only decides the shape and the width of the elements
  refine .get_bind (.lift_checked_bind fun layout _ => ?_)
  cases layout with
  | none => exact .lift_bind fun elemType _ => yields_ofValueAs hbuilder hvalue elemType _
  | some found =>
    obtain ⟨dims, element⟩ := found
    refine .lift_checked_bind fun width _ => .lift_bind fun elemType _ => ?_
    exact yields_ofValueAs hbuilder hvalue elemType _

end ArrayView

/-! ### Joined arrays -/

/-- The operand can be read in the workspace. -/
def Operand.Sound (workspace : Workspace) : Operand → Prop
  | .array view => view.Sound workspace
  | .value source => ∃ bits, workspace.builder.Carries source bits

theorem Operand.Sound.mono {workspace workspace' : Workspace} {operand : Operand}
    (h : operand.Sound workspace) (hextends : workspace.Extends workspace') :
    operand.Sound workspace' := by
  cases operand with
  | array view => exact ArrayView.Sound.mono h hextends
  | value value =>
    obtain ⟨bits, hbits⟩ := h
    exact ⟨bits, hbits.mono hextends.builder⟩

namespace ArrayView

variable {workspace : Workspace} {view : ArrayView} {store : Store}

theorem yields_toArray {operand : Operand} (hbuilder : workspace.builder.Sound)
    (h : operand.Sound workspace) :
    Yields workspace operand.toArray fun view workspace' => view.Sound workspace' := by
  cases operand with
  | array view => exact .pure h
  | value value =>
    obtain ⟨bits, hbits⟩ := h
    exact yields_ofValue hbuilder hbits

theorem yields_operandViews {elemType : ElemType} {operands : List Operand}
    (hsound : workspace.Sound) (h : ∀ operand ∈ operands, operand.Sound workspace) :
    Yields workspace (operandViews elemType operands) fun views workspace' =>
      ∀ view ∈ views, view.Sound workspace' ∧ view.elemType = elemType := by
  induction operands generalizing workspace with
  | nil => exact .pure fun _ hmem => nomatch hmem
  | cons operand operands ih =>
    obtain ⟨hoperand, hrest⟩ := List.forall_mem_cons.mp h
    refine .bind (yields_toArray hsound.builder hoperand) fun view middle hextends hview => ?_
    refine .guard fun helemType => ?_
    -- an operand that was imported has extended the workspace, and the others are still there
    have hrest' : ∀ operand ∈ operands, operand.Sound middle := fun operand hmem =>
      (hrest operand hmem).mono hextends
    refine .bind (ih (hextends.sound hsound) hrest') fun views workspace' hextends' hviews => ?_
    refine .pure (List.forall_mem_cons.mpr ⟨⟨hview.mono hextends', not_not.mp helemType⟩, hviews⟩)

theorem eq_of_totalCount {start total : Nat} {views : List ArrayView}
    (h : totalCount start views = .ok total) :
    total = start + (views.map (·.shape.prod)).sum := by
  induction views generalizing start with
  | nil =>
    cases h
    rfl
  | cons view views ih =>
    simp only [totalCount, bind_eq_ok, sized_eq_ok] at h
    obtain ⟨count, hcount, _, ⟨-, rfl⟩, h⟩ := h
    rw [ih h, (eq_of_elementCount hcount).1, List.map_cons, List.sum_cons, Nat.add_assoc]

theorem element_eq_ok {offset : Nat} {found : Option Element} :
    view.element store offset = .ok found ↔ ∃ slot, view.storeOffset offset = .ok slot ∧
      store.element slot = .ok found := by
  rw [ArrayView.element, bind_eq_ok]

/-- The elements of a view, in row-major order. -/
theorem snapshot_eq_ok {found : List (Option Element)} (h : view.snapshot store = .ok found) :
    List.Forall₂ (fun offset element => view.element store offset = .ok element)
      (List.range view.shape.prod) found := by
  rw [snapshot, bind_eq_ok] at h
  obtain ⟨count, hcount, h⟩ := h
  rw [(eq_of_elementCount hcount).1] at h
  exact mapM_eq_ok.mp h

/-- An element that is read through a view that fits a sound store. -/
theorem Fits.element (hbuilder : workspace.builder.Sound) (h : view.Fits store)
    (hstore : store.Sound workspace.builder) {offset : Nat} {element : Element}
    (hread : view.element store offset = .ok (some element)) :
    element.range.width = view.elemType.width ∧ workspace.builder.InRange element.range := by
  obtain ⟨slot, -, hslot⟩ := element_eq_ok.mp hread
  obtain ⟨found, hfound, hrange⟩ := hstore.element hbuilder slot
  obtain rfl := Except.ok.inj (hslot.symm.trans hfound)
  rw [h.elemType]
  exact hrange element rfl

/-- The joined elements are those of the parts, as many as the parts have together. -/
private theorem joined_elements {views : List ArrayView} {parts : List (List (Option Element))}
    (h : List.Forall₂ (fun view part =>
      (workspace.store view.store >>= fun store => view.snapshot store) = .ok part) views parts) :
    parts.flatten.length = (views.map (·.shape.prod)).sum ∧
      ∀ {element}, some element ∈ parts.flatten → ∃ view ∈ views, ∃ store offset,
        workspace.store view.store = .ok store ∧ view.element store offset = .ok (some element) := by
  induction h with
  | nil => exact ⟨rfl, fun hmem => nomatch hmem⟩
  | @cons view part views parts hpart _ ih =>
    obtain ⟨store, hstore, hsnapshot⟩ := bind_eq_ok.mp hpart
    have hfound := snapshot_eq_ok hsnapshot
    obtain ⟨hlength, helements⟩ := ih
    refine ⟨?_, fun {element} hmem => ?_⟩
    · rw [List.flatten_cons, List.length_append, hlength, List.map_cons, List.sum_cons,
        ← hfound.length_eq, List.length_range]
    · rw [List.flatten_cons, List.mem_append] at hmem
      rcases hmem with hhead | htail
      · obtain ⟨offset, -, hread⟩ := exists_of_forall₂_of_mem hfound hhead
        exact ⟨view, List.mem_cons_self, store, offset, hstore, hread⟩
      · obtain ⟨view', hview', found⟩ := helements htail
        exact ⟨view', List.mem_cons_of_mem _ hview', found⟩

/-- **Joining.** The joined array has a store of its own, of elements that the operands hold. -/
theorem yields_concatenate {operands : List Operand} (hsound : workspace.Sound)
    (hview : view.Sound workspace) (h : ∀ operand ∈ operands, operand.Sound workspace) :
    Yields workspace (view.concatenate operands) fun joined workspace' => joined.Sound workspace' := by
  refine .bind (yields_operandViews hsound h) fun views middle hextends hviews => ?_
  have hmiddle := hextends.sound hsound
  -- from here on nothing changes until the joined store is added
  refine .lift_checked_bind fun count hcount => .lift_checked_bind fun store hstore => .get_bind ?_
  refine .lift_checked_bind fun parts hparts => ?_
  obtain ⟨rfl, hempty⟩ : _ ∧ store.Sound middle.builder := Store.sound_create hstore
  have hall : ∀ part ∈ view :: views, part.Sound middle ∧ part.elemType = view.elemType :=
    List.forall_mem_cons.mpr ⟨⟨hview.mono hextends, rfl⟩, hviews⟩
  obtain ⟨hlength, helements⟩ := joined_elements (mapM_eq_ok.mp hparts)
  have hsize : parts.flatten.length = count := by
    rw [hlength, eq_of_totalCount hcount, Nat.zero_add]
  refine yields_ofStore ⟨?_, fun {place element} hslot => ?_, fun horigin => nomatch horigin⟩ ?_
  · change parts.flatten.toArray.size * 24 < signedBound
    have := hempty.addressable
    rwa [Store.size_empty, ← hsize] at this
  · -- an element of the joined array is one of an operand
    change parts.flatten.toArray[place]? = _ at hslot
    rw [List.getElem?_toArray] at hslot
    obtain ⟨part, hpart, source, offset, hsource, hread⟩ := helements (List.mem_of_getElem? hslot)
    obtain ⟨⟨source', hsource', hfits⟩, htype⟩ := hall part hpart
    obtain rfl := Except.ok.inj (hsource.symm.trans hsource')
    have := hfits.element hmiddle.builder (hmiddle.stores hsource) hread
    rwa [htype] at this
  · change [count].prod = parts.flatten.toArray.size
    rw [List.prod_singleton, List.size_toArray, hsize]

end ArrayView

end NetArray
