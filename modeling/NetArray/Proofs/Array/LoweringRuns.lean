import Mathlib
import NetArray.Proofs.Array.LoweringOutcome
import NetArray.Proofs.Netlist.Edits

/-!
# Runs of lowering

A lowering that answers has looked its array up, joined the parts and maybe named a wire. `lower_eq_ok` and
`lowered_eq_ok` take a run apart into these steps, so that a proof about what lowering leaves behind does not read
the text of the operation again.

All that the steps do to a netlist is to add cells of bit vector types, and one buffer for the wire. A relation
between netlists that each such cell keeps is therefore kept by a whole lowering (`keeps_join_of_cells`,
`keeps_lower`). And once the parts are known nothing refuses any more, so an array that is refused
has left everything as it was (`unchanged_of_refused`).
-/

namespace NetArray

/-! ### Relations that cells keep -/

section Relations

variable {R : Builder → Builder → Prop} [Std.Refl R] [IsTrans Builder R]
  (hcell : ∀ operation inputs width,
    Keeps R (do Build.addCell operation inputs (← Build.bitsType width) none))

include hcell

theorem keeps_slice_of_cells (source : Value) (low width : Nat) : Keeps R (Build.slice source low width) :=
  .guard fun _ => .guard fun _ => hcell _ _ _

theorem keeps_concat_of_cells (values : List Value) : Keeps R (Build.concat values) :=
  .bind (.lift_checked _) fun _ => .guard fun _ => hcell _ _ _

theorem keeps_materialize_of_cells (range : BitRange) : Keeps R range.materialize := by
  unfold BitRange.materialize
  split
  · exact .pure _
  · exact keeps_slice_of_cells hcell _ _ _

/-- Joining parts adds cells of bit vector types only. -/
theorem keeps_join_of_cells (parts : List BitRange) : Keeps R (ArrayView.join parts) := by
  refine .bind (.mapM fun part _ => keeps_materialize_of_cells hcell part) fun values => ?_
  split
  · exact .pure _
  · exact keeps_concat_of_cells hcell _

end Relations

/-! ### Taking a run apart -/

/-- A session is refused by the builder when the builder refuses. -/
theorem Session.exists_of_build_refused {α : Type} {operation : Build α} {workspace workspace' : Workspace}
    {cause : ArrayError} (hrun : Session.build operation workspace = .error (.refused cause) workspace') :
    ∃ refusal builder, cause = .build refusal ∧
      operation workspace.builder = .error (.refused refusal) builder ∧
      workspace' = { workspace with builder := builder } := by
  unfold Session.build at hrun
  cases hbuild : operation workspace.builder with
  | ok answer builder =>
    rw [hbuild] at hrun
    cases hrun
  | error failure builder =>
    rw [hbuild] at hrun
    cases failure with
    | refused refusal =>
      cases hrun
      exact ⟨refusal, builder, rfl, rfl, rfl⟩
    | fault kind => cases hrun

namespace ArrayView

variable {view lowered : ArrayView} {settings : Settings} {value : Value} {workspace workspace' : Workspace}

/-- What lowering does to the netlist, when the parts are known. -/
def build (view : ArrayView) (settings : Settings) (parts : List BitRange) : Build Value := do
  let flat ← join parts
  if settings.createWire then
    barrier view.name settings.wireStem flat
  else
    return flat

/-- The name of the wire: that of the array, made unique, or a fresh one. -/
def wireName (name : Option String) (stem : String) : Build Ident :=
  match name with
  | some name => Build.uniqueName name
  | none => Build.fresh stem

theorem wireName_run (name : Option String) (stem : String) (builder : Builder) :
    ∃ ident names, wireName name stem builder = .ok ident { builder with names := names } := by
  cases name with
  | none => exact ⟨_, _, fresh_run stem builder⟩
  | some name => exact uniqueName_run name builder

/-- The wire is named before it is made. -/
theorem barrier_eq (name : Option String) (stem : String) (source : Value) :
    barrier name stem source = wireName name stem >>= fun ident => Build.wire ident source := by
  cases name <;> rfl

/-- A wire enters names and adds a cell. -/
theorem keeps_barrier_of_cells {R : Builder → Builder → Prop} [Std.Refl R] [IsTrans Builder R]
    (hnames : ∀ (builder : Builder) (names : Names), R builder { builder with names := names })
    (hcell : ∀ operation inputs type name, Keeps R (Build.addCell operation inputs type name))
    (name : Option String) (stem : String) (source : Value) : Keeps R (barrier name stem source) := by
  rw [barrier_eq]
  refine .bind (fun builder => ?_) fun ident => hcell _ _ _ _
  obtain ⟨ident, names, hrun⟩ := wireName_run name stem builder
  rw [hrun]
  exact hnames builder names

/-- The value of a lowered array is built of its parts. -/
theorem lowered_eq_ok : view.lowered settings workspace = .ok value workspace' ↔
    ∃ count store parts builder, view.count = .ok count ∧ count ≠ 0 ∧
      workspace.store view.store = .ok store ∧ view.parts store settings.coalesce = .ok parts ∧
      view.build settings parts workspace.builder = .ok value builder ∧
      workspace' = { workspace with builder := builder } := by
  constructor
  · intro hrun
    obtain ⟨count, _, hlift, hrun⟩ := change_bind_eq_ok.mp hrun
    obtain ⟨hcount, rfl⟩ := change_lift_checked_eq_ok.mp hlift
    obtain ⟨hzero, hrun⟩ := change_guard_eq_ok.mp hrun
    obtain ⟨_, _, hget, hrun⟩ := change_bind_eq_ok.mp hrun
    obtain ⟨rfl, rfl⟩ := change_get_eq_ok.mp hget
    obtain ⟨store, _, hlift, hrun⟩ := change_bind_eq_ok.mp hrun
    obtain ⟨hstore, rfl⟩ := change_lift_checked_eq_ok.mp hlift
    obtain ⟨parts, _, hlift, hrun⟩ := change_bind_eq_ok.mp hrun
    obtain ⟨hparts, rfl⟩ := change_lift_eq_ok.mp hlift
    obtain ⟨builder, hbuild, rfl⟩ := Session.build_eq_ok.mp hrun
    exact ⟨count, store, parts, builder, hcount, hzero, hstore, hparts, hbuild, rfl⟩
  · rintro ⟨count, store, parts, builder, hcount, hzero, hstore, hparts, hbuild, rfl⟩
    rw [lowered_run hstore settings hcount (Nat.pos_of_ne_zero hzero), hparts]
    exact Session.build_eq_ok.mpr ⟨builder, hbuild, rfl⟩

/-- Lowering notes at which revision it found the store. -/
theorem lower_eq_ok : view.lower settings workspace = .ok (value, lowered) workspace' ↔
    view.lowered settings workspace = .ok value workspace' ∧
      ∃ store, workspace'.store view.store = .ok store ∧
        lowered = { view with loweredAt := some store.revision } := by
  constructor
  · intro hrun
    obtain ⟨result, middle, hlowered, hrest⟩ := change_bind_eq_ok.mp hrun
    obtain ⟨_, _, hget, hrest⟩ := change_bind_eq_ok.mp hrest
    obtain ⟨rfl, rfl⟩ := change_get_eq_ok.mp hget
    obtain ⟨store, _, hlift, hrest⟩ := change_bind_eq_ok.mp hrest
    obtain ⟨hstore, rfl⟩ := change_lift_checked_eq_ok.mp hlift
    obtain ⟨hresult, rfl⟩ := change_pure_eq_ok.mp hrest
    cases hresult
    exact ⟨hlowered, store, hstore, rfl⟩
  · rintro ⟨hlowered, store, hstore, rfl⟩
    exact lower_of_lowered settings hlowered hstore

/-- What a lowered array carries, in terms of its elements as they were. -/
theorem carries_of_lower (hsound : workspace.Sound) (h : view.Sound workspace)
    (hrun : view.lower settings workspace = .ok (value, lowered) workspace') :
    workspace.builder.Grows workspace'.builder ∧ ∃ store ranges pieces,
      workspace.store view.store = .ok store ∧ view.elements store = .ok ranges ∧
      view.count = .ok ranges.length ∧ (∀ range ∈ ranges, range.width = view.elemType.width) ∧
      List.Forall₂ workspace.builder.Backs ranges pieces ∧
      workspace'.builder.Carries value pieces.flatten := by
  have hlowered := (lower_eq_ok.mp hrun).1
  have hyields := yields_lowered hsound h settings
  obtain ⟨store, ranges, pieces, hstore, hranges, hcount, hwidths, hpieces, hcarries, -⟩ :=
    hyields.answer hlowered
  exact ⟨(hyields.extends_ok hlowered).builder, store, ranges, pieces, hstore, hranges, hcount, hwidths,
    hpieces, hcarries⟩

/-- Lowering builds in the netlist and leaves the stores alone. -/
theorem builder_of_lower (hrun : view.lower settings workspace = .ok (value, lowered) workspace') :
    ∃ parts builder, view.build settings parts workspace.builder = .ok value builder ∧
      workspace' = { workspace with builder := builder } := by
  obtain ⟨-, -, parts, builder, -, -, -, -, hbuild, hworkspace⟩ := lowered_eq_ok.mp (lower_eq_ok.mp hrun).1
  exact ⟨parts, builder, hbuild, hworkspace⟩

/-- **Relations.** What cells and wires keep is kept by what a lowering builds. -/
theorem keeps_build {R : Builder → Builder → Prop} [Std.Refl R] [IsTrans Builder R]
    (hcell : ∀ operation inputs width,
      Keeps R (do Build.addCell operation inputs (← Build.bitsType width) none))
    (hbarrier : ∀ name stem value, Keeps R (barrier name stem value)) (view : ArrayView)
    (settings : Settings) (parts : List BitRange) : Keeps R (view.build settings parts) := by
  refine .bind (keeps_join_of_cells hcell parts) fun flat => ?_
  split
  · exact hbarrier _ _ _
  · exact .pure _

/-! ### Refusals -/

theorem neverRefuses_barrier (name : Option String) (stem : String) (source : Value) :
    NeverRefuses (barrier name stem source) := by
  cases name with
  | none => exact .bind (.of_ok fun _ => ⟨_, _, rfl⟩) fun _ => neverRefuses_addCell _ _ _ _
  | some name => exact .bind (neverRefuses_uniqueName name) fun _ => neverRefuses_addCell _ _ _ _

/-- Values that have bits can be joined, unless they are too many for a machine word, which is a fault. -/
private theorem not_refused_concat {builder builder' : Builder} {values : List Value} {cause : BuildError}
    (hpos : 0 < (values.map (·.width)).sum) :
    Build.concat values builder ≠ .error (.refused cause) builder' := by
  intro hrun
  cases htotal : Build.totalWidth 0 values with
  | error kind =>
    rw [Build.concat, htotal] at hrun
    cases hrun
  | ok total =>
    obtain ⟨hsum, -⟩ := totalWidth_eq_ok (by decide) htotal
    have hne : ¬total = 0 := by omega
    rw [Build.concat, htotal] at hrun
    change (if total = 0 then _ else _ : Build Value) builder = _ at hrun
    rw [if_neg hne] at hrun
    exact neverRefuses_typedCell _ _ _ _ _ _ hrun

/-- Parts that lie within their sources can be joined, if they are not too many. -/
theorem not_refused_join {builder builder' : Builder} {parts : List BitRange}
    {pieces : List (List BitOrigin)} {cause : BuildError} (hsound : builder.Sound)
    (h : List.Forall₂ builder.Backs parts pieces) (hpos : ∀ part ∈ parts, 0 < part.width)
    (hbits : 0 < pieces.flatten.length) : join parts builder ≠ .error (.refused cause) builder' := by
  intro hrun
  obtain ⟨values, middle, hmapM, hgrows, hvalues⟩ := Builder.mapM_materialize_carries hsound
    (List.forall₂_reverse_iff.mpr h) fun part hmem => hpos part (List.mem_reverse.mp hmem)
  have hsum : (values.map (·.width)).sum = pieces.flatten.length := by
    rw [← length_flatten_reverse, sum_width hvalues]
  by_cases hone : values.length = 1
  · obtain ⟨single, rfl⟩ := List.length_eq_one_iff.mp hone
    cases (join_single hmapM).symm.trans hrun
  · exact not_refused_concat (by omega) ((join_several hmapM hone).symm.trans hrun)

/-- A netlist in which the parts lie within their sources takes the array, if it is not too large. -/
theorem not_refused_build {builder builder' : Builder} {parts : List BitRange}
    {pieces : List (List BitOrigin)} {cause : BuildError} (hsound : builder.Sound)
    (h : List.Forall₂ builder.Backs parts pieces) (hpos : ∀ part ∈ parts, 0 < part.width)
    (hbits : 0 < pieces.flatten.length) (view : ArrayView) (settings : Settings) :
    view.build settings parts builder ≠ .error (.refused cause) builder' := by
  intro hrun
  rcases change_bind_eq_refused.mp hrun with hjoin | ⟨flat, middle, -, hrest⟩
  · exact not_refused_join hsound h hpos hbits hjoin
  · change (if settings.createWire then _ else _ : Build Value) middle = _ at hrest
    split at hrest
    · exact neverRefuses_barrier _ _ _ _ _ _ hrest
    · cases hrest

/-- An array is refused for want of elements or at a gap, before anything is built. -/
theorem Fits.refused_cases {store : Store} {cause : ArrayError} (hsound : workspace.Sound) (h : view.Fits store)
    (hstore : workspace.store view.store = .ok store)
    (hrun : view.lower settings workspace = .error (.refused cause) workspace') :
    workspace' = workspace ∧ (cause = .shape .nothingToLower ∨ ∃ offset, cause = .unset offset) := by
  have hstoreSound := hsound.stores hstore
  cases hcount : view.count with
  | error kind =>
    have hlowered : view.lowered settings workspace = .error (.fault kind) workspace := by
      rw [lowered, hcount]
      rfl
    cases hrun.symm.trans (lower_of_error settings hlowered)
  | ok count =>
    rcases Nat.eq_zero_or_pos count with rfl | hpos
    · cases hrun.symm.trans (lower_of_empty settings hcount)
      exact ⟨rfl, .inl rfl⟩
    cases hfirst : (List.range view.shape.prod).find? (view.isGap store) with
    | some offset =>
      cases hrun.symm.trans (lower_of_gap hsound h hstore settings hcount hpos hfirst)
      exact ⟨rfl, .inr ⟨offset, rfl⟩⟩
    | none =>
      exfalso
      obtain ⟨ranges, hranges⟩ := exists_elements hsound h hstoreSound hcount hfirst
      obtain ⟨parts, hparts⟩ := exists_parts hsound h hstoreSound hcount settings.coalesce hranges
      obtain ⟨merged, hmerged, hwidths, hlength⟩ := bits_of_parts hsound h hstoreSound hcount hpos hparts
      have hbits : 0 < merged.flatten.length := by
        rw [hlength]
        exact Nat.mul_pos hpos view.elemType.width_pos
      rcases change_bind_eq_refused.mp hrun with hlowered | ⟨value, middle, -, hnote⟩
      · rw [lowered_run hstore settings hcount hpos, hparts] at hlowered
        change Session.build (view.build settings parts) workspace = _ at hlowered
        obtain ⟨refusal, builder, -, hbuild, -⟩ := Session.exists_of_build_refused hlowered
        exact not_refused_build hsound.builder hmerged hwidths hbits view settings hbuild
      · -- to look the store up once more, for the note, is not refused
        have hnever : NeverRefuses (do
            let store ← middle.store view.store
            return (value, { view with loweredAt := some store.revision }) : Session (Value × ArrayView)) :=
          .bind (.lift_checked _) fun _ => .of_ok fun _ => ⟨_, _, rfl⟩
        exact hnever _ _ _ hnote

/-- **Refusals.** An array that cannot be lowered leaves everything as it was. -/
theorem unchanged_of_refused {cause : ArrayError} (hsound : workspace.Sound) (h : view.Sound workspace)
    (hrun : view.lower settings workspace = .error (.refused cause) workspace') :
    workspace' = workspace := by
  obtain ⟨store, hstore, hfits⟩ := h
  exact (hfits.refused_cases hsound hstore hrun).1

end ArrayView

end NetArray
