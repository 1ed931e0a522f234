import Mathlib
import NetArray.Proofs.Array.Views
import NetArray.Array.Lowering

/-!
# The bits of a lowered array

Lowering goes from the elements of an array to one value in three steps, each of which may take a shortcut:

* the elements become parts — all of them, or runs of neighbours merged, or the import as a whole
  (`parts_backs`);
* the parts become a value — a single part as it is, several through a concatenation (`carries_of_join`);
* the value may get a wire of its own (`carries_of_barrier`).

Parts are listed from the least significant one on, and a concatenation from the most significant one on, so
the parts are reversed before they are joined; the bits of a concatenation are reversed once more. Nothing is
left of it in the end: `yields_lowered` says that the value carries the bits of the elements, one after the
other, whatever the settings are.
-/

namespace NetArray

/-! ### Cutting a list in equal pieces -/

/-- Equal pieces of a list, joined again. -/
theorem flatten_pieces {α : Type} (items : List α) (width count : Nat) :
    ((List.range count).map fun number => (items.drop (number * width)).take width).flatten
      = items.take (count * width) := by
  induction count with
  | zero => rw [Nat.zero_mul, List.take_zero]; rfl
  | succ count ih =>
    rw [List.range_succ, List.map_append, List.flatten_append, ih, List.map_singleton,
      List.flatten_singleton, Nat.succ_mul, List.take_add]

namespace ArrayView

variable {view : ArrayView} {store : Store} {workspace : Workspace}

/-! ### From elements to parts -/

theorem require_eq_ok {offset : Nat} {range : BitRange} :
    view.require store offset = .ok range ↔ ∃ element,
      view.element store offset = .ok (some element) ∧ element.range = range := by
  rw [require, bind_eq_ok]
  constructor
  · rintro ⟨found, hfound, h⟩
    rw [lift_checked_eq_ok] at hfound
    cases found with
    | none => cases h
    | some element => exact ⟨element, hfound, pure_eq_ok.mp h⟩
  · rintro ⟨element, helement, rfl⟩
    exact ⟨some element, lift_checked_eq_ok.mpr helement, rfl⟩

theorem elements_eq_ok {count : Nat} (hcount : view.count = .ok count) {ranges : List BitRange} :
    view.elements store = .ok ranges ↔ List.Forall₂ (fun offset range => ∃ element,
      view.element store offset = .ok (some element) ∧ element.range = range)
        (List.range view.shape.prod) ranges := by
  rw [elements, bind_eq_ok]
  simp only [lift_checked_eq_ok, hcount, Except.ok.injEq, exists_eq_left', mapM_eq_ok, require_eq_ok]
  rw [(eq_of_elementCount hcount).1]

/-- The elements of a view lie within their sources and have the width of its type. -/
theorem Fits.elements (hbuilder : workspace.builder.Sound) (h : view.Fits store)
    (hstore : store.Sound workspace.builder) {count : Nat} (hcount : view.count = .ok count)
    {ranges : List BitRange} (hranges : view.elements store = .ok ranges) :
    ranges.length = view.shape.prod ∧ ∀ range ∈ ranges, range.width = view.elemType.width ∧
      workspace.builder.InRange range := by
  have hread := (elements_eq_ok hcount).mp hranges
  refine ⟨(forall₂_range hread).1, fun range hmem => ?_⟩
  obtain ⟨offset, -, element, helement, rfl⟩ := exists_of_forall₂_of_mem hread hmem
  exact h.element hbuilder hstore helement

/-- An untouched import answers for each of its slots. -/
theorem element_of_passThrough {origin : BitRange} (h : store.passThrough? = some origin)
    {offset : Nat} (hlt : offset < store.size) :
    store.origin = some origin ∧ store.element offset = store.importedElement offset := by
  rw [Store.passThrough?] at h
  split at h
  · next hall =>
    refine ⟨h, ?_⟩
    have hslot : store.slots[offset]? = some none := by
      rw [Array.getElem?_eq_getElem hlt]
      exact congrArg some (Option.isNone_iff_eq_none.mp (Array.all_eq_true.mp hall offset hlt))
    rw [Store.element, hslot]
  · cases h

/-- The elements of an untouched import are its pieces, one after the other. -/
theorem elements_of_passThrough (hsound : workspace.Sound) (h : view.Fits store)
    (hstore : store.Sound workspace.builder) {count : Nat} (hcount : view.count = .ok count)
    (hpos : 0 < count) {origin : BitRange} (horigin : view.passThrough? store = some origin) :
    view.elements store = .ok ((List.range view.shape.prod).map (Store.piece origin view.elemType.width)) ∧
      origin.width = view.shape.prod * view.elemType.width ∧ workspace.builder.InRange origin := by
  rw [ArrayView.passThrough?] at horigin
  split at horigin
  · next hmaps =>
    rw [List.isEmpty_iff] at hmaps
    -- nothing was selected, so the view covers the store
    have hfull : view.shape.prod = store.size := h.full fun table => by rw [hmaps]; exact nofun
    have hprod := (eq_of_elementCount hcount).1
    have hzero : 0 < store.size := by omega
    obtain ⟨horigin', -⟩ := element_of_passThrough horigin hzero
    obtain ⟨hin, hwidth⟩ := hstore.origin horigin'
    rw [← hfull, ← h.elemType] at hwidth
    refine ⟨?_, hwidth, hin⟩
    -- without maps, the element at an offset is that part of the import
    rw [elements_eq_ok hcount, List.forall₂_map_right_iff, List.forall₂_same]
    intro offset hoffset
    rw [List.mem_range, hfull] at hoffset
    obtain ⟨-, helement⟩ := element_of_passThrough horigin hoffset
    obtain ⟨himported, -⟩ := hstore.importedElement hsound.builder horigin' hoffset
    rw [← helement, ← h.elemType] at himported
    refine ⟨_, element_eq_ok.mpr ⟨offset, ?_, himported⟩, rfl⟩
    rw [storeOffset, hmaps]
    rfl
  · cases horigin

/-- **The import as a whole.** It has the bits of its elements, one after the other. -/
theorem passThrough_backs (hsound : workspace.Sound) (h : view.Fits store)
    (hstore : store.Sound workspace.builder) {count : Nat} (hcount : view.count = .ok count)
    (hpos : 0 < count) {origin : BitRange} (horigin : view.passThrough? store = some origin) :
    ∃ ranges pieces bits, view.elements store = .ok ranges ∧
      List.Forall₂ workspace.builder.Backs ranges pieces ∧ workspace.builder.Backs origin bits ∧
      bits = pieces.flatten ∧ 0 < origin.width := by
  obtain ⟨hranges, hwidth, bits, hbits⟩ := elements_of_passThrough hsound h hstore hcount hpos horigin
  refine ⟨_, (List.range view.shape.prod).map fun number =>
    (bits.drop (number * view.elemType.width)).take view.elemType.width, bits, hranges, ?_, hbits, ?_, ?_⟩
  · -- each element has its part of the bits of the import
    rw [List.forall₂_map_left_iff, List.forall₂_map_right_iff, List.forall₂_same]
    intro offset hoffset
    refine Store.backs_piece hsound.builder hbits ?_
    rw [hwidth, ← Nat.succ_mul]
    exact Nat.mul_le_mul_right _ (List.mem_range.mp hoffset)
  · -- and the parts are all of them
    rw [flatten_pieces, ← hwidth, ← hbits.length, List.take_length]
  · rw [hwidth, ← (eq_of_elementCount hcount).1]
    exact Nat.mul_pos hpos view.elemType.width_pos

/-- **From elements to parts.** Merged or not, the parts have the bits of the elements, one after the
other. -/
theorem parts_backs (hsound : workspace.Sound) (h : view.Fits store)
    (hstore : store.Sound workspace.builder) {count : Nat} (hcount : view.count = .ok count)
    (hpos : 0 < count) {coalesce : Bool} {parts : List BitRange}
    (hparts : view.parts store coalesce = .ok parts) :
    ∃ ranges pieces merged, view.elements store = .ok ranges ∧
      List.Forall₂ workspace.builder.Backs ranges pieces ∧
      List.Forall₂ workspace.builder.Backs parts merged ∧ merged.flatten = pieces.flatten ∧
      ∀ part ∈ parts, 0 < part.width := by
  -- what is known of the elements, before anything is merged
  have helements : ∀ {ranges}, view.elements store = .ok ranges →
      (∃ pieces, List.Forall₂ workspace.builder.Backs ranges pieces) ∧
        ∀ range ∈ ranges, 0 < range.width := by
    intro ranges hranges
    obtain ⟨-, hall⟩ := h.elements hsound.builder hstore hcount hranges
    refine ⟨exists_forall₂ fun range hmem => (hall range hmem).2, fun range hmem => ?_⟩
    rw [(hall range hmem).1]
    exact view.elemType.width_pos
  cases coalesce with
  | false =>
    obtain ⟨⟨pieces, hpieces⟩, hwidths⟩ := helements hparts
    exact ⟨parts, pieces, pieces, hparts, hpieces, hpieces, rfl, hwidths⟩
  | true =>
    rw [ArrayView.parts, if_pos rfl] at hparts
    cases horigin : view.passThrough? store with
    | some origin =>
      -- the shortcut: one part for the whole import
      rw [horigin] at hparts
      obtain rfl := pure_eq_ok.mp hparts
      obtain ⟨ranges, pieces, bits, hranges, hpieces, hbits, hflatten, hwidth⟩ :=
        passThrough_backs hsound h hstore hcount hpos horigin
      refine ⟨ranges, pieces, [bits], hranges, hpieces, .cons hbits .nil, ?_, ?_⟩
      · rw [List.flatten_singleton, hflatten]
      · exact List.forall_mem_singleton.mpr hwidth
    | none =>
      rw [horigin] at hparts
      obtain ⟨ranges, hranges, hcoalesce⟩ := bind_eq_ok.mp hparts
      obtain ⟨⟨pieces, hpieces⟩, hwidths⟩ := helements hranges
      rw [lift_checked_eq_ok] at hcoalesce
      obtain ⟨runs, merged, hruns, hmerged, hflatten⟩ := Builder.coalesce_backs hsound.builder hpieces
      obtain rfl := Except.ok.inj (hruns.symm.trans hcoalesce)
      exact ⟨ranges, pieces, merged, hranges, hpieces, hmerged, hflatten,
        Builder.coalesce_pos hwidths hcoalesce⟩

/-- The parts have together as many bits as the elements, and none of them is empty. -/
theorem bits_of_parts (hsound : workspace.Sound) (h : view.Fits store) (hstore : store.Sound workspace.builder)
    {count : Nat} (hcount : view.count = .ok count) (hpos : 0 < count) {coalesce : Bool} {parts : List BitRange}
    (hparts : view.parts store coalesce = .ok parts) :
    ∃ merged, List.Forall₂ workspace.builder.Backs parts merged ∧ (∀ part ∈ parts, 0 < part.width) ∧
      merged.flatten.length = count * view.elemType.width := by
  obtain ⟨ranges, pieces, merged, hranges, hpieces, hmerged, hflatten, hwidths⟩ :=
    parts_backs hsound h hstore hcount hpos hparts
  obtain ⟨hlength, hall⟩ := h.elements hsound.builder hstore hcount hranges
  refine ⟨merged, hmerged, hwidths, ?_⟩
  rw [hflatten, length_flatten_pieces hpieces fun range hmem => (hall range hmem).1, hlength,
    (eq_of_elementCount hcount).1]

/-! ### From parts to a value -/

variable {builder builder' : Builder} {value source : Value} {bits : List BitOrigin}

theorem keeps_join {parts : List BitRange} (hword : ∀ part ∈ parts, part.width < wordBound) :
    Keeps Builder.Grows (join parts) := by
  refine .bind (.mapM fun part hmem => ?_) fun values => ?_
  · exact Builder.keeps_materialize (hword part (List.mem_reverse.mp hmem))
  · split
    · exact .pure _
    · exact keeps_concat _

/-- A single part is its own value. -/
theorem join_single {parts : List BitRange} {single : Value}
    (hvalues : parts.reverse.mapM BitRange.materialize builder = .ok [single] builder') :
    join parts builder = .ok single builder' := by
  rw [join, change_bind, hvalues]
  rfl

/-- Several parts are concatenated. -/
theorem join_several {parts : List BitRange} {values : List Value} {middle : Builder}
    (hvalues : parts.reverse.mapM BitRange.materialize builder = .ok values middle) (hne : values.length ≠ 1) :
    join parts builder = Build.concat values middle := by
  rw [join, change_bind, hvalues]
  cases values with
  | nil => rfl
  | cons first rest =>
    cases rest with
    | nil => exact absurd rfl hne
    | cons _ _ => rfl

/-- **From parts to a value.** Both reversals cancel out. -/
theorem carries_of_join {parts : List BitRange} {pieces : List (List BitOrigin)}
    (hsound : builder.Sound) (h : List.Forall₂ builder.Backs parts pieces)
    (hpos : ∀ part ∈ parts, 0 < part.width) (hrun : join parts builder = .ok value builder') :
    builder'.Carries value pieces.flatten := by
  obtain ⟨values, middle, hmapM, hgrows, hvalues⟩ := Builder.mapM_materialize_carries hsound
    (List.forall₂_reverse_iff.mpr h) fun part hmem => hpos part (List.mem_reverse.mp hmem)
  rw [join, change_bind_eq_ok] at hrun
  obtain ⟨values', middle', hmapM', hrun⟩ := hrun
  obtain ⟨rfl, rfl⟩ := EStateM.Result.ok.inj (hmapM.symm.trans hmapM')
  split at hrun
  · -- a single part is its own value
    next single =>
    obtain ⟨rfl, rfl⟩ := change_pure_eq_ok.mp hrun
    obtain ⟨piece, rest, hsingle, hrest, hpieces⟩ := List.forall₂_cons_left_iff.mp hvalues
    obtain rfl := List.forall₂_nil_left_iff.mp hrest
    rw [List.reverse_eq_iff.mp hpieces, List.reverse_singleton, List.flatten_singleton]
    exact hsingle
  · -- the parts were reversed for the concatenation, which has its last operand in the low end
    have hcarries := carries_of_concat (hgrows.sound hsound) hvalues hrun
    rwa [List.reverse_reverse] at hcarries

theorem keeps_barrier (name : Option String) (stem : String) (value : Value) :
    Keeps Builder.Grows (barrier name stem value) := by
  cases name with
  | none => exact .bind (keeps_fresh _) fun ident => keeps_wire _ _
  | some name => exact .bind (keeps_uniqueName _) fun ident => keeps_wire _ _

/-- **The wire.** A value keeps its bits behind a wire. -/
theorem carries_of_barrier {name : Option String} {stem : String} (h : builder.Carries source bits)
    (hrun : barrier name stem source builder = .ok value builder') : builder'.Carries value bits := by
  -- whichever way the wire is named, the name leaves the value as it is
  have hwire : ∃ ident middle, builder.Grows middle ∧
      Build.wire ident source middle = .ok value builder' := by
    cases name with
    | none =>
      obtain ⟨ident, middle, hname, hwire⟩ := change_bind_eq_ok.mp hrun
      exact ⟨ident, middle, (keeps_fresh _).ok hname, hwire⟩
    | some name =>
      obtain ⟨ident, middle, hname, hwire⟩ := change_bind_eq_ok.mp hrun
      exact ⟨ident, middle, (keeps_uniqueName _).ok hname, hwire⟩
  obtain ⟨ident, middle, hgrows, hwire⟩ := hwire
  exact carries_of_run (carries_wire (h.mono hgrows)) hwire

/-- Joining adds slices and a concatenation, which have bits. -/
theorem grounded_join {parts : List BitRange} {pieces : List (List BitOrigin)} (hsound : builder.Sound)
    (hgrounded : builder.Grounded) (h : List.Forall₂ builder.Backs parts pieces)
    (hpos : ∀ part ∈ parts, 0 < part.width) : (finalState (join parts builder)).Grounded := by
  have hreverse := List.forall₂_reverse_iff.mpr h
  obtain ⟨values, middle, hmapM, hgrows, hvalues⟩ := Builder.mapM_materialize_carries hsound
    hreverse fun part hmem => hpos part (List.mem_reverse.mp hmem)
  have hslices := hgrounded.mapM_materialize hsound hreverse
  rw [hmapM] at hslices
  by_cases hone : values.length = 1
  · -- a single part is its own value
    obtain ⟨single, rfl⟩ := List.length_eq_one_iff.mp hone
    rw [join_single hmapM]
    exact hslices
  · rw [join_several hmapM hone]
    exact hslices.concat (hgrows.sound hsound) hvalues

/-- So does the wire. -/
theorem grounded_barrier (hgrounded : builder.Grounded) (name : Option String) (stem : String)
    (h : builder.Carries source bits) : (finalState (barrier name stem source builder)).Grounded := by
  cases name with
  | none =>
    have hgrows := keeps_fresh stem builder
    exact (hgrounded.of_signals_eq hgrows rfl).wire (h.mono hgrows)
  | some name =>
    have hgrows := keeps_uniqueName name builder
    obtain ⟨ident, names, hrun⟩ := uniqueName_run name builder
    rw [hrun] at hgrows
    rw [barrier, change_bind]
    simp only [hrun]
    exact (hgrounded.of_signals_eq hgrows rfl).wire (h.mono hgrows)

/-- What lowering makes of the parts. -/
private theorem yields_joined {parts : List BitRange} {pieces : List (List BitOrigin)}
    (hsound : workspace.Sound) (h : List.Forall₂ workspace.builder.Backs parts pieces)
    (hpos : ∀ part ∈ parts, 0 < part.width) (name : Option String) (settings : Settings) :
    Yields workspace (Session.build do
        let flat ← join parts
        if settings.createWire then barrier name settings.wireStem flat else return flat)
      fun value workspace' => workspace'.builder.Carries value pieces.flatten ∧
        workspace'.stores = workspace.stores where
  final := by
    refine Session.extends_build (.bind (keeps_join fun part hmem => ?_) fun flat => ?_) fun _ hgrounded => ?_
    · obtain ⟨piece, -, hpiece⟩ := exists_of_forall₂_of_mem (List.Forall₂.flip h) hmem
      exact (Nat.le_add_left _ _).trans_lt (Builder.Backs.source_lt hsound.builder hpiece)
    · split
      · exact keeps_barrier _ _ _
      · exact .pure _
    · have hjoined := grounded_join hsound.builder hgrounded h hpos
      refine finalState_bind hjoined fun flat middle hjoin => ?_
      rw [hjoin] at hjoined
      split
      · exact grounded_barrier hjoined _ _ (carries_of_join hsound.builder h hpos hjoin)
      · exact hjoined
  answer hrun := by
    obtain ⟨builder, hbuild, rfl⟩ := Session.build_eq_ok.mp hrun
    obtain ⟨flat, middle, hjoin, hrest⟩ := change_bind_eq_ok.mp hbuild
    have hflat := carries_of_join hsound.builder h hpos hjoin
    refine ⟨?_, rfl⟩
    split at hrest
    · exact carries_of_barrier hflat hrest
    · obtain ⟨rfl, rfl⟩ := change_pure_eq_ok.mp hrest
      exact hflat

/-- **Lowering.** The value carries the bits of the elements in row-major order, element 0 in the low end,
whatever the settings are. No store changes. -/
theorem yields_lowered (hsound : workspace.Sound) (h : view.Sound workspace) (settings : Settings) :
    Yields workspace (view.lowered settings) fun value workspace' =>
      ∃ store ranges pieces, workspace.store view.store = .ok store ∧
        view.elements store = .ok ranges ∧ view.count = .ok ranges.length ∧
        (∀ range ∈ ranges, range.width = view.elemType.width) ∧
        List.Forall₂ workspace.builder.Backs ranges pieces ∧
        workspace'.builder.Carries value pieces.flatten ∧ workspace'.stores = workspace.stores := by
  refine .lift_checked_bind fun count hcount => .guard fun hzero => .get_bind ?_
  refine .lift_checked_bind fun store hstore => .lift_bind fun parts hparts => ?_
  obtain ⟨store', hstore', hfits⟩ := h
  obtain rfl := Except.ok.inj (hstore.symm.trans hstore')
  have hstoreSound := hsound.stores hstore
  obtain ⟨ranges, pieces, merged, hranges, hpieces, hmerged, hflatten, hpos⟩ :=
    parts_backs hsound hfits hstoreSound hcount (Nat.pos_of_ne_zero hzero) hparts
  obtain ⟨hlength, hwidths⟩ := hfits.elements hsound.builder hstoreSound hcount hranges
  refine (yields_joined hsound hmerged hpos view.name settings).mono fun value workspace' _ hvalue => ?_
  rw [hflatten] at hvalue
  have hranges' : view.count = .ok ranges.length := by
    rw [hcount, hlength, (eq_of_elementCount hcount).1]
  exact ⟨store, ranges, pieces, hstore, hranges, hranges', fun range hmem => (hwidths range hmem).1,
    hpieces, hvalue.1, hvalue.2⟩

end ArrayView

end NetArray
