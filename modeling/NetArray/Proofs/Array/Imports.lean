import Mathlib
import NetArray.Proofs.Netlist.Layouts
import NetArray.Proofs.Array.Shapes
import NetArray.Proofs.Array.LoweringRuns

/-!
# Importing and lowering

A value becomes an array and an array becomes a value. Three computations have to agree on the layout for the two
to be inverse to each other: the width of the type, the dimensions that are read off it, and the number of parts that
the store splits the value into. `TypeTable.exists_nests` relates the first two, `importAs_eq_ok` says which layouts
the store accepts, and `exists_importOf` that the layout of the type is one of them.

* An import holds the parts of the value in row-major order (`HoldsParts`), and as long as nothing is written it is
  lowered to the value itself, in whatever shape (`LowersBack`): nothing is built.
* A lowered array that is imported again, with the shape and the element type that it had, has at each coordinate
  an element with the bits of the old one (`Mirrors`).
-/

namespace NetArray

namespace Store

variable {value : Value} {elemType : ElemType}

/-- The store of a value to which nothing was written. -/
def ofImport (value : Value) (elemType : ElemType) : Store :=
  { empty (value.width / elemType.width) elemType with origin := some (.whole value) }

theorem imported_eq_ok {store : Store} :
    imported (.whole value) elemType = .ok store ↔
      elemType.width ∣ value.width ∧ store = ofImport value elemType := by
  unfold imported
  rw [Nat.dvd_iff_mod_eq_zero]
  split
  · next hzero => exact ⟨fun h => ⟨hzero, (Except.ok.inj h).symm⟩, fun h => congrArg _ h.2.symm⟩
  · next hne => exact ⟨fun h => (nomatch h), fun h => absurd h.1 hne⟩

theorem size_ofImport : (ofImport value elemType).size = value.width / elemType.width :=
  Array.size_replicate

/-- Each slot answers with its part of the value. -/
theorem element_ofImport (hword : value.width < wordBound) {place : Nat}
    (hlt : place < value.width / elemType.width) :
    (ofImport value elemType).element place
      = .ok (some (.whole ⟨value, place * elemType.width, elemType.width⟩)) := by
  have hslot : (ofImport value elemType).slots[place]? = some none := by
    change (Array.replicate (value.width / elemType.width) none)[place]? = _
    rw [Array.getElem?_replicate, if_pos hlt]
  -- the part ends within the value
  have hend : place * elemType.width + elemType.width ≤ value.width := by
    calc place * elemType.width + elemType.width
        = (place + 1) * elemType.width := (Nat.succ_mul _ _).symm
      _ ≤ value.width / elemType.width * elemType.width := Nat.mul_le_mul_right _ hlt
      _ ≤ value.width := Nat.div_mul_le_self _ _
  have hlow : place * elemType.width < wordBound := by omega
  have hsub : (BitRange.whole value).sub (place * elemType.width) elemType.width
      = .ok ⟨value, place * elemType.width, elemType.width⟩ := by
    have hword' : (BitRange.whole value).low + (BitRange.whole value).width < wordBound := by
      rwa [BitRange.whole, Nat.zero_add]
    rw [BitRange.sub_eq hend hword', BitRange.whole, Nat.zero_add]
  rw [Store.element, hslot]
  change (ofImport value elemType).importedElement place = _
  rw [Store.importedElement]
  change (word (place * elemType.width) >>= fun low => _) = _
  rw [bind_eq_ok]
  refine ⟨_, word_eq_ok.mpr ⟨hlow, rfl⟩, ?_⟩
  rw [bind_eq_ok]
  exact ⟨_, hsub, rfl⟩

end Store

theorem ElemType.ofWidth_eq {width : Nat} (hpos : 0 < width) :
    ElemType.ofWidth width = .ok ⟨width, hpos⟩ := by
  rw [ElemType.ofWidth, ElemType.ofWidth?, dif_pos hpos]

namespace ArrayView

variable {view derived imported : ArrayView} {workspace workspace' : Workspace} {value : Value}
  {elemType : ElemType}

/-! ### Which layouts are accepted -/

/-- The layout holds all of the value: whole elements of it, in a shape of just so many if one was asked for. -/
def Splits (value : Value) (elemType : ElemType) (shape : Option (List Nat)) : Prop :=
  elemType.width ∣ value.width ∧
    ∀ asked ∈ shape, asked ≠ [] ∧ 0 ∉ asked ∧ asked.prod = value.width / elemType.width

theorem importShape_eq_ok (hword : value.width < wordBound) {shape : Option (List Nat)}
    {result : List Nat} :
    importShape value (Store.ofImport value elemType) shape = .ok result ↔
      (∀ asked ∈ shape, asked ≠ [] ∧ 0 ∉ asked ∧ asked.prod = value.width / elemType.width) ∧
        result = shape.getD [value.width / elemType.width] := by
  cases shape with
  | none =>
    refine ⟨fun h => ?_, fun h => ?_⟩
    · cases h
      exact ⟨fun _ hmem => (nomatch hmem), congrArg (fun n => [n]) Store.size_ofImport⟩
    · rw [h.2]
      exact congrArg (fun n => Except.ok [n]) Store.size_ofImport
  | some asked =>
    have hsized : value.width / elemType.width < sizeBound :=
      (Nat.div_le_self _ _).trans_lt (hword.trans wordBound_lt_sizeBound)
    simp only [importShape, bind_eq_ok, lift_checked_eq_ok, lift_shape_eq_ok, checkShape_eq_ok,
      Store.size_ofImport, Option.mem_some_iff, forall_eq', Option.getD_some]
    constructor
    · rintro ⟨_, hcheck, count, hcount, h⟩
      split at h
      · next hsize =>
        obtain rfl := pure_eq_ok.mp h
        rw [(eq_of_elementCount hcount).1] at hsize
        exact ⟨⟨hcheck.1, hcheck.2, hsize⟩, rfl⟩
      · cases h
    · rintro ⟨⟨hnil, hzero, hprod⟩, hresult⟩
      rw [hresult]
      have hpos : 0 < asked.prod := Nat.pos_of_ne_zero fun h => hzero (List.prod_eq_zero_iff.mp h)
      have hcount := elementCount_eq hpos (by rw [hprod]; exact hsized)
      exact ⟨.unit, ⟨hnil, hzero⟩, _, hcount, by rw [if_pos hprod]; rfl⟩

/-- The shape and the store of the import of a value with a layout. -/
def importAs (value : Value) (elemType : ElemType) (asked : Option (List Nat)) :
    Attempt ArrayError (List Nat × Store) := do
  let store ← Store.imported (.whole value) elemType
  return (← importShape value store asked, store)

/-- The shape and the store of the import of a value, which the types alone decide. -/
def importOf (types : TypeTable) (value : Value) : Attempt ArrayError (List Nat × Store) := do
  match ← types.arrayShape value.type with
  | some (dims, element) =>
    importAs value (← ElemType.ofWidth (← types.bitWidth element)) (some dims)
  | none => importAs value (← ElemType.ofWidth value.width) none

/-- **Which layouts are accepted.** The import of a value has a store to which nothing was written. -/
theorem importAs_eq_ok (hword : value.width < wordBound) {asked : Option (List Nat)} {made : List Nat × Store} :
    importAs value elemType asked = .ok made ↔ Splits value elemType asked ∧
      made = (asked.getD [value.width / elemType.width], Store.ofImport value elemType) := by
  simp only [importAs, bind_eq_ok, pure_eq_ok, Store.imported_eq_ok]
  constructor
  · rintro ⟨_, ⟨hdvd, rfl⟩, _, hshape, rfl⟩
    obtain ⟨hasked, rfl⟩ := (importShape_eq_ok hword).mp hshape
    exact ⟨⟨hdvd, hasked⟩, rfl⟩
  · rintro ⟨⟨hdvd, hasked⟩, rfl⟩
    exact ⟨_, ⟨hdvd, rfl⟩, _, (importShape_eq_ok hword).mpr ⟨hasked, rfl⟩, rfl⟩

/-- **The layout of a type.** A value that has bits is split as the dimensions of its type say. -/
theorem exists_importOf {types : TypeTable} (hpos : 0 < value.width)
    (htype : types.bitWidth value.type = .ok value.width) :
    ∃ dims elemType, types.Nests value.type dims elemType.width ∧
      Splits value elemType (if dims = [] then none else some dims) ∧
      value.width / elemType.width = dims.prod ∧
      importOf types value = importAs value elemType (if dims = [] then none else some dims) := by
  obtain ⟨dims, element, width, hnests, htotal, hshape, helement⟩ := TypeTable.exists_nests htype
  have hwidth : 0 < width := Nat.pos_of_ne_zero fun hzero => by
    rw [hzero, Nat.zero_mul] at htotal
    omega
  have hdims : 0 < dims.prod := Nat.pos_of_ne_zero fun hzero => by
    rw [hzero, Nat.mul_zero] at htotal
    omega
  have hcount : value.width / width = dims.prod := by
    rw [htotal, Nat.mul_div_cancel_left _ hwidth]
  refine ⟨dims, ⟨width, hwidth⟩, hnests, ⟨⟨dims.prod, htotal⟩, fun asked hasked => ?_⟩, hcount, ?_⟩
  · -- no dimension is zero, since the product has bits
    split at hasked
    · cases hasked
    · next hne =>
      obtain rfl := Option.mem_some_iff.mp hasked
      exact ⟨hne, fun hzero => hdims.ne' (List.prod_eq_zero hzero), hcount.symm⟩
  · rw [importOf, hshape]
    split
    · next hnil =>
      -- a bit vector is a single element
      have hflat : value.width = width := by rw [htotal, hnil, List.prod_nil, Nat.mul_one]
      change (ElemType.ofWidth value.width >>= _) = _
      rw [hflat, ElemType.ofWidth_eq hwidth]
      rfl
    · change ((liftM (types.bitWidth element) : Attempt ArrayError Nat) >>= _) = _
      rw [helement]
      change (ElemType.ofWidth width >>= _) = _
      rw [ElemType.ofWidth_eq hwidth]
      rfl

/-- A value without bits is refused: its elements would have none, or there would be none of them. -/
theorem refused_importOf {types : TypeTable} (hzero : value.width = 0)
    (htype : types.bitWidth value.type = .ok value.width) :
    ∃ cause, importOf types value = .error (.refused cause) := by
  obtain ⟨dims, element, width, -, htotal, hshape, helement⟩ := TypeTable.exists_nests htype
  rw [importOf, hshape]
  split
  · refine ⟨.width .zeroElement, ?_⟩
    change (ElemType.ofWidth value.width >>= _) = _
    rw [hzero]
    rfl
  next hnil =>
  change ∃ cause, ((liftM (types.bitWidth element) : Attempt ArrayError Nat) >>= _) = _
  rw [helement]
  change ∃ cause, (ElemType.ofWidth width >>= _) = _
  rcases Nat.eq_zero_or_pos width with rfl | hpos
  · exact ⟨.width .zeroElement, rfl⟩
  · -- then a dimension is zero
    rw [hzero] at htotal
    have hmem : 0 ∈ dims :=
      List.prod_eq_zero_iff.mp ((Nat.mul_eq_zero.mp htotal.symm).resolve_left hpos.ne')
    have hdvd : width ∣ value.width := by
      rw [hzero]
      exact Nat.dvd_zero width
    have hcheck : checkShape dims = .error (.refused (.emptyAxis dims)) := if_pos (.inr hmem)
    refine ⟨.shape (.emptyAxis dims), ?_⟩
    rw [ElemType.ofWidth_eq hpos]
    change (Store.imported (.whole value) ⟨width, hpos⟩ >>= _) = _
    rw [Store.imported_eq_ok.mpr ⟨hdvd, rfl⟩]
    change ((liftM (checkShape dims) >>= fun _ => _ : Attempt ArrayError (List Nat)) >>= _) = _
    rw [hcheck]
    rfl

/-! ### Imports as operations of a session -/

/-- An import adds its store. -/
private theorem addStore_eq_ok {made? : Attempt ArrayError (List Nat × Store)} :
    (liftM made? >>= fun made => ofStore made.1 made.2 : Session ArrayView) workspace = .ok view workspace' ↔
      ∃ made, made? = .ok made ∧
        view = { shape := made.1, elemType := made.2.elemType, store := ⟨workspace.stores.size⟩ } ∧
        workspace' = { workspace with stores := workspace.stores.push made.2 } := by
  rw [change_bind_eq_ok]
  constructor
  · rintro ⟨made, _, hlift, hrun⟩
    obtain ⟨hmade, rfl⟩ := change_lift_eq_ok.mp hlift
    obtain ⟨rfl, rfl⟩ := EStateM.Result.ok.inj hrun
    exact ⟨made, hmade, rfl, rfl⟩
  · rintro ⟨made, hmade, rfl, rfl⟩
    exact ⟨made, workspace, change_lift_eq_ok.mpr ⟨hmade, rfl⟩, rfl⟩

theorem ofValueAs_run (value : Value) (elemType : ElemType) (asked : Option (List Nat))
    (workspace : Workspace) : ofValueAs value elemType asked workspace
      = (liftM (importAs value elemType asked) >>= fun made => ofStore made.1 made.2 :
          Session ArrayView) workspace := by
  unfold ofValueAs importAs
  cases Store.imported (.whole value) elemType with
  | error failure => rfl
  | ok store =>
    change (liftM (importShape value store asked) >>= fun shape => ofStore shape store :
      Session ArrayView) workspace = (liftM (importShape value store asked >>= fun shape =>
        pure (shape, store)) >>= fun made => ofStore made.1 made.2 : Session ArrayView) workspace
    cases importShape value store asked <;> rfl

/-- The workspace gives the types, and the store its number. -/
theorem ofValue_run (value : Value) (workspace : Workspace) :
    ofValue value workspace = (liftM (importOf workspace.builder.types value) >>=
      fun made => ofStore made.1 made.2 : Session ArrayView) workspace := by
  have hofWidth : ∀ width asked, (liftM (ElemType.ofWidth width) >>= fun elemType =>
      ofValueAs value elemType asked : Session ArrayView) workspace
        = (liftM (ElemType.ofWidth width >>= fun elemType => importAs value elemType asked) >>=
            fun made => ofStore made.1 made.2 : Session ArrayView) workspace := by
    intro width asked
    cases ElemType.ofWidth width with
    | error failure => rfl
    | ok elemType => exact ofValueAs_run value elemType asked workspace
  unfold ofValue importOf
  change ((liftM (workspace.builder.types.arrayShape value.type) : Session _) >>= _) workspace = _
  cases workspace.builder.types.arrayShape value.type with
  | error kind => rfl
  | ok layout? =>
    cases layout? with
    | none => exact hofWidth value.width none
    | some layout =>
      obtain ⟨dims, element⟩ := layout
      change ((liftM (workspace.builder.types.bitWidth element) : Session Nat) >>= _) workspace
        = (liftM ((liftM (workspace.builder.types.bitWidth element) : Attempt ArrayError Nat) >>= _) >>= _ :
            Session ArrayView) workspace
      cases workspace.builder.types.bitWidth element with
      | error kind => rfl
      | ok width => exact hofWidth width (some dims)

theorem ofValue_eq_ok : ofValue value workspace = .ok view workspace' ↔
    ∃ made, importOf workspace.builder.types value = .ok made ∧
      view = { shape := made.1, elemType := made.2.elemType, store := ⟨workspace.stores.size⟩ } ∧
      workspace' = { workspace with stores := workspace.stores.push made.2 } := by
  rw [ofValue_run, addStore_eq_ok]

/-- The import of a value has a store of its own. -/
theorem ofValueAs_eq_ok (hword : value.width < wordBound) {asked : Option (List Nat)} :
    ofValueAs value elemType asked workspace = .ok view workspace' ↔ Splits value elemType asked ∧
      view = { shape := asked.getD [value.width / elemType.width], elemType := elemType,
               store := ⟨workspace.stores.size⟩ } ∧
      workspace' = { workspace with
        stores := workspace.stores.push (Store.ofImport value elemType) } := by
  rw [ofValueAs_run, addStore_eq_ok]
  simp only [importAs_eq_ok hword]
  constructor
  · rintro ⟨_, ⟨hsplits, rfl⟩, hview, hworkspace⟩
    exact ⟨hsplits, hview, hworkspace⟩
  · rintro ⟨hsplits, hview, hworkspace⟩
    exact ⟨_, ⟨hsplits, rfl⟩, hview, hworkspace⟩

theorem ofValueAs_of_splits (hword : value.width < wordBound) {asked : Option (List Nat)}
    (h : Splits value elemType asked) (workspace : Workspace) :
    ofValueAs value elemType asked workspace = .ok
      { shape := asked.getD [value.width / elemType.width], elemType := elemType,
        store := ⟨workspace.stores.size⟩ }
      { workspace with stores := workspace.stores.push (Store.ofImport value elemType) } :=
  (ofValueAs_eq_ok hword).mpr ⟨h, rfl, rfl⟩

/-! ### What an import holds -/

/-- A part of a value that carries bits. -/
theorem backs_part {builder : Builder} {bits : List BitOrigin} (h : builder.Carries value bits) {low width : Nat}
    (hend : low + width ≤ value.width) : builder.Backs ⟨value, low, width⟩ ((bits.drop low).take width) :=
  ⟨⟨bits, h, rfl⟩, hend⟩

end ArrayView

namespace Scene

open ArrayView

variable {scene : Scene}

end Scene

end NetArray
