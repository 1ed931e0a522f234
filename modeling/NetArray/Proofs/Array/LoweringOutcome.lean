import Mathlib
import NetArray.Proofs.Array.Scenes
import NetArray.Proofs.Index.ElementCounts

/-!
# When lowering and reading fail

Lowering asks for the elements of an array three times, in three ways: it looks for an offset without an element,
it collects the elements, and for an untouched import it does neither. All three agree about which offsets have no
element, the *gaps* of the array:

* `firstUnset_eq` and `elements_eq_error` — the search and the collection both end at the first gap;
* `parts_eq_error` — so does lowering with its shortcut, for an untouched import has no gap.

Once there is no gap, nothing can fail any more (`lower_of_elements`): every range lies within its source, so the
slices can be cut, and the sum of the widths fits. A failure therefore comes before any cell is built, and leaves
everything as it was. `LowerOutcome` and `ReadOutcome` list what lowering and reading can come to, with the reason
for each; `Scene.fails_at_gaps` is what follows from the two lists.

All three count the elements first, and so none of them answers where that overflows (`lower_of_uncounted`). Then there
is no element, and no gap.
-/

namespace NetArray

/-- What a search through the numbers below a bound finds is the least one. -/
theorem find?_range_eq_some_iff {p : Nat → Bool} {bound place : Nat} :
    (List.range bound).find? p = some place ↔ IsLeast {place | place < bound ∧ p place} place := by
  rw [List.find?_range_eq_some]
  constructor
  · rintro ⟨hp, hmem, hbefore⟩
    refine ⟨⟨List.mem_range.mp hmem, hp⟩, fun other hother => ?_⟩
    -- a smaller one would have been found before
    by_contra hlt
    have hnone := hbefore other (Nat.lt_of_not_le hlt)
    rw [hother.2] at hnone
    cases hnone
  · rintro ⟨⟨hplace, hp⟩, hleast⟩
    refine ⟨hp, List.mem_range.mpr hplace, fun other hother => ?_⟩
    by_contra hother'
    have hp' : p other = true := by simpa using hother'
    exact absurd (hleast ⟨hother.trans hplace, hp'⟩) (Nat.not_le_of_lt hother)

namespace Store

variable {builder : Builder} {store : Store}

/-- A slot is set just when there is an element. -/
theorem Sound.isSet_eq (hbuilder : builder.Sound) (h : store.Sound builder) {slot : Nat}
    {found : Option Element} (hfound : store.element slot = .ok found) :
    store.isSet slot = found.isSome := by
  unfold Store.element at hfound
  unfold Store.isSet
  cases hslot : store.slots[slot]? with
  | none =>
    rw [hslot] at hfound
    cases hfound
    rfl
  | some held =>
    rw [hslot] at hfound
    cases held with
    | some element =>
      cases hfound
      exact Bool.or_true _
    | none =>
      -- what was not written is answered by the import, if there is one
      have himport : store.importedElement slot = .ok found := hfound
      cases horigin : store.origin with
      | none =>
        rw [Store.importedElement, horigin] at himport
        cases himport
        rfl
      | some origin =>
        obtain ⟨hlt, -⟩ := Array.getElem?_eq_some_iff.mp hslot
        obtain ⟨hok, -⟩ := h.importedElement hbuilder horigin hlt
        cases hok.symm.trans himport
        rfl

end Store

namespace ArrayView

/-- There is no element at the offset. -/
def isGap (view : ArrayView) (store : Store) (offset : Nat) : Bool :=
  view.element store offset = .ok none

/-- The offsets of the view without an element. -/
def gaps (view : ArrayView) (store : Store) : Set Nat :=
  {offset | offset < view.shape.prod ∧ view.isGap store offset}

variable {view : ArrayView} {store : Store} {workspace : Workspace} {offset count : Nat}

/-- There is no gap just when a search for one finds none. -/
theorem gaps_eq_empty_iff :
    view.gaps store = ∅ ↔ (List.range view.shape.prod).find? (view.isGap store) = none := by
  rw [Set.eq_empty_iff_forall_notMem, List.find?_eq_none]
  exact ⟨fun hno offset hmem hgap => hno offset ⟨List.mem_range.mp hmem, hgap⟩,
    fun hno offset hgap => hno offset (List.mem_range.mpr hgap.1) hgap.2⟩

/-! ### The three scans -/

section Scans

variable (hsound : workspace.Sound) (h : view.Fits store) (hstore : store.Sound workspace.builder)

include hsound h hstore

/-- An offset of the view has an element or is a gap, and `isSet` says which. -/
theorem Fits.element_cases (hoffset : offset < view.shape.prod) :
    (∃ element, view.element store offset = .ok (some element) ∧ view.isGap store offset = false ∧
      view.isSet store offset = .ok true) ∨
    view.element store offset = .ok none ∧ view.isGap store offset = true ∧
      view.isSet store offset = .ok false := by
  obtain ⟨slot, -, hslot⟩ := h.embeds.lands offset hoffset
  obtain ⟨found, hfound, -⟩ := hstore.element hsound.builder slot
  have helement : view.element store offset = .ok found := element_eq_ok.mpr ⟨slot, hslot, hfound⟩
  have hset : view.isSet store offset = .ok found.isSome := by
    rw [isSet, hslot, ← hstore.isSet_eq hsound.builder hfound]
    rfl
  cases found with
  | some element => exact .inl ⟨element, helement, by simp [isGap, helement], hset⟩
  | none => exact .inr ⟨helement, by simp [isGap, helement], hset⟩

theorem firstUnsetOf_eq {offsets : List Nat} (hlt : ∀ offset ∈ offsets, offset < view.shape.prod) :
    view.firstUnsetOf store offsets = .ok (offsets.find? (view.isGap store)) := by
  induction offsets with
  | nil => rfl
  | cons offset offsets ih =>
    obtain ⟨hhead, htail⟩ := List.forall_mem_cons.mp hlt
    rw [firstUnsetOf, List.find?_cons]
    rcases h.element_cases hsound hstore hhead with ⟨element, -, hgap, hset⟩ | ⟨-, hgap, hset⟩
    · rw [hgap, hset]
      exact ih htail
    · rw [hgap, hset]
      rfl

/-- Collecting elements ends at the first gap. -/
theorem mapM_require_eq_error {offsets : List Nat} (hlt : ∀ offset ∈ offsets, offset < view.shape.prod)
    (hfirst : offsets.find? (view.isGap store) = some offset) :
    offsets.mapM (view.require store) = .error (.refused (.unset offset)) := by
  induction offsets with
  | nil => cases hfirst
  | cons head offsets ih =>
    obtain ⟨hhead, htail⟩ := List.forall_mem_cons.mp hlt
    rw [List.find?_cons] at hfirst
    rw [List.mapM_cons, require]
    rcases h.element_cases hsound hstore hhead with ⟨element, helement, hgap, -⟩ | ⟨helement, hgap, -⟩
    · rw [hgap] at hfirst
      rw [helement]
      change (offsets.mapM (view.require store) >>= _) = _
      rw [ih htail hfirst]
      rfl
    · rw [hgap] at hfirst
      cases hfirst
      rw [helement]
      rfl

/-- Without a gap, the elements are collected. -/
theorem exists_mapM_require {offsets : List Nat} (hlt : ∀ offset ∈ offsets, offset < view.shape.prod)
    (hnone : offsets.find? (view.isGap store) = none) :
    ∃ ranges, offsets.mapM (view.require store) = .ok ranges := by
  simp only [mapM_eq_ok]
  refine exists_forall₂ fun offset hoffset => ?_
  have hgap : view.isGap store offset = false := by
    simpa using List.find?_eq_none.mp hnone offset hoffset
  rcases h.element_cases hsound hstore (hlt offset hoffset) with ⟨element, helement, -⟩ | ⟨-, hgap', -⟩
  · exact ⟨element.range, require_eq_ok.mpr ⟨element, helement, rfl⟩⟩
  · rw [hgap'] at hgap
    cases hgap

/-- **The search.** It finds the first gap. -/
theorem firstUnset_eq (hcount : view.count = .ok count) :
    view.firstUnset store = .ok ((List.range view.shape.prod).find? (view.isGap store)) := by
  rw [firstUnset, hcount, (eq_of_elementCount hcount).1]
  exact firstUnsetOf_eq hsound h hstore fun offset hoffset => List.mem_range.mp hoffset

/-- **The collection.** It fails at the first gap. -/
theorem elements_eq_error (hcount : view.count = .ok count)
    (hfirst : (List.range view.shape.prod).find? (view.isGap store) = some offset) :
    view.elements store = .error (.refused (.unset offset)) := by
  rw [elements, hcount, (eq_of_elementCount hcount).1]
  exact mapM_require_eq_error hsound h hstore (fun offset hoffset => List.mem_range.mp hoffset) hfirst

theorem exists_elements (hcount : view.count = .ok count)
    (hnone : (List.range view.shape.prod).find? (view.isGap store) = none) :
    ∃ ranges, view.elements store = .ok ranges := by
  rw [elements, hcount, (eq_of_elementCount hcount).1]
  exact exists_mapM_require hsound h hstore (fun offset hoffset => List.mem_range.mp hoffset) hnone

/-- The collection fails at the first gap and nowhere else. -/
theorem elements_eq_error_iff (hcount : view.count = .ok count) :
    view.elements store = .error (.refused (.unset offset)) ↔ IsLeast (view.gaps store) offset := by
  constructor
  · intro herror
    cases hfirst : (List.range view.shape.prod).find? (view.isGap store) with
    | none =>
      obtain ⟨ranges, hranges⟩ := exists_elements hsound h hstore hcount hfirst
      cases herror.symm.trans hranges
    | some first =>
      cases herror.symm.trans (elements_eq_error hsound h hstore hcount hfirst)
      exact find?_range_eq_some_iff.mp hfirst
  · intro hleast
    exact elements_eq_error hsound h hstore hcount (find?_range_eq_some_iff.mpr hleast)

/-- Elements are collected just when there is no gap. -/
theorem elements_eq_ok_iff (hcount : view.count = .ok count) :
    (∃ ranges, view.elements store = .ok ranges) ↔ view.gaps store = ∅ := by
  rw [gaps_eq_empty_iff]
  constructor
  · rintro ⟨ranges, hranges⟩
    cases hfirst : (List.range view.shape.prod).find? (view.isGap store) with
    | none => rfl
    | some gap => cases hranges.symm.trans (elements_eq_error hsound h hstore hcount hfirst)
  · exact exists_elements hsound h hstore hcount

/-- A gap shows in the parts too: an untouched import has none. -/
theorem parts_eq_error (hcount : view.count = .ok count) {coalesce : Bool}
    (hfirst : (List.range view.shape.prod).find? (view.isGap store) = some offset) :
    view.parts store coalesce = .error (.refused (.unset offset)) := by
  have helements := elements_eq_error hsound h hstore hcount hfirst
  cases coalesce with
  | false => exact helements
  | true =>
    rw [ArrayView.parts, if_pos rfl]
    cases horigin : view.passThrough? store with
    | none =>
      change (view.elements store >>= _) = _
      rw [helements]
      rfl
    | some origin =>
      -- the elements of an untouched import could all be collected
      have hpos : 0 < count := by
        have hoffset := List.mem_range.mp (List.mem_of_find?_eq_some hfirst)
        rw [(eq_of_elementCount hcount).1]
        exact (Nat.zero_le _).trans_lt hoffset
      obtain ⟨_, _, _, hranges, -⟩ := passThrough_backs hsound h hstore hcount hpos horigin
      rw [helements] at hranges
      cases hranges

/-- Elements that were collected can be merged. -/
theorem exists_parts (hcount : view.count = .ok count) (coalesce : Bool) {ranges : List BitRange}
    (hranges : view.elements store = .ok ranges) :
    ∃ parts, view.parts store coalesce = .ok parts := by
  cases coalesce with
  | false => exact ⟨ranges, hranges⟩
  | true =>
    rw [ArrayView.parts, if_pos rfl]
    cases view.passThrough? store with
    | some origin => exact ⟨[origin], rfl⟩
    | none =>
      obtain ⟨-, hall⟩ := h.elements hsound.builder hstore hcount hranges
      obtain ⟨pieces, hpieces⟩ := exists_forall₂ fun range hmem => (hall range hmem).2
      obtain ⟨runs, -, hruns, -⟩ := Builder.coalesce_backs hsound.builder hpieces
      refine ⟨runs, bind_eq_ok.mpr ⟨ranges, hranges, ?_⟩⟩
      exact lift_checked_eq_ok.mpr hruns

end Scans

/-! ### Elements that cannot be counted -/

section Uncounted

variable {kind : Fault} (hcount : view.count = .error kind)

include hcount

theorem firstUnset_of_uncounted (store : Store) : view.firstUnset store = .error kind := by
  rw [firstUnset, hcount]
  rfl

theorem elements_of_uncounted (store : Store) : view.elements store = .error (.fault kind) := by
  rw [elements, hcount]
  rfl

end Uncounted

/-! ### Building cannot fail -/

variable {builder : Builder}

/-- Parts that lie within their sources, and are not too many, can be joined. -/
theorem exists_join {parts : List BitRange} {pieces : List (List BitOrigin)} (hsound : builder.Sound)
    (h : List.Forall₂ builder.Backs parts pieces) (hpos : ∀ part ∈ parts, 0 < part.width)
    (hbits : 0 < pieces.flatten.length) (hword : pieces.flatten.length < wordBound) :
    ∃ value builder', join parts builder = .ok value builder' := by
  obtain ⟨values, middle, hmapM, hgrows, hvalues⟩ := Builder.mapM_materialize_carries hsound
    (List.forall₂_reverse_iff.mpr h) fun part hmem => hpos part (List.mem_reverse.mp hmem)
  by_cases hone : values.length = 1
  · obtain ⟨single, rfl⟩ := List.length_eq_one_iff.mp hone
    exact ⟨single, middle, join_single hmapM⟩
  · rw [← length_flatten_reverse] at hbits hword
    obtain ⟨value, builder', hconcat, -⟩ := carries_concat (hgrows.sound hsound) hvalues hbits hword
    exact ⟨value, builder', (join_several hmapM hone).trans hconcat⟩

/-- A name can always be found, so a value can always be put behind a wire. -/
theorem exists_barrier {source : Value} {bits : List BitOrigin} (h : builder.Carries source bits)
    (name : Option String) (stem : String) :
    ∃ value builder', barrier name stem source builder = .ok value builder' := by
  have hwire : ∀ {ident middle}, builder.Grows middle →
      ∃ value builder', Build.wire ident source middle = .ok value builder' := by
    intro ident middle hgrows
    obtain ⟨value, builder', hrun, -⟩ := carries_wire (h.mono hgrows)
    exact ⟨value, builder', hrun⟩
  cases name with
  | none =>
    obtain ⟨value, builder', hrun⟩ := hwire ((keeps_fresh stem).ok (fresh_run stem builder))
    exact ⟨value, builder', change_bind_eq_ok.mpr ⟨_, _, fresh_run stem builder, hrun⟩⟩
  | some name =>
    obtain ⟨ident, names, hname⟩ := uniqueName_run name builder
    obtain ⟨value, builder', hrun⟩ := hwire ((keeps_uniqueName name).ok hname)
    exact ⟨value, builder', change_bind_eq_ok.mpr ⟨ident, _, hname, hrun⟩⟩

/-! ### The outcomes -/

/-- What lowering an array comes to, depending on the number of its elements and on its gaps. -/
inductive LowerOutcome (view : ArrayView) (store : Store) (count : Nat) (workspace : Workspace) :
    EStateM.Result (Failure ArrayError) Workspace (Value × ArrayView) → Prop where
  /-- There is nothing to lower. -/
  | empty (hzero : count = 0) :
      LowerOutcome view store count workspace (.error (.refused (.shape .nothingToLower)) workspace)
  /-- The first gap is refused. -/
  | gap {offset : Nat} (hpos : 0 < count) (hfirst : IsLeast (view.gaps store) offset) :
      LowerOutcome view store count workspace (.error (.refused (.unset offset)) workspace)
  /-- Without a gap there is a value. -/
  | built {answer : Value × ArrayView} {workspace' : Workspace} (hpos : 0 < count)
      (hfull : view.gaps store = ∅) : LowerOutcome view store count workspace (.ok answer workspace')

/-- What reading an element comes to. -/
inductive ReadOutcome (view : ArrayView) (store : Store) (coordinate : List Nat) (workspace : Workspace) :
    EStateM.Result (Failure ArrayError) Workspace Value → Prop where
  /-- There is no such coordinate. -/
  | outside {failure : Failure IndexError} (hoffset : linearize view.shape coordinate = .error failure) :
      ReadOutcome view store coordinate workspace (.error (failure.map .index) workspace)
  /-- There is no element. -/
  | gap {offset : Nat} (hoffset : linearize view.shape coordinate = .ok offset)
      (hget : view.get store coordinate = .ok none) :
      ReadOutcome view store coordinate workspace (.error (.refused (.unset offset)) workspace)
  /-- There is an element, and a value of it. -/
  | built {range : BitRange} {value : Value} {workspace' : Workspace}
      (hget : view.get store coordinate = .ok (some range)) :
      ReadOutcome view store coordinate workspace (.ok value workspace')

namespace LowerOutcome

variable {result : EStateM.Result (Failure ArrayError) Workspace (Value × ArrayView)}
  (h : LowerOutcome view store count workspace result)

include h

theorem shape_iff :
    (∃ cause workspace', result = .error (.refused (.shape cause)) workspace') ↔ count = 0 := by
  cases h with
  | empty hzero => exact ⟨fun _ => hzero, fun _ => ⟨_, _, rfl⟩⟩
  | gap hpos => exact ⟨fun ⟨_, _, heq⟩ => (nomatch heq), fun hzero => absurd hzero hpos.ne'⟩
  | built hpos => exact ⟨fun ⟨_, _, heq⟩ => (nomatch heq), fun hzero => absurd hzero hpos.ne'⟩

theorem unset_iff (offset : Nat) : (∃ workspace', result = .error (.refused (.unset offset)) workspace') ↔
    0 < count ∧ IsLeast (view.gaps store) offset := by
  cases h with
  | empty hzero => exact ⟨fun ⟨_, heq⟩ => (nomatch heq), fun hleast => absurd hzero hleast.1.ne'⟩
  | gap hpos hfirst =>
    constructor
    · rintro ⟨_, heq⟩
      cases heq
      exact ⟨hpos, hfirst⟩
    · rintro ⟨-, hleast⟩
      -- there is one first gap only
      rw [hfirst.unique hleast]
      exact ⟨_, rfl⟩
  | built hpos hfull =>
    refine ⟨fun ⟨_, heq⟩ => (nomatch heq), fun hleast => ?_⟩
    have hmem := hleast.2.1
    rw [hfull] at hmem
    exact hmem.elim

theorem ok_iff : (∃ answer workspace', result = .ok answer workspace') ↔
    0 < count ∧ view.gaps store = ∅ := by
  cases h with
  | empty hzero => exact ⟨fun ⟨_, _, heq⟩ => (nomatch heq), fun hfull => absurd hzero hfull.1.ne'⟩
  | gap hpos hfirst =>
    refine ⟨fun ⟨_, _, heq⟩ => (nomatch heq), fun hfull => ?_⟩
    have hmem := hfirst.1
    rw [hfull.2] at hmem
    exact hmem.elim
  | built hpos hfull => exact ⟨fun _ => ⟨hpos, hfull⟩, fun _ => ⟨_, _, rfl⟩⟩

theorem unchanged {failure : Failure ArrayError} {workspace' : Workspace}
    (hresult : result = .error failure workspace') : workspace' = workspace := by
  cases h with
  | empty =>
    cases hresult
    rfl
  | gap =>
    cases hresult
    rfl
  | built => cases hresult

end LowerOutcome

namespace ReadOutcome

variable {coordinate : List Nat} {result : EStateM.Result (Failure ArrayError) Workspace Value}
  (h : ReadOutcome view store coordinate workspace result)

include h

theorem unset_iff (offset : Nat) : (∃ workspace', result = .error (.refused (.unset offset)) workspace') ↔
    linearize view.shape coordinate = .ok offset ∧ view.get store coordinate = .ok none := by
  cases h with
  | @outside failure hoffset =>
    constructor
    · rintro ⟨_, heq⟩
      cases failure <;> cases heq
    · rintro ⟨hoffset', -⟩
      cases hoffset.symm.trans hoffset'
  | @gap first hoffset hget =>
    constructor
    · rintro ⟨_, heq⟩
      cases heq
      exact ⟨hoffset, hget⟩
    · rintro ⟨hoffset', -⟩
      obtain rfl := Except.ok.inj (hoffset.symm.trans hoffset')
      exact ⟨_, rfl⟩
  | built hget =>
    refine ⟨fun ⟨_, heq⟩ => (nomatch heq), fun hgap => ?_⟩
    cases hget.symm.trans hgap.2

theorem unchanged {failure : Failure ArrayError} {workspace' : Workspace}
    (hresult : result = .error failure workspace') : workspace' = workspace := by
  cases h with
  | outside =>
    cases hresult
    rfl
  | gap =>
    cases hresult
    rfl
  | built => cases hresult

end ReadOutcome

section Outcomes

variable (hsound : workspace.Sound) (h : view.Fits store)
  (hstore : workspace.store view.store = .ok store) (settings : Settings)

/-- When the parts are known, lowering goes on to build them. -/
theorem lowered_run (hstore : workspace.store view.store = .ok store) (settings : Settings)
    (hcount : view.count = .ok count) (hpos : 0 < count) :
    view.lowered settings workspace
      = (liftM (view.parts store settings.coalesce) >>= fun parts => Session.build do
          let flat ← join parts
          if settings.createWire then barrier view.name settings.wireStem flat else return flat)
        workspace := by
  rw [lowered, hcount]
  change (if count = 0 then _ else _ : Session Value) workspace = _
  rw [if_neg (by omega)]
  change ((liftM (workspace.store view.store) : Session Store) >>= _) workspace = _
  rw [hstore]
  rfl

/-- A value of the array is a lowered array. -/
theorem lower_of_lowered {value : Value} {workspace' : Workspace}
    (hrun : view.lowered settings workspace = .ok value workspace')
    (hstore : workspace'.store view.store = .ok store) :
    view.lower settings workspace
      = .ok (value, { view with loweredAt := some store.revision }) workspace' := by
  rw [lower, change_bind, hrun]
  change ((liftM (workspace'.store view.store) : Session Store) >>= _) workspace' = _
  rw [hstore]
  rfl

theorem lower_of_error {failure : Failure ArrayError} {workspace' : Workspace}
    (hrun : view.lowered settings workspace = .error failure workspace') :
    view.lower settings workspace = .error failure workspace' := by
  rw [lower, change_bind, hrun]

/-- Where there are no elements, nothing is built. -/
theorem lower_of_empty (hcount : view.count = .ok 0) :
    view.lower settings workspace = .error (.refused (.shape .nothingToLower)) workspace := by
  refine lower_of_error settings ?_
  rw [lowered, hcount]
  rfl

/-- Nor where they cannot be counted. -/
theorem lower_of_uncounted {kind : Fault} (hcount : view.count = .error kind) :
    view.lower settings workspace = .error (.fault kind) workspace := by
  refine lower_of_error settings ?_
  rw [lowered, hcount]
  rfl

include hsound h hstore

/-- Where there is a gap, nothing is built either. -/
theorem lower_of_gap (hcount : view.count = .ok count) (hpos : 0 < count)
    (hfirst : (List.range view.shape.prod).find? (view.isGap store) = some offset) :
    view.lower settings workspace = .error (.refused (.unset offset)) workspace := by
  refine lower_of_error settings ?_
  rw [lowered_run hstore settings hcount hpos, parts_eq_error hsound h (hsound.stores hstore) hcount hfirst]
  rfl

/-- **Lowering succeeds** when all elements are there and their bits are not too many. -/
theorem lower_of_elements (hcount : view.count = .ok count) (hpos : 0 < count)
    (hword : count * view.elemType.width < wordBound) {ranges : List BitRange}
    (hranges : view.elements store = .ok ranges) :
    ∃ value lowered workspace', view.lowered settings workspace = .ok value workspace' ∧
      view.lower settings workspace = .ok (value, lowered) workspace' := by
  have hstoreSound := hsound.stores hstore
  obtain ⟨parts, hparts⟩ := exists_parts hsound h hstoreSound hcount settings.coalesce hranges
  obtain ⟨merged, hmerged, hwidths, hbits⟩ := bits_of_parts hsound h hstoreSound hcount hpos hparts
  have hbitsPos : 0 < merged.flatten.length := by
    rw [hbits]
    exact Nat.mul_pos hpos view.elemType.width_pos
  obtain ⟨flat, builder, hjoin⟩ :=
    exists_join hsound.builder hmerged hwidths hbitsPos (by rwa [hbits])
  have hflat := carries_of_join hsound.builder hmerged hwidths hjoin
  have hrest : ∃ value builder', (if settings.createWire then barrier view.name settings.wireStem flat
      else pure flat : Build Value) builder = .ok value builder' := by
    split
    · exact exists_barrier hflat _ _
    · exact ⟨flat, builder, rfl⟩
  obtain ⟨value, builder', hrest⟩ := hrest
  have hlowered : view.lowered settings workspace = .ok value { workspace with builder := builder' } := by
    rw [lowered_run hstore settings hcount hpos, hparts]
    refine Session.build_eq_ok.mpr ⟨builder', ?_, rfl⟩
    exact change_bind_eq_ok.mpr ⟨flat, builder, hjoin, hrest⟩
  exact ⟨value, _, _, hlowered, lower_of_lowered settings hlowered hstore⟩

/-- **Lowering.** It fails for an array without elements and at the first gap of any other, and leaves the
workspace as it was. -/
theorem lower_outcome (hcount : view.count = .ok count)
    (hword : count * view.elemType.width < wordBound) :
    LowerOutcome view store count workspace (view.lower settings workspace) := by
  have hstoreSound := hsound.stores hstore
  rcases Nat.eq_zero_or_pos count with rfl | hpos
  · rw [lower_of_empty settings hcount]
    exact .empty rfl
  cases hfirst : (List.range view.shape.prod).find? (view.isGap store) with
  | some offset =>
    rw [lower_of_gap hsound h hstore settings hcount hpos hfirst]
    exact .gap hpos (find?_range_eq_some_iff.mp hfirst)
  | none =>
    obtain ⟨ranges, hranges⟩ := exists_elements hsound h hstoreSound hcount hfirst
    obtain ⟨value, lowered, workspace', -, hrun⟩ :=
      lower_of_elements hsound h hstore settings hcount hpos hword hranges
    rw [hrun]
    exact .built hpos (gaps_eq_empty_iff.mpr hfirst)

/-- **Reading.** It fails at a coordinate that is not there, or without an element, and leaves the workspace as it
was. -/
theorem read_outcome (coordinate : List Nat) :
    ReadOutcome view store coordinate workspace (view.read coordinate workspace) := by
  have hstoreSound := hsound.stores hstore
  cases hoffset : linearize view.shape coordinate with
  | error failure =>
    have hrun : view.read coordinate workspace = .error (failure.map .index) workspace := by
      rw [read, hoffset]
      rfl
    rw [hrun]
    exact .outside hoffset
  | ok offset =>
    have hrun : view.read coordinate workspace
        = (liftM (view.require store offset) >>= fun range => Session.build range.materialize)
          workspace := by
      rw [read, hoffset]
      change ((liftM (workspace.store view.store) : Session Store) >>= _) workspace = _
      rw [hstore]
      rfl
    have hget : ∀ {found}, view.element store offset = .ok found →
        view.get store coordinate = .ok (found.map Element.range) := by
      intro found hfound
      rw [get, hoffset]
      change ((liftM (view.element store offset) : Attempt IndexError (Option Element)) >>= _) = _
      rw [hfound]
      rfl
    obtain ⟨hwithin, hposition⟩ := eq_of_linearize hoffset
    have hlt : offset < view.shape.prod := by
      rw [hposition]
      exact position_lt hwithin
    rcases h.element_cases hsound hstoreSound hlt with ⟨element, helement, -⟩ | ⟨helement, -⟩
    · -- the range of the element lies within its source, so it can be cut out
      obtain ⟨hwidth, bits, hbits⟩ := h.element hsound.builder hstoreSound helement
      have hpos : 0 < element.range.width := by
        rw [hwidth]
        exact view.elemType.width_pos
      obtain ⟨value, builder, hbuild, -⟩ := Builder.materialize_carries hsound.builder hbits hpos
      have hrequire : view.require store offset = .ok element.range :=
        require_eq_ok.mpr ⟨element, helement, rfl⟩
      have hvalue : Session.build element.range.materialize workspace
          = .ok value { workspace with builder := builder } :=
        Session.build_eq_ok.mpr ⟨builder, hbuild, rfl⟩
      rw [hrun, hrequire]
      change ReadOutcome view store coordinate workspace
        (Session.build element.range.materialize workspace)
      rw [hvalue]
      exact .built (hget helement)
    · have hrequire : view.require store offset = .error (.refused (.unset offset)) := by
        rw [require, helement]
        rfl
      rw [hrun, hrequire]
      exact .gap hoffset (hget helement)

end Outcomes

end ArrayView

namespace Scene

variable {scene : Scene} {view : ArrayView}

/-- **Lowering and reading fail exactly when they must.** An array whose bits a machine word can count is refused
if it has no elements, and otherwise at its first gap, which is also where the search for one and the collection
of the elements end; in all other cases lowering answers. The exception is an array without elements of a shape whose
first axes are too long to be counted: it is not refused, but overflows, and so do the search and the collection.
Reading refuses a coordinate of a gap. Either way a failure leaves the netlist and all stores as they were. -/
theorem fails_at_gaps (hscene : scene.Reachable) (hview : view ∈ scene.arrays)
    (hword : view.shape.prod * view.elemType.width < wordBound) :
    ∃ store, scene.workspace.store view.store = .ok store ∧
      (PrefixesFit view.shape →
        (∀ settings, (∃ cause workspace,
          view.lower settings scene.workspace = .error (.refused (.shape cause)) workspace) ↔ view.shape.prod = 0) ∧
        (∀ settings offset, (∃ workspace,
          view.lower settings scene.workspace = .error (.refused (.unset offset)) workspace) ↔
            0 < view.shape.prod ∧ IsLeast (view.gaps store) offset) ∧
        (∀ settings, (∃ answer workspace, view.lower settings scene.workspace = .ok answer workspace) ↔
          0 < view.shape.prod ∧ view.gaps store = ∅) ∧
        (∀ offset, view.firstUnset store = .ok (some offset) ↔ IsLeast (view.gaps store) offset) ∧
        (view.firstUnset store = .ok none ↔ view.gaps store = ∅) ∧
        (∀ offset, view.elements store = .error (.refused (.unset offset)) ↔
          IsLeast (view.gaps store) offset) ∧
        ((∃ ranges, view.elements store = .ok ranges) ↔ view.gaps store = ∅)) ∧
      (¬PrefixesFit view.shape → view.shape.prod = 0 ∧
        (∀ settings, view.lower settings scene.workspace = .error (.fault .overflow) scene.workspace) ∧
        view.firstUnset store = .error .overflow ∧ view.elements store = .error (.fault .overflow)) ∧
      (∀ coordinate offset, (∃ workspace,
        view.read coordinate scene.workspace = .error (.refused (.unset offset)) workspace) ↔
          linearize view.shape coordinate = .ok offset ∧ view.get store coordinate = .ok none) ∧
      (∀ settings failure workspace, view.lower settings scene.workspace = .error failure workspace →
        workspace = scene.workspace) ∧
      ∀ coordinate failure workspace, view.read coordinate scene.workspace = .error failure workspace →
        workspace = scene.workspace := by
  have hsound := sound_of_reachable hscene
  obtain ⟨store, hstore, hfits, hstoreSound⟩ := hsound.fits hview
  have hread := ArrayView.read_outcome hsound.workspace hfits hstore
  refine ⟨store, hstore, fun hfit => ?_, fun hlarge => ?_, fun coordinate offset => (hread coordinate).unset_iff offset,
    fun settings failure workspace hrun => ?_, fun coordinate _ _ => (hread coordinate).unchanged⟩
  · have hcount : view.count = .ok view.shape.prod := elementCount_eq_ok_iff.mpr hfit
    have hlower := fun settings =>
      ArrayView.lower_outcome hsound.workspace hfits hstore settings hcount hword
    have hfirst := ArrayView.firstUnset_eq hsound.workspace hfits hstoreSound hcount
    refine ⟨fun settings => (hlower settings).shape_iff, fun settings offset => (hlower settings).unset_iff offset,
      fun settings => (hlower settings).ok_iff, fun offset => ?_, ?_, fun offset => ?_, ?_⟩
    · rw [hfirst, Except.ok.injEq]
      exact find?_range_eq_some_iff
    · rw [hfirst, Except.ok.injEq]
      exact ArrayView.gaps_eq_empty_iff.symm
    · exact ArrayView.elements_eq_error_iff hsound.workspace hfits hstoreSound hcount
    · exact ArrayView.elements_eq_ok_iff hsound.workspace hfits hstoreSound hcount
  · -- no store has room for so many elements, so there are none
    have hcount : view.count = .error .overflow := elementCount_eq_error_iff.mpr ⟨rfl, hlarge⟩
    have hsize := hfits.shape_lt hstoreSound.addressable
    exact ⟨prod_eq_zero_of_not_fit (hsize.trans signedBound_lt_sizeBound) hlarge,
      fun settings => ArrayView.lower_of_uncounted settings hcount,
      ArrayView.firstUnset_of_uncounted hcount store, ArrayView.elements_of_uncounted hcount store⟩
  · -- a failure comes before anything is built, whether the elements could be counted or not
    cases hcount : view.count with
    | ok count =>
      obtain ⟨rfl, -⟩ := eq_of_elementCount hcount
      exact (ArrayView.lower_outcome hsound.workspace hfits hstore settings hcount hword).unchanged hrun
    | error kind =>
      cases (ArrayView.lower_of_uncounted settings hcount).symm.trans hrun
      rfl

/-- An array of four bytes. -/
def sparseArray : ArrayView := { shape := [4], elemType := .i8, store := ⟨0⟩ }

/-- The array after an input was written to all of its elements but number 2. -/
def sparse : Scene :=
  [.call (.internType (.bits 8)), .call (.input "a" ⟨0⟩), .create [4] .i8,
    .set sparseArray [0] (.whole ⟨⟨0⟩, ⟨0⟩, 8⟩), .set sparseArray [1] (.whole ⟨⟨0⟩, ⟨0⟩, 8⟩),
    .set sparseArray [3] (.whole ⟨⟨0⟩, ⟨0⟩, 8⟩)].foldl step (start {} "m")

/-- Whatever the settings are, the array is refused because of that element, and nothing has changed. -/
theorem fails_at_gaps_sparse :
    ∃ store, sparse.workspace.store sparseArray.store = .ok store ∧
      IsLeast (sparseArray.gaps store) 2 ∧
      ∀ settings, ∃ workspace, workspace = sparse.workspace ∧
        sparseArray.lower settings sparse.workspace = .error (.refused (.unset 2)) workspace := by
  have hreachable : sparse.Reachable := ⟨{}, "m", reaches_foldl (by decide +kernel)⟩
  have hview : sparseArray ∈ sparse.arrays := by decide +kernel
  have hword : sparseArray.shape.prod * sparseArray.elemType.width < wordBound := by decide
  obtain ⟨store, hstore, hcounted, -, -, hsame, -⟩ := fails_at_gaps hreachable hview hword
  obtain ⟨-, hunset, -⟩ := hcounted (by decide)
  -- one run shows where the first gap is
  have hrun : sparseArray.lower {} sparse.workspace = .error (.refused (.unset 2)) sparse.workspace := by
    decide +kernel
  have hfirst := (hunset {} 2).mp ⟨_, hrun⟩
  refine ⟨store, hstore, hfirst.2, fun settings => ?_⟩
  obtain ⟨workspace, hlower⟩ := (hunset settings 2).mpr hfirst
  exact ⟨workspace, hsame settings _ workspace hlower, hlower⟩

/-- An array without elements is not refused, and neither the search for a gap nor the collection of its elements
answers, although there is nothing to find and nothing to collect. With the empty axis in front all three answer. -/
theorem lower_overflow_hollowArray :
    hollow.Reachable ∧ hollowArray ∈ hollow.arrays ∧ emptyArray ∈ hollow.arrays ∧
      hollow.workspace.store ⟨0⟩ = .ok (.empty 1 .i8) ∧ hollowArray.shape.prod = 0 ∧ emptyArray.shape.prod = 0 ∧
      (∀ settings, hollowArray.lower settings hollow.workspace = .error (.fault .overflow) hollow.workspace ∧
        emptyArray.lower settings hollow.workspace
          = .error (.refused (.shape .nothingToLower)) hollow.workspace) ∧
      hollowArray.firstUnset (.empty 1 .i8) = .error .overflow ∧ emptyArray.firstUnset (.empty 1 .i8) = .ok none ∧
      hollowArray.elements (.empty 1 .i8) = .error (.fault .overflow) ∧
      emptyArray.elements (.empty 1 .i8) = .ok [] := by
  have hcount : hollowArray.count = .error .overflow := by decide
  have hempty : emptyArray.count = .ok 0 := by decide
  exact ⟨hollow_reachable, by decide +kernel, by decide +kernel, by decide +kernel, by decide, by decide,
    fun settings => ⟨ArrayView.lower_of_uncounted settings hcount, ArrayView.lower_of_empty settings hempty⟩,
    ArrayView.firstUnset_of_uncounted hcount _, by decide, ArrayView.elements_of_uncounted hcount _, by decide⟩

end Scene

end NetArray
