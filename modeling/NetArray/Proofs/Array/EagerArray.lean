import Mathlib
import NetArray.Proofs.Index.OffsetMaps
import NetArray.Proofs.Index.Regions

/-!
# Eager arrays

An `Eager` array holds its elements: a shape, and the elements in row-major order. Every operation on it
builds the list of elements anew, from a description of where each element goes:

* `Eager.transpose` — the index on axis `permutation[i]` becomes the index on axis `i`;
* `Eager.reshape` — the list stays as it is;
* `Eager.rollFlat` — the element at a place moves up by a number of places, around the end;
* `Eager.rollAxis` — the index on one axis moves up, around its end;
* `Eager.select` — the elements at the selected coordinates stay, in their order.

No offset map occurs here. `moved_getElem?` is the bridge to a description that says where an element *came
from*, which is what a lazy view computes: whenever moving can be undone, the element at a new place is the one
at the place that it is undone to.
-/

namespace NetArray

/-- The elements at some places after all elements moved: `entries` has the new place of each. -/
def moved {κ α : Type} [BEq κ] (places : List κ) (entries : List (κ × α)) : List α :=
  places.filterMap fun place => entries.lookup place

/-- A shape and the elements in row-major order. -/
structure Eager (α : Type) where
  shape : List Nat
  items : List α
  deriving DecidableEq, Repr

namespace Eager

variable {α : Type}

/-- The elements with their coordinates. -/
def entries (array : Eager α) : List (List Nat × α) :=
  (coordinates array.shape).zip array.items

/-- The elements with their places in row-major order. -/
def numbered (array : Eager α) : List (Nat × α) :=
  (List.range array.items.length).zip array.items

/-- The element at a coordinate. -/
def at? (array : Eager α) (coordinate : List Nat) : Option α :=
  array.entries.lookup coordinate

/-- The array with its axes permuted: axis `i` of the result is axis `permutation[i]` of the array. -/
def transpose (array : Eager α) (permutation : List Nat) : Eager α where
  shape := permuted permutation array.shape
  items := moved (coordinates (permuted permutation array.shape))
    (array.entries.map fun entry => (permuted permutation entry.1, entry.2))

/-- The same elements in another shape. -/
def reshape (array : Eager α) (shape : List Nat) : Eager α :=
  ⟨shape, array.items⟩

/-- Where an index on an axis of length `size` gets to when all indices move up by `amount`. -/
def shifted (size : Nat) (amount : Int) (index : Nat) : Nat :=
  ((index + amount) % size).toNat

/-- The array with its elements moved up by `amount` places. -/
def rollFlat (array : Eager α) (amount : Int) : Eager α where
  shape := array.shape
  items := moved (List.range array.items.length)
    (array.numbered.map fun entry => (shifted array.items.length amount entry.1, entry.2))

/-- The array with its elements moved up by `amount` along an axis. -/
def rollAxis (array : Eager α) (axis : Nat) (amount : Int) : Eager α where
  shape := array.shape
  items := moved (coordinates array.shape)
    (array.entries.map fun entry =>
      (entry.1.modify axis (shifted (array.shape.getD axis 0) amount), entry.2))

/-- The selected part of the array. Where no axis is left there is one, of one element. -/
def select (array : Eager α) (selection : List Selector) : Eager α where
  shape := if (keptShape array.shape selection).isEmpty then [1] else keptShape array.shape selection
  items := (array.entries.filter fun entry => selects selection entry.1).map Prod.snd

end Eager

/-! ### Moving and coming from -/

section Moved

variable {κ κ' α : Type} [BEq κ] [LawfulBEq κ] [BEq κ'] [LawfulBEq κ']

/-- Looking a new place up among moved entries is looking the old place up. -/
private theorem lookup_map_of_undo {move : κ' → κ} {back : κ → κ'} {entries : List (κ' × α)} {place : κ}
    (hback : ∀ entry ∈ entries, back (move entry.1) = entry.1) (hplace : move (back place) = place) :
    (entries.map fun entry => (move entry.1, entry.2)).lookup place = entries.lookup (back place) := by
  induction entries with
  | nil => rfl
  | cons entry entries ih =>
    obtain ⟨old, item⟩ := entry
    have hold : back (move old) = old := hback (old, item) List.mem_cons_self
    rw [List.map_cons, List.lookup_cons, List.lookup_cons,
      ih fun entry hentry => hback entry (List.mem_cons_of_mem _ hentry)]
    -- the head is found at the new place just when it is found at the old one
    have hiff : (place == move old) = (back place == old) := by
      rw [Bool.eq_iff_iff, beq_iff_eq, beq_iff_eq]
      constructor
      · rintro rfl
        exact hold
      · rintro rfl
        exact hplace.symm
    rw [hiff]

/-- What is found in a list of keys that are all different is at the place of the key. -/
theorem lookup_zip {keys : List κ} {items : List α} {key : κ} {place : Nat} (hnodup : keys.Nodup)
    (hkey : keys[place]? = some key) : (keys.zip items).lookup key = items[place]? := by
  induction keys generalizing items place with
  | nil => rw [List.getElem?_nil] at hkey; cases hkey
  | cons head keys ih =>
    obtain ⟨hhead, hnodup⟩ := List.nodup_cons.mp hnodup
    cases items with
    | nil => rw [List.zip_nil_right, List.lookup_nil, List.getElem?_nil]
    | cons item items =>
      rw [List.zip_cons_cons, List.lookup_cons]
      cases place with
      | zero =>
        rw [List.getElem?_cons_zero, Option.some.injEq] at hkey
        rw [hkey, beq_self_eq_true, List.getElem?_cons_zero]
      | succ place =>
        rw [List.getElem?_cons_succ] at hkey
        have hne : key ≠ head := fun heq => hhead (heq ▸ List.mem_of_getElem? hkey)
        rw [beq_false_of_ne hne, List.getElem?_cons_succ]
        exact ih hnodup hkey

private theorem getElem?_filterMap {β : Type} {f : β → Option α} {items : List β} (place : Nat)
    (h : ∀ item ∈ items, (f item).isSome) : (items.filterMap f)[place]? = items[place]?.bind f := by
  induction items generalizing place with
  | nil => rfl
  | cons item items ih =>
    obtain ⟨a, ha⟩ := Option.isSome_iff_exists.mp (h item List.mem_cons_self)
    rw [List.filterMap_cons_some ha]
    cases place with
    | zero => rw [List.getElem?_cons_zero, List.getElem?_cons_zero, Option.bind_some, ha]
    | succ place =>
      rw [List.getElem?_cons_succ, List.getElem?_cons_succ,
        ih place fun item hitem => h item (List.mem_cons_of_mem _ hitem)]

private theorem length_filterMap_of_isSome {β : Type} {f : β → Option α} {items : List β}
    (h : ∀ item ∈ items, (f item).isSome) : (items.filterMap f).length = items.length := by
  induction items with
  | nil => rfl
  | cons item items ih =>
    obtain ⟨a, ha⟩ := Option.isSome_iff_exists.mp (h item List.mem_cons_self)
    rw [List.filterMap_cons_some ha, List.length_cons, List.length_cons,
      ih fun item hitem => h item (List.mem_cons_of_mem _ hitem)]

/-- **Moving and coming from.** If moving can be undone, there is an element at each new place, namely the
one at the old place that the new place is undone to. -/
theorem moved_getElem? {places : List κ} {keys : List κ'} {items : List α} {move : κ' → κ}
    {back : κ → κ'} {index : κ → Nat} (hnodup : keys.Nodup) (hlength : items.length = keys.length)
    (hback : ∀ key ∈ keys, back (move key) = key)
    (hplaces : ∀ place ∈ places, move (back place) = place ∧
      keys[index place]? = some (back place)) :
    (moved places ((keys.zip items).map fun entry => (move entry.1, entry.2))).length = places.length ∧
      ∀ number : Nat,
        (moved places ((keys.zip items).map fun entry => (move entry.1, entry.2)))[number]?
          = places[number]?.bind fun place => items[index place]? := by
  have hlookup : ∀ place ∈ places,
      ((keys.zip items).map fun entry => (move entry.1, entry.2)).lookup place
        = items[index place]? := by
    intro place hplace
    obtain ⟨hmove, hkey⟩ := hplaces place hplace
    have hundo : ∀ entry ∈ keys.zip items, back (move entry.1) = entry.1 := fun entry hentry =>
      hback entry.1 (List.of_mem_zip hentry).1
    rw [lookup_map_of_undo hundo hmove, lookup_zip hnodup hkey]
  have hfound : ∀ place ∈ places,
      (((keys.zip items).map fun entry => (move entry.1, entry.2)).lookup place).isSome := by
    intro place hplace
    obtain ⟨hlt, -⟩ := List.getElem?_eq_some_iff.mp (hplaces place hplace).2
    rw [hlookup place hplace, List.getElem?_eq_getElem (by omega)]
    rfl
  refine ⟨length_filterMap_of_isSome hfound, fun number => ?_⟩
  rw [moved, getElem?_filterMap number hfound]
  cases hplace : places[number]? with
  | none => rfl
  | some place => exact hlookup place (List.mem_of_getElem? hplace)

end Moved

/-! ### Shifts -/

/-- A shift by a signed amount is one by its remainder. -/
theorem shifted_eq {size : Nat} (hpos : 0 < size) (amount : Int) (index : Nat) :
    Eager.shifted size amount index = (index + (amount % size).toNat) % size := by
  have hsize : (size : Int) ≠ 0 := by omega
  have hshift : ((amount % size).toNat : Int) = amount % size :=
    Int.toNat_of_nonneg (Int.emod_nonneg _ hsize)
  have hsum : ((index : Int) + amount) % size = ((index + (amount % size).toNat) % size : Nat) := by
    rw [Int.natCast_emod, Int.natCast_add, hshift, Int.add_emod_emod]
  rw [Eager.shifted, hsum, Int.toNat_natCast]

/-- Moving an index down by the shift undoes moving it up. -/
theorem unshift_forth {size shift index : Nat} (hindex : index < size) (hshift : shift ≤ size) :
    ((index + shift) % size + size - shift) % size = index := by
  rcases Nat.lt_or_ge (index + shift) size with hlt | hge
  · -- no way around the end
    rw [Nat.mod_eq_of_lt hlt, show index + shift + size - shift = index + size by omega,
      Nat.add_mod_right, Nat.mod_eq_of_lt hindex]
  · rcases Nat.eq_or_lt_of_le hshift with rfl | hshift
    · -- once all the way around
      rw [Nat.add_mod_right, Nat.mod_eq_of_lt hindex, Nat.add_sub_cancel, Nat.mod_eq_of_lt hindex]
    · rw [Nat.mod_eq_sub_mod hge, Nat.mod_eq_of_lt (by omega : index + shift - size < size),
        show index + shift - size + size - shift = index by omega, Nat.mod_eq_of_lt hindex]

namespace Eager

variable {α : Type} {array : Eager α}

theorem getElem?_coordinates {shape : List Nat} {offset : Nat} (h : offset < shape.prod) :
    (coordinates shape)[offset]? = some (digits shape offset) := by
  rw [coordinates_eq, List.getElem?_map, List.getElem?_range h]
  rfl

/-- The element at a coordinate is the one at its place. -/
theorem at?_eq {coordinate : List Nat} (h : Within array.shape coordinate) :
    array.at? coordinate = array.items[position array.shape coordinate]? :=
  lookup_zip (nodup_coordinates _) (NetArray.getElem?_coordinates h)

/-! ### Where the elements of a result come from -/

theorem transpose_items {permutation : List Nat}
    (hperm : permutation.Perm (List.range array.shape.length))
    (hlength : array.items.length = array.shape.prod) :
    (array.transpose permutation).items.length = (permuted permutation array.shape).prod ∧
      ∀ offset < array.shape.prod, (array.transpose permutation).items[offset]?
        = array.items[position array.shape (OffsetMap.scatter permutation
            (digits (permuted permutation array.shape) offset))]? := by
  have hrank : permutation.length = array.shape.length := by simpa using hperm.length_eq
  -- scattering undoes permuting, on the coordinates of the array and on those of the result
  have hback : ∀ key ∈ coordinates array.shape,
      OffsetMap.scatter permutation (permuted permutation key) = key := by
    intro key hkey
    refine scatter_permuted ?_
    rwa [(mem_coordinates.mp hkey).length_eq]
  have hplaces : ∀ place ∈ coordinates (permuted permutation array.shape),
      permuted permutation (OffsetMap.scatter permutation place) = place ∧
        (coordinates array.shape)[position array.shape (OffsetMap.scatter permutation place)]?
          = some (OffsetMap.scatter permutation place) := by
    intro place hplace
    have hwithin := mem_coordinates.mp hplace
    refine ⟨permuted_scatter ?_, NetArray.getElem?_coordinates (within_scatter hperm hwithin)⟩
    rwa [hwithin.length_eq, length_permuted, hrank]
  obtain ⟨hcount, hitems⟩ := moved_getElem? (nodup_coordinates array.shape)
    (hlength.trans (length_coordinates _).symm) hback hplaces
  refine ⟨hcount.trans (length_coordinates _), fun offset hoffset => (hitems offset).trans ?_⟩
  rw [getElem?_coordinates (by rwa [prod_permuted hperm])]
  rfl

theorem rollFlat_items (amount : Int) :
    (array.rollFlat amount).items.length = array.items.length ∧
      ∀ offset < array.items.length, (array.rollFlat amount).items[offset]?
        = array.items[(offset + array.items.length - (amount % array.items.length).toNat)
            % array.items.length]? := by
  rcases Nat.eq_zero_or_pos array.items.length with hzero | hpos
  · -- there is nothing to move
    refine ⟨?_, fun offset hoffset => absurd hoffset (by rw [hzero]; exact Nat.not_lt_zero offset)⟩
    change (moved (List.range array.items.length) _).length = _
    rw [hzero]
    rfl
  have hshift := toNat_emod_lt amount hpos
  have hback : ∀ key ∈ List.range array.items.length,
      (shifted array.items.length amount key + array.items.length
        - (amount % array.items.length).toNat) % array.items.length = key := by
    intro key hkey
    rw [shifted_eq hpos]
    exact unshift_forth (List.mem_range.mp hkey) hshift.le
  have hplaces : ∀ place ∈ List.range array.items.length,
      shifted array.items.length amount ((place + array.items.length
        - (amount % array.items.length).toNat) % array.items.length) = place ∧
        (List.range array.items.length)[(place + array.items.length
          - (amount % array.items.length).toNat) % array.items.length]?
          = some ((place + array.items.length
            - (amount % array.items.length).toNat) % array.items.length) := by
    intro place hplace
    rw [shifted_eq hpos]
    exact ⟨unshift_back (List.mem_range.mp hplace) hshift.le,
      List.getElem?_range (Nat.mod_lt _ hpos)⟩
  obtain ⟨hcount, hitems⟩ := moved_getElem? List.nodup_range (List.length_range).symm hback hplaces
  refine ⟨hcount.trans List.length_range, fun offset hoffset => (hitems offset).trans ?_⟩
  rw [List.getElem?_range hoffset]
  rfl

theorem modify_eq_set (f : Nat → Nat) {axis : Nat} {coordinate : List Nat}
    (haxis : axis < coordinate.length) :
    coordinate.modify axis f = coordinate.set axis (f (coordinate.getD axis 0)) := by
  rw [List.modify_eq_set_get f haxis, List.getD_eq_getElem _ _ haxis]
  rfl

theorem rollAxis_items {axis size : Nat} (amount : Int) (haxis : array.shape[axis]? = some size)
    (hlength : array.items.length = array.shape.prod) :
    (array.rollAxis axis amount).items.length = array.shape.prod ∧
      ∀ offset < array.shape.prod, (array.rollAxis axis amount).items[offset]?
        = array.items[position array.shape
            (unrolled axis size (amount % size).toNat (digits array.shape offset))]? := by
  have hsize : array.shape.getD axis 0 = size := by
    obtain ⟨hlt, hget⟩ := List.getElem?_eq_some_iff.mp haxis
    rw [List.getD_eq_getElem _ _ hlt, hget]
  -- an array with a coordinate has no empty axis, so the shift is less than the length of the axis
  have hinside : ∀ {coordinate : List Nat}, Within array.shape coordinate →
      0 < size ∧ axis < coordinate.length ∧ coordinate.getD axis 0 < size := by
    intro coordinate hwithin
    have hindex := hwithin.getD_lt haxis
    obtain ⟨hlt, -⟩ := List.getElem?_eq_some_iff.mp haxis
    exact ⟨by omega, by rwa [hwithin.length_eq], hindex⟩
  have hback : ∀ key ∈ coordinates array.shape,
      unrolled axis size (amount % size).toNat
        (key.modify axis (shifted (array.shape.getD axis 0) amount)) = key := by
    intro key hkey
    obtain ⟨hpos, hlt, hindex⟩ := hinside (mem_coordinates.mp hkey)
    have hshift := toNat_emod_lt amount hpos
    rw [modify_eq_set _ hlt, hsize, shifted_eq hpos, unrolled, List.set_set,
      List.getD_eq_getElem (key.set _ _) _ (by rwa [List.length_set]), List.getElem_set_self,
      unshift_forth hindex hshift.le, List.getD_eq_getElem _ _ hlt, List.set_getElem_self]
  have hplaces : ∀ place ∈ coordinates array.shape,
      (unrolled axis size (amount % size).toNat place).modify axis
          (shifted (array.shape.getD axis 0) amount) = place ∧
        (coordinates array.shape)[position array.shape
          (unrolled axis size (amount % size).toNat place)]?
          = some (unrolled axis size (amount % size).toNat place) := by
    intro place hplace
    have hwithin := mem_coordinates.mp hplace
    obtain ⟨hpos, hlt, -⟩ := hinside hwithin
    have hunrolled : Within array.shape (unrolled axis size (amount % size).toNat place) :=
      within_unrolled hwithin haxis
    refine ⟨?_, NetArray.getElem?_coordinates hunrolled⟩
    rw [modify_eq_set _ (hinside hunrolled).2.1, hsize, shifted_eq hpos]
    exact unrolled_back hwithin haxis (toNat_emod_lt amount hpos).le
  obtain ⟨hcount, hitems⟩ := moved_getElem? (nodup_coordinates array.shape)
    (hlength.trans (length_coordinates _).symm) hback hplaces
  refine ⟨hcount.trans (length_coordinates _), fun offset hoffset => (hitems offset).trans ?_⟩
  rw [getElem?_coordinates hoffset]
  rfl

/-- An element is at the place of its coordinate. -/
private theorem getElem?_of_mem_entries {entry : List Nat × α} (h : entry ∈ array.entries) :
    array.items[position array.shape entry.1]? = some entry.2 := by
  obtain ⟨place, hplace⟩ := List.mem_iff_getElem?.mp h
  obtain ⟨hkey, hitem⟩ := List.getElem?_zip_eq_some.mp hplace
  have hlt : place < array.shape.prod := by
    rw [← length_coordinates]
    exact (List.getElem?_eq_some_iff.mp hkey).1
  rw [getElem?_coordinates hlt, Option.some.injEq] at hkey
  rw [← hkey, position_digits hlt, hitem]

/-- The selected elements are those at the offsets of the region. -/
theorem select_items {selection : List Selector} {kept : Region}
    (hkept : region array.shape selection = .ok kept)
    (hlength : array.items.length = array.shape.prod) :
    (array.select selection).shape = (if kept.shape.isEmpty then [1] else kept.shape) ∧
      (array.select selection).items.length = kept.shape.prod ∧
      ∀ number : Nat, (array.select selection).items[number]?
        = kept.offsets[number]?.bind fun offset => array.items[offset]? := by
  obtain ⟨hshape, hoffsets, hcount⟩ := region_eq_ok hkept
  -- the selected entries: their coordinates give the offsets, their elements the items
  have hfst : (array.entries.filter fun entry => selects selection entry.1).map Prod.fst
      = (coordinates array.shape).filter (selects selection ·) := by
    have hzip : array.entries.map Prod.fst = coordinates array.shape :=
      List.map_fst_zip (by rw [length_coordinates, hlength])
    rw [← hzip, List.filter_map]
    rfl
  refine ⟨by rw [hshape]; rfl, ?_, fun number => ?_⟩
  · rw [← hcount, hoffsets, List.length_map, ← hfst, List.length_map]
    exact List.length_map ..
  · rw [hoffsets, ← hfst, List.map_map, List.getElem?_map, select, List.getElem?_map]
    cases hentry : (array.entries.filter fun entry => selects selection entry.1)[number]? with
    | none => rfl
    | some entry =>
      have hmem := List.mem_of_mem_filter (List.mem_of_getElem? hentry)
      rw [Option.map_some, Option.map_some, Option.bind_some, Function.comp_apply,
        getElem?_of_mem_entries hmem]

end Eager

end NetArray
