import Mathlib
import NetArray.Proofs.Outcome
import NetArray.Netlist.DataType

/-!
# Growing type tables

A type table only ever grows, and a type that was interned once keeps its meaning: its layout and its
width are the same in every larger table (`Grows.layout`, `Grows.bitWidth`). The layout of a type is found
by following a chain of elements through a bounded number of types; a chain that ended within the bound of
the smaller table ends within that of the larger one.

`TypeTable.Sound` says what interning keeps about a table: what is remembered about earlier requests is
true, and the width of a bit vector is a machine word. The width of any type is then one as well
(`Sound.bitWidth_lt`), since the products of nested arrays are checked.
-/

namespace NetArray

namespace TypeTable

/-- What a well-made type table satisfies. -/
structure Sound (table : TypeTable) : Prop where
  /-- A remembered id names the type that it is remembered for. -/
  known : ∀ {type id}, (type, id) ∈ table.known → table.types[id.index]? = some type
  /-- The width of a bit vector is a machine word. -/
  word : ∀ {width}, .bits width ∈ table.types → width < wordBound

/-- Every type of the one table is in the other, under the same id. -/
def Grows (table table' : TypeTable) : Prop :=
  ∀ (place : Nat) (type : DataType), table.types[place]? = some type →
    table'.types[place]? = some type

namespace Grows

variable {table table' table'' : TypeTable}

theorem refl (table : TypeTable) : Grows table table := fun _ _ h => h

theorem trans (h : Grows table table') (h' : Grows table' table'') : Grows table table'' :=
  fun _ _ hplace => h' _ _ (h _ _ hplace)

theorem push (table : TypeTable) (type : DataType) (known : List (DataType × TypeId)) :
    Grows table { types := table.types.push type, known := known } := by
  intro place type' h
  obtain ⟨hlt, -⟩ := Array.getElem?_eq_some_iff.mp h
  change (table.types.push type)[place]? = _
  rw [Array.getElem?_push_lt hlt, ← h, Array.getElem?_eq_getElem hlt]

theorem size_le (h : Grows table table') : table.size ≤ table'.size := by
  by_contra hlt
  have hplace : table'.size < table.types.size := Nat.lt_of_not_le hlt
  obtain ⟨hsize, -⟩ := Array.getElem?_eq_some_iff.mp (h _ _ (Array.getElem?_eq_getElem hplace))
  exact Nat.lt_irrefl _ hsize

theorem get (h : Grows table table') {id : TypeId} {type : DataType}
    (hget : table.get id = .ok type) : table'.get id = .ok type := by
  unfold TypeTable.get at hget ⊢
  split at hget
  · next heq => rw [h _ _ heq]; exact hget
  · cases hget

theorem unfold (h : Grows table table') {depth depth' : Nat} (hdepth : depth ≤ depth') {id : TypeId}
    {layout : Layout} (hunfold : table.unfold depth id = .ok layout) :
    table'.unfold depth' id = .ok layout := by
  induction depth generalizing depth' id layout with
  | zero => cases hunfold
  | succ depth ih =>
    -- the larger bound is not zero either, so both chains take a step
    obtain ⟨depth', rfl⟩ := Nat.exists_eq_add_one_of_ne_zero (n := depth') (by omega)
    simp only [TypeTable.unfold, bind_eq_ok] at hunfold ⊢
    obtain ⟨type, hget, hunfold⟩ := hunfold
    refine ⟨type, h.get hget, ?_⟩
    cases type with
    | bits width => exact hunfold
    | array element size =>
      simp only [bind_eq_ok] at hunfold ⊢
      obtain ⟨inner, hinner, hunfold⟩ := hunfold
      exact ⟨inner, ih (by omega) hinner, hunfold⟩

/-- A type keeps its layout. -/
theorem layout (h : Grows table table') {id : TypeId} {layout : Layout}
    (hlayout : table.layout id = .ok layout) : table'.layout id = .ok layout :=
  h.unfold (Nat.succ_le_succ h.size_le) hlayout

/-- A type keeps its width. -/
theorem bitWidth (h : Grows table table') {id : TypeId} {width : Nat}
    (hwidth : table.bitWidth id = .ok width) : table'.bitWidth id = .ok width := by
  simp only [TypeTable.bitWidth, bind_eq_ok] at hwidth ⊢
  obtain ⟨layout, hlayout, hwidth⟩ := hwidth
  exact ⟨layout, h.layout hlayout, hwidth⟩

end Grows

/-! ### Widths are machine words -/

theorem get_eq_ok {table : TypeTable} {id : TypeId} {type : DataType} :
    table.get id = .ok type ↔ table.types[id.index]? = some type := by
  unfold TypeTable.get
  split <;> simp [*]

theorem Sound.unfold_lt {table : TypeTable} (h : table.Sound) {depth : Nat} {id : TypeId}
    {layout : Layout} (hunfold : table.unfold depth id = .ok layout) : layout.width < wordBound := by
  induction depth generalizing id layout with
  | zero => cases hunfold
  | succ depth ih =>
    simp only [TypeTable.unfold, bind_eq_ok, get_eq_ok] at hunfold
    obtain ⟨type, hget, hunfold⟩ := hunfold
    cases type with
    | bits width =>
      cases hunfold
      exact h.word (Array.mem_of_getElem? hget)
    | array element size =>
      -- an array has the width of its innermost element here, its size counts later
      simp only [bind_eq_ok, pure_eq_ok] at hunfold
      obtain ⟨inner, hinner, rfl⟩ := hunfold
      exact (ih hinner : inner.width < wordBound)

theorem widthOf_lt {width result : Nat} {dims : List Nat} (hwidth : width < wordBound)
    (h : Layout.widthOf width dims = .ok result) : result < wordBound := by
  cases dims with
  | nil =>
    cases h
    exact hwidth
  | cons size dims =>
    simp only [Layout.widthOf, bind_eq_ok, word_eq_ok] at h
    obtain ⟨inner, -, hlt, rfl⟩ := h
    exact hlt

/-- The width of a type is a machine word. -/
theorem Sound.bitWidth_lt {table : TypeTable} (h : table.Sound) {id : TypeId} {width : Nat}
    (hwidth : table.bitWidth id = .ok width) : width < wordBound := by
  simp only [TypeTable.bitWidth, TypeTable.layout, bind_eq_ok] at hwidth
  obtain ⟨layout, hlayout, hwidth⟩ := hwidth
  exact widthOf_lt (h.unfold_lt hlayout) hwidth

/-! ### Interning -/

theorem getElem?_of_idxOf? {α : Type} [BEq α] [LawfulBEq α] {items : Array α} {item : α}
    {place : Nat} (h : items.idxOf? item = some place) : items[place]? = some item := by
  rw [Array.idxOf?_eq_map_finIdxOf?_val, Option.map_eq_some_iff] at h
  obtain ⟨index, hindex, rfl⟩ := h
  rw [Array.getElem?_eq_getElem index.isLt]
  exact congrArg some (Array.finIdxOf?_eq_some_iff.mp hindex).1

theorem sound_empty : Sound {} where
  known h := by simp at h
  word h := by simp at h

/-- Interning only ever adds a type. -/
theorem grows_intern (table : TypeTable) (type : DataType) : Grows table (table.intern type).2 := by
  unfold TypeTable.intern
  split
  · exact .refl _
  · split
    · exact fun _ _ h => h
    · exact .push _ _ _

theorem grows_array (table : TypeTable) (element : TypeId) (dims : List Nat) :
    Grows table (table.array element dims).2 := by
  induction dims with
  | nil => exact .refl _
  | cons size dims ih => exact ih.trans (grows_intern _ _)

/-- **Interning.** The table stays sound, and the id names the type. -/
theorem Sound.intern {table : TypeTable} (h : table.Sound) {type : DataType}
    (hword : ∀ width, type = .bits width → width < wordBound) :
    (table.intern type).2.Sound ∧
      (table.intern type).2.types[(table.intern type).1.index]? = some type := by
  unfold TypeTable.intern
  split
  · -- the type was asked for before
    next id hlookup =>
    obtain ⟨earlier, later, hknown, -⟩ := List.lookup_eq_some_iff.mp hlookup
    exact ⟨h, h.known (by rw [hknown]; simp)⟩
  · split
    · -- it is in the table, and is remembered from now on
      next place hplace =>
      have hget := getElem?_of_idxOf? hplace
      refine ⟨⟨fun hmem => ?_, h.word⟩, hget⟩
      rcases List.mem_cons.mp hmem with hnew | hold
      · cases hnew
        exact hget
      · exact h.known hold
    · -- it is new
      have hget : (table.types.push type)[table.size]? = some type := Array.getElem?_push_size
      refine ⟨⟨fun hmem => ?_, fun hmem => ?_⟩, hget⟩
      · rcases List.mem_cons.mp hmem with hnew | hold
        · cases hnew
          exact hget
        · exact Grows.push table type [] _ _ (h.known hold)
      · rcases Array.mem_push.mp hmem with hold | hnew
        · exact h.word hold
        · exact hword _ hnew.symm

theorem Sound.bits {table : TypeTable} (h : table.Sound) {width : Nat} (hword : width < wordBound) :
    (table.bits width).2.Sound :=
  (h.intern fun _ heq => by cases heq; exact hword).1

/-- A bit vector type has the width that it was asked for with. -/
theorem Sound.bitWidth_bits {table : TypeTable} (h : table.Sound) {width : Nat}
    (hword : width < wordBound) : (table.bits width).2.bitWidth (table.bits width).1 = .ok width := by
  have hget : (table.bits width).2.types[(table.bits width).1.index]? = some (.bits width) :=
    (h.intern fun _ heq => by cases heq; exact hword).2
  simp only [TypeTable.bitWidth, TypeTable.layout, TypeTable.unfold, TypeTable.bits, bind_eq_ok,
    get_eq_ok]
  exact ⟨_, ⟨_, hget, rfl⟩, rfl⟩

theorem Sound.array {table : TypeTable} (h : table.Sound) (element : TypeId) (dims : List Nat) :
    (table.array element dims).2.Sound := by
  induction dims with
  | nil => exact h
  | cons size dims ih =>
    -- an array is no bit vector, so nothing is asked of its width
    have hword : ∀ width, DataType.array (table.array element dims).1 size = .bits width →
        width < wordBound := fun _ heq => nomatch heq
    exact (ih.intern hword).1

end TypeTable

end NetArray
