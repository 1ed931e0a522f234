import Mathlib
import NetArray.Proofs.Steps
import NetArray.Proofs.Netlist.Interning
import NetArray.Proofs.Netlist.Layouts
import NetArray.Proofs.Netlist.Spellings

/-!
# Array types

An array type names the type of its elements by an id, which may name an array again. What is asked of a type is
found by following these ids, and nothing in a table by itself says that they lead to an end. In a table that was
built by requests they do: the element of an array has to be there when the array is asked for, so it is older
(`TypeTable.Layered`). Every type then has a layout, and its width, its shape and its text are read off it.

* `TypeTable.Describes` — all that can be asked of a type, in terms of its dimensions and of the bit vector inside;
* `Layered.array` and `Layered.layout_array` — the type of a new array is described by the new dimensions, in front of
  those of its element;
* `widthOf_cases` — a width is the product of the dimensions, or some product on the way is no machine word;
* `Layered.text_eq_iff` — a text describes one type only: it can be read back, and types are interned;
* `layouts_canonical` is the result.
-/

namespace NetArray

namespace TypeTable

variable {table : TypeTable} {id id' element : TypeId} {dims dims' : List Nat} {width width' size : Nat}
  {type : DataType}

/-! ### Elements are older -/

/-- Each type stands in the table once, and an array stands behind the type of its elements. -/
structure Layered (table : TypeTable) : Prop where
  records : ∃ past, table.Records past
  older : ∀ {id element size}, table.get id = .ok (.array element size) → element.index < id.index

theorem lt_size_of_get (h : table.get id = .ok type) : id.index < table.size :=
  (Array.getElem?_eq_some_iff.mp (get_eq_ok.mp h)).1

theorem exists_get (h : id.index < table.size) : ∃ type, table.get id = .ok type :=
  ⟨_, get_eq_ok.mpr (Array.getElem?_eq_getElem h)⟩

namespace Layered

theorem empty : Layered {} where
  records := ⟨[], records_empty⟩
  older h := absurd (lt_size_of_get h) (Nat.not_lt_zero _)

/-- A type has one id only. -/
theorem unique (h : table.Layered) (hid : table.get id = .ok type) (hid' : table.get id' = .ok type) : id = id' := by
  obtain ⟨past, hrecords⟩ := h.records
  exact (hrecords.get_iff.mp hid).2.trans (hrecords.get_iff.mp hid').2.symm

theorem sound (h : table.Layered) : table.Sound := by
  obtain ⟨past, hrecords⟩ := h.records
  exact hrecords.sound

/-- **One interning.** A type whose elements are in the table comes behind them. -/
theorem intern (h : table.Layered) (hword : ∀ width, type = .bits width → width < wordBound)
    (helement : ∀ element size, type = .array element size → element.index < table.size) :
    (table.intern type).2.Layered ∧ (table.intern type).2.get (table.intern type).1 = .ok type := by
  obtain ⟨past, hrecords⟩ := h.records
  obtain ⟨hnext, -⟩ := hrecords.intern hword
  refine ⟨⟨⟨_, hnext⟩, fun {id element size} hget => ?_⟩, get_eq_ok.mpr (h.sound.intern hword).2⟩
  obtain ⟨hmem, hid⟩ := hnext.get_iff.mp hget
  by_cases hold : .array element size ∈ past
  · -- the array was there, under the same id
    rw [place_append hold] at hid
    exact h.older (hrecords.get_iff.mpr ⟨hold, hid⟩)
  · -- it is the new type, and stands behind all others
    obtain rfl : .array element size = type :=
      List.mem_singleton.mp ((List.mem_append.mp hmem).resolve_left hold)
    have hnew : table.size ≤ id.index := by
      rw [hid, place, hrecords.size, List.eraseDups_append,
        List.idxOf_append_of_notMem (mt List.mem_eraseDups.mp hold)]
      exact Nat.le_add_right _ _
    exact (helement _ _ rfl).trans_le hnew

theorem intern_array (h : table.Layered) (helement : element.index < table.size) (size : Nat) :
    (table.intern (.array element size)).2.Layered ∧
      (table.intern (.array element size)).2.get (table.intern (.array element size)).1 =
        .ok (.array element size) := by
  refine h.intern (fun _ heq => nomatch heq) ?_
  rintro _ _ ⟨⟩
  exact helement

/-- The types of a nested array are added from the inside out. -/
theorem array (h : table.Layered) (helement : element.index < table.size) (dims : List Nat) :
    (table.array element dims).2.Layered ∧
      (table.array element dims).1.index < (table.array element dims).2.size := by
  induction dims with
  | nil => exact ⟨h, helement⟩
  | cons size dims ih =>
    obtain ⟨hinner, hknown⟩ := ih
    obtain ⟨hnext, hget⟩ := hinner.intern_array hknown size
    exact ⟨hnext, lt_size_of_get hget⟩

/-- What a table remembers does not matter. -/
theorem forget (h : table.Layered) : Layered { types := table.types } where
  records := by
    obtain ⟨past, hrecords⟩ := h.records
    exact ⟨past, hrecords.forget⟩
  older := h.older

/-! ### Layouts -/

theorem exists_unfold (h : table.Layered) {depth : Nat} (hdepth : id.index < depth)
    (hknown : id.index < table.size) : ∃ layout, table.unfold depth id = .ok layout := by
  induction depth generalizing id with
  | zero => exact absurd hdepth (Nat.not_lt_zero _)
  | succ depth ih =>
    obtain ⟨type, hget⟩ := exists_get hknown
    simp only [TypeTable.unfold, bind_eq_ok]
    cases type with
    | bits width => exact ⟨_, _, hget, rfl⟩
    | array element size =>
      -- the element is older, so a smaller bound will do for it
      have hlt := h.older hget
      obtain ⟨layout, hlayout⟩ : ∃ layout, table.unfold depth element = .ok layout := ih (by omega) (by omega)
      exact ⟨_, _, hget, bind_eq_ok.mpr ⟨layout, hlayout, rfl⟩⟩

/-- Every type has a layout. -/
theorem exists_layout (h : table.Layered) (hknown : id.index < table.size) :
    ∃ layout, table.layout id = .ok layout :=
  h.exists_unfold (by omega) hknown

/-- An array has the layout of its element with one more dimension. -/
theorem layout_cons (h : table.Layered) (hget : table.get id = .ok (.array element size)) {layout : Layout}
    (hlayout : table.layout element = .ok layout) :
    table.layout id = .ok { layout with dims := size :: layout.dims } := by
  have hlt := h.older hget
  have hknown := lt_size_of_get hget
  obtain ⟨layout', hunfold⟩ : ∃ layout', table.unfold table.size element = .ok layout' :=
    h.exists_unfold (hlt.trans hknown) (hlt.trans hknown)
  -- one step less is left for the element, which is as good as the full bound
  obtain rfl : layout' = layout :=
    Except.ok.inj (((Grows.refl table).unfold (Nat.le_succ _) hunfold).symm.trans hlayout)
  simp only [TypeTable.layout, TypeTable.unfold, bind_eq_ok]
  exact ⟨_, hget, bind_eq_ok.mpr ⟨layout', hunfold, rfl⟩⟩

/-- A nested array has the layout of its element with more dimensions. -/
theorem layout_array (h : table.Layered) {layout : Layout} (hlayout : table.layout element = .ok layout)
    (helement : element.index < table.size) (dims : List Nat) :
    (table.array element dims).2.layout (table.array element dims).1 =
      .ok { layout with dims := dims ++ layout.dims } := by
  induction dims with
  | nil => exact hlayout
  | cons size dims ih =>
    obtain ⟨hinner, hknown⟩ := h.array helement dims
    obtain ⟨hnext, hget⟩ := hinner.intern_array hknown size
    exact hnext.layout_cons hget ((grows_intern _ _).layout ih)

end Layered

/-! ### Widths -/

/-- The width times the sizes of inner arrays is a machine word, for any number of them. -/
def ProductsFit (width : Nat) (dims : List Nat) : Prop :=
  ∀ inner, inner <:+ dims → width * inner.prod < wordBound

theorem productsFit_nil : ProductsFit width [] ↔ width < wordBound := by
  simp [ProductsFit, List.suffix_nil]

theorem productsFit_cons : ProductsFit width (size :: dims) ↔
    ProductsFit width dims ∧ width * dims.prod * size < wordBound := by
  have hprod : width * (size :: dims).prod = width * dims.prod * size := by
    rw [List.prod_cons, Nat.mul_assoc, Nat.mul_comm size]
  simp only [ProductsFit, List.suffix_cons_iff, forall_eq_or_imp, hprod]
  exact and_comm

/-- The checked product is the product, or it overflows on the way. -/
theorem widthOf_cases (hwidth : width < wordBound) (dims : List Nat) :
    ProductsFit width dims ∧ Layout.widthOf width dims = .ok (width * dims.prod) ∨
      ¬ProductsFit width dims ∧ Layout.widthOf width dims = .error .overflow := by
  induction dims with
  | nil => exact .inl ⟨productsFit_nil.mpr hwidth, by rw [List.prod_nil, Nat.mul_one]; rfl⟩
  | cons size dims ih =>
    rw [productsFit_cons, Layout.widthOf]
    rcases ih with ⟨hfit, hinner⟩ | ⟨hlarge, hinner⟩
    · -- the width depends on one more product
      rw [hinner]
      change _ ∧ word (width * dims.prod * size) = _ ∨ _ ∧ word (width * dims.prod * size) = _
      by_cases hword : width * dims.prod * size < wordBound
      · refine .inl ⟨⟨hfit, hword⟩, ?_⟩
        rw [word, if_pos hword, List.prod_cons, Nat.mul_assoc, Nat.mul_comm dims.prod]
      · exact .inr ⟨fun h => hword h.2, if_neg hword⟩
    · -- an overflow further in is one of the whole, also where a size of zero follows
      rw [hinner]
      exact .inr ⟨fun h => hlarge h.1, rfl⟩

theorem widthOf_append (width : Nat) (dims dims' : List Nat) :
    Layout.widthOf width (dims ++ dims') =
      Layout.widthOf width dims' >>= fun total => Layout.widthOf total dims := by
  induction dims with
  | nil =>
    rw [List.nil_append]
    cases Layout.widthOf width dims' <;> rfl
  | cons size dims ih =>
    rw [List.cons_append, Layout.widthOf, ih]
    cases Layout.widthOf width dims' <;> rfl

theorem bitWidth_of_layout {layout : Layout} (h : table.layout id = .ok layout) :
    table.bitWidth id = Layout.widthOf layout.width layout.dims := by
  rw [TypeTable.bitWidth, h]
  rfl

/-! ### What is asked of a type -/

/-- The type is arrays of these dimensions around a bit vector, and everything that is asked of it says so. -/
structure Describes (table : TypeTable) (id : TypeId) (dims : List Nat) (inner : TypeId) (width : Nat) : Prop where
  nests : table.Nests id dims width
  vector : table.get inner = .ok (.bits width)
  shape : table.arrayShape id = .ok (if dims = [] then none else some (dims, inner))
  text : table.text id = .ok (Layout.textOf width dims)
  /-- The width is the product of the dimensions and the width inside, or overflows. -/
  bitWidth : ProductsFit width dims ∧ table.bitWidth id = .ok (width * dims.prod) ∨
    ¬ProductsFit width dims ∧ table.bitWidth id = .error .overflow

/-- All that is asked of a type is read off its layout. -/
theorem Sound.describes (h : table.Sound) {layout : Layout} (hlayout : table.layout id = .ok layout) :
    table.Describes id layout.dims layout.element layout.width := by
  obtain ⟨hnests, hinner⟩ := nests_of_unfold hlayout
  refine ⟨hnests, hinner, ?_, ?_, ?_⟩
  · rw [arrayShape, bind_eq_ok]
    exact ⟨layout, hlayout, by simp only [List.isEmpty_iff, pure_eq_ok]⟩
  · rw [TypeTable.text, bind_eq_ok]
    exact ⟨layout, hlayout, rfl⟩
  · rw [bitWidth_of_layout hlayout]
    exact widthOf_cases (h.unfold_lt hlayout) layout.dims

/-- Types of the same dimensions and the same width are the same type. -/
theorem Layered.eq_of_nests (h : table.Layered) (hid : table.Nests id dims width)
    (hid' : table.Nests id' dims width) : id = id' := by
  induction hid generalizing id' with
  | bits hget =>
    cases hid' with
    | bits hget' => exact h.unique hget hget'
  | array hget _ ih =>
    cases hid' with
    | array hget' helement' =>
      obtain rfl := ih helement'
      exact h.unique hget hget'

/-- **Texts.** Types that are written alike are the same type. -/
theorem Layered.text_eq_iff (h : table.Layered) (hid : id.index < table.size) (hid' : id'.index < table.size) :
    table.text id = table.text id' ↔ id = id' := by
  refine ⟨fun heq => ?_, fun heq => by rw [heq]⟩
  obtain ⟨layout, hlayout⟩ := h.exists_layout hid
  obtain ⟨layout', hlayout'⟩ := h.exists_layout hid'
  have hdescribes := h.sound.describes hlayout
  have hdescribes' := h.sound.describes hlayout'
  rw [hdescribes.text, hdescribes'.text] at heq
  -- the texts tell the dimensions and the width, and these tell the type
  obtain ⟨hdims, hwidth⟩ := eq_of_textOf_eq (Except.ok.inj heq)
  refine h.eq_of_nests hdescribes.nests ?_
  rw [hdims, hwidth]
  exact hdescribes'.nests

/-! ### Requests -/

/-- The types that a request names as elements of arrays. -/
def Request.elements : Request → List TypeId
  | .array element _ => [element]
  | .intern (.array element _) => [element]
  | .bits _ | .intern (.bits _) | .reload => []

/-- The table has the types that the request names. -/
def Allows (table : TypeTable) (request : Request) : Prop :=
  request.Fits ∧ ∀ element ∈ request.elements, element.index < table.size

instance (table : TypeTable) (request : Request) : Decidable (table.Allows request) :=
  inferInstanceAs (Decidable (_ ∧ _))

/-- The table after a request. A reload that fails gives no other table. -/
def step (table : TypeTable) (request : Request) : TypeTable :=
  ((table.serve request).map Prod.snd).getD table

/-- The table is built from nothing by requests that name types of its own. -/
def Built (table : TypeTable) : Prop :=
  Reaches Allows step {} table

/-- **One request.** Elements stay older than their arrays. -/
theorem Layered.step (h : table.Layered) {request : Request} (hallows : table.Allows request) :
    (table.step request).Layered := by
  obtain ⟨hfits, hknown⟩ := hallows
  cases request with
  | bits width =>
    have helement : ∀ element size, DataType.bits width = .array element size → element.index < table.size :=
      fun _ _ heq => nomatch heq
    refine (h.intern ?_ helement).1
    rintro _ ⟨⟩
    exact hfits
  | array element dims => exact (h.array (hknown element List.mem_cons_self) dims).1
  | intern type =>
    refine (h.intern ?_ ?_).1
    · rintro width rfl
      exact hfits
    · rintro element size rfl
      exact hknown element List.mem_cons_self
  | reload =>
    -- the types are read back as they were, if they are read at all
    unfold TypeTable.step serve
    cases hread : TypeTable.ofJson? table.toJson with
    | none => exact h
    | some next =>
      obtain rfl := ofJson_toJson_eq hread
      exact h.forget

theorem Built.layered (h : table.Built) : table.Layered :=
  Reaches.keeps h (fun hallows hlayered => hlayered.step hallows) .empty

/-- **Array types have one layout and one spelling.** In a table that requests built, the element of an array has a
smaller id than the array. Every type has dimensions and a bit vector inside, which its shape, its text and, unless it
overflows, its width are made of. A nested array has its dimensions and then those of its element; its width is that
of its element times the new dimensions as long as the products fit. Two types are written alike just when they are
the same. -/
theorem layouts_canonical (hbuilt : table.Built) :
    (∀ {id element size}, table.get id = .ok (.array element size) → element.index < id.index) ∧
      (∀ {id}, id.index < table.size → ∃ dims inner width, table.Describes id dims inner width) ∧
      (∀ {element} (dims : List Nat), element.index < table.size → ∃ dims' inner width,
        table.Describes element dims' inner width ∧
          (table.array element dims).2.Describes (table.array element dims).1 (dims ++ dims') inner width ∧
          ∀ total, table.bitWidth element = .ok total → ProductsFit total dims →
            (table.array element dims).2.bitWidth (table.array element dims).1 = .ok (total * dims.prod) ∧
              total * dims.prod = width * (dims ++ dims').prod) ∧
      ∀ {id id'}, id.index < table.size → id'.index < table.size → (table.text id = table.text id' ↔ id = id') := by
  have h := hbuilt.layered
  refine ⟨h.older, fun {id} hid => ?_, fun {element} dims helement => ?_, h.text_eq_iff⟩
  · obtain ⟨layout, hlayout⟩ := h.exists_layout hid
    exact ⟨_, _, _, h.sound.describes hlayout⟩
  · obtain ⟨layout, hlayout⟩ := h.exists_layout helement
    have hnew := h.layout_array hlayout helement dims
    refine ⟨_, _, _, h.sound.describes hlayout, (h.sound.array element dims).describes hnew, ?_⟩
    intro total htotal hfit
    have hsmall : total < wordBound := h.sound.bitWidth_lt htotal
    rw [bitWidth_of_layout hlayout] at htotal
    -- the new dimensions are multiplied on from the width of the element
    rw [bitWidth_of_layout hnew, widthOf_append, htotal]
    refine ⟨((widthOf_cases hsmall dims).resolve_right fun hlarge => hlarge.1 hfit).2, ?_⟩
    rw [eq_of_widthOf htotal, List.prod_append, Nat.mul_assoc, Nat.mul_comm layout.dims.prod]

/-- A matrix of bytes, the same once more after a reload, and a single bit. -/
def matrixRequests : List Request :=
  [.bits 8, .array ⟨0⟩ [2, 3], .reload, .array ⟨0⟩ [2, 3], .bits 1]

/-- A stack of four such matrices. -/
theorem layouts_canonical_matrixRequests :
    let table := matrixRequests.foldl step {}
    table.Built ∧ table.bitWidth ⟨2⟩ = .ok 48 ∧ table.text ⟨2⟩ = .ok "array<2 x array<3 x i8>>" ∧
      (table.array ⟨2⟩ [4]).2.bitWidth (table.array ⟨2⟩ [4]).1 = .ok 192 ∧
      (table.array ⟨2⟩ [4]).2.arrayShape (table.array ⟨2⟩ [4]).1 = .ok (some ([4, 2, 3], ⟨0⟩)) ∧
      table.text ⟨1⟩ ≠ table.text ⟨2⟩ := by
  intro table
  have hbuilt : table.Built := reaches_foldl (by decide +kernel)
  obtain ⟨-, -, harray, htext⟩ := layouts_canonical hbuilt
  have hwidth : table.bitWidth ⟨2⟩ = .ok 48 := by decide +kernel
  have hknown : TypeId.index ⟨2⟩ < table.size := by decide +kernel
  obtain ⟨dims', inner, width, hmatrix, hstack, htotal⟩ := harray [4] hknown
  obtain ⟨hstacked, -⟩ := htotal 48 hwidth (by simp [productsFit_cons, productsFit_nil, wordBound])
  refine ⟨hbuilt, hwidth, by decide +kernel, hstacked, by decide +kernel, ?_⟩
  exact fun heq => absurd ((htext (by decide +kernel) hknown).mp heq) (by decide)

end TypeTable

end NetArray
