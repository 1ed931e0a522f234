import Mathlib
import NetArray.Netlist.DataType

/-!
# Reading texts back

A text that is put together from parts can be taken apart again if it is known where each part ends. Some parts tell
that themselves. A number or a name does not: it ends where a character follows that cannot be part of it (`Stops`).

Each lemma below takes a part off the front of two equal texts. The parts are equal, and so is what follows them.

* `Legible.unique_flatMap` takes off a list of parts of which each can be taken off (`Legible`), where what follows the
  list does not look like one more of them;
* `front_unique` takes off characters of one kind, `number_unique` a number;
* `type_unique` takes off a data type, from the outer array inward.
-/

namespace NetArray

/-! ### Lists of parts -/

/-- Parts that can be read one after the other: each is taken off where a text follows that closes it, and the next
part is such a text. -/
structure Legible {α : Type} (part : α → List Char) (Proper : α → Prop) (Opens Closes : List Char → Prop) : Prop where
  unique : ∀ {item item' rest rest'}, Proper item → Proper item' → Closes rest → Closes rest' →
    part item ++ rest = part item' ++ rest' → item = item' ∧ rest = rest'
  /-- It is seen of a text that it begins with a part. -/
  opens : ∀ {item} rest, Proper item → Opens (part item ++ rest)
  closes : ∀ {text}, Opens text → Closes text

namespace Legible

variable {α : Type} {part : α → List Char} {Proper : α → Prop} {Opens Closes : List Char → Prop}
  {items items' : List α} {rest rest' : List Char}

theorem closes_flatMap (h : Legible part Proper Opens Closes) (hitems : ∀ item ∈ items, Proper item)
    (hrest : Closes rest) : Closes (items.flatMap part ++ rest) := by
  cases items with
  | nil => exact hrest
  | cons item items =>
    rw [List.flatMap_cons, List.append_assoc]
    exact h.closes (h.opens _ (hitems item List.mem_cons_self))

/-- A list of parts is taken off part by part, as long as parts follow. -/
theorem unique_flatMap (h : Legible part Proper Opens Closes) (hitems : ∀ item ∈ items, Proper item)
    (hitems' : ∀ item ∈ items', Proper item) (hrest : Closes rest ∧ ¬Opens rest) (hrest' : Closes rest' ∧ ¬Opens rest')
    (heq : items.flatMap part ++ rest = items'.flatMap part ++ rest') : items = items' ∧ rest = rest' := by
  induction items generalizing items' with
  | nil =>
    cases items' with
    | nil => exact ⟨rfl, heq⟩
    | cons item items' =>
      -- what follows the one list would begin with a part of the other
      rw [List.flatMap_nil, List.nil_append, List.flatMap_cons, List.append_assoc] at heq
      exact absurd (heq ▸ h.opens _ (hitems' item List.mem_cons_self)) hrest.2
  | cons item items ih =>
    cases items' with
    | nil =>
      rw [List.flatMap_nil, List.nil_append, List.flatMap_cons, List.append_assoc] at heq
      exact absurd (heq ▸ h.opens _ (hitems item List.mem_cons_self)) hrest'.2
    | cons item' items' =>
      rw [List.forall_mem_cons] at hitems hitems'
      rw [List.flatMap_cons, List.flatMap_cons, List.append_assoc, List.append_assoc] at heq
      obtain ⟨rfl, htail⟩ := h.unique hitems.1 hitems'.1 (h.closes_flatMap hitems.2 hrest.1)
        (h.closes_flatMap hitems'.2 hrest'.1) heq
      obtain ⟨rfl, hends⟩ := ih hitems.2 hitems'.2 htail
      exact ⟨rfl, hends⟩

end Legible

/-- Texts with a separator between them, written one after the other: all but the first have it in front. -/
theorem toList_intercalate_cons (separator first : String) (others : List String) :
    (separator.intercalate (first :: others)).toList =
      first.toList ++ others.flatMap fun text => separator.toList ++ text.toList := by
  induction others generalizing first with
  | nil => simp
  | cons second others ih =>
    rw [String.intercalate_cons_cons, String.toList_append, String.toList_append, ih]
    simp

/-! ### Characters of one kind -/

/-- A text does not begin with a character of this kind. -/
def Stops (kind : Char → Bool) (text : List Char) : Prop :=
  ∀ char ∈ text.head?, kind char = false

section Stops

variable {kind : Char → Bool} {char : Char} {text : List Char}

@[simp] theorem stops_nil : Stops kind [] :=
  nofun

@[simp] theorem stops_cons : Stops kind (char :: text) ↔ kind char = false := by
  simp [Stops]

end Stops

/-- Characters of one kind are taken off where they end. -/
theorem front_unique {kind : Char → Bool} {front front' rest rest' : List Char}
    (hfront : ∀ char ∈ front, kind char) (hfront' : ∀ char ∈ front', kind char) (hrest : Stops kind rest)
    (hrest' : Stops kind rest') (h : front ++ rest = front' ++ rest') : front = front' ∧ rest = rest' := by
  have hlegible : Legible (fun char => [char]) (fun char => kind char) (fun text => ¬Stops kind text) fun _ => True :=
    { unique := fun _ _ _ _ heq => List.cons.inj heq
      opens := fun {char} rest hkind => by
        rw [List.singleton_append, stops_cons, hkind]
        decide
      closes := fun _ => trivial }
  refine hlegible.unique_flatMap hfront hfront' ⟨trivial, not_not_intro hrest⟩ ⟨trivial, not_not_intro hrest'⟩ ?_
  rwa [List.flatMap_singleton', List.flatMap_singleton']

/-- A number is taken off where its digits end. -/
theorem number_unique {number number' : Nat} {rest rest' : List Char} (hrest : Stops Char.isDigit rest)
    (hrest' : Stops Char.isDigit rest') (h : Nat.toDigits 10 number ++ rest = Nat.toDigits 10 number' ++ rest') :
    number = number' ∧ rest = rest' := by
  have hdigits (number : Nat) : ∀ char ∈ Nat.toDigits 10 number, char.isDigit := fun _ =>
    Nat.isDigit_of_mem_toDigits (by decide) (by decide)
  obtain ⟨heq, htail⟩ := front_unique (hdigits number) (hdigits number') hrest hrest' h
  refine ⟨?_, htail⟩
  rw [← Nat.ofDigitChars_ten_toDigits (n := number), heq, Nat.ofDigitChars_ten_toDigits]

/-! ### Data types -/

theorem toList_textOf_nil (width : Nat) : (Layout.textOf width []).toList = 'i' :: Nat.toDigits 10 width := by
  rw [Layout.textOf]
  change ("i" ++ width.repr).toList = _
  simp

theorem toList_textOf_cons (width size : Nat) (dims : List Nat) : (Layout.textOf width (size :: dims)).toList =
    "array<".toList ++ (Nat.toDigits 10 size ++ (" x ".toList ++ ((Layout.textOf width dims).toList ++ ['>']))) := by
  rw [Layout.textOf]
  change ("array<" ++ size.repr ++ " x " ++ Layout.textOf width dims ++ ">").toList = _
  simp

/-- A data type is taken off where its last number ends. -/
theorem type_unique {dims dims' : List Nat} {width width' : Nat} {rest rest' : List Char}
    (hrest : Stops Char.isDigit rest) (hrest' : Stops Char.isDigit rest')
    (h : (Layout.textOf width dims).toList ++ rest = (Layout.textOf width' dims').toList ++ rest') :
    dims = dims' ∧ width = width' ∧ rest = rest' := by
  induction dims generalizing dims' rest rest' with
  | nil =>
    cases dims' with
    | nil =>
      rw [toList_textOf_nil, toList_textOf_nil, List.cons_append, List.cons_append, List.cons_inj_right] at h
      exact ⟨rfl, number_unique hrest hrest' h⟩
    | cons size dims' =>
      -- a bit vector begins with another letter than an array
      simp [toList_textOf_nil, toList_textOf_cons] at h
  | cons size dims ih =>
    cases dims' with
    | nil => simp [toList_textOf_nil, toList_textOf_cons] at h
    | cons size' dims' =>
      simp only [toList_textOf_cons, List.append_assoc, List.append_cancel_left_eq] at h
      obtain ⟨rfl, htail⟩ := number_unique (by simp) (by simp) h
      rw [List.append_cancel_left_eq] at htail
      -- the element is followed by a bracket, which is no digit either
      obtain ⟨rfl, rfl, hbracket⟩ := ih (by simp) (by simp) htail
      exact ⟨rfl, rfl, (List.cons.inj hbracket).2⟩

/-- Types that are written alike have the same dimensions and the same width. -/
theorem eq_of_textOf_eq {dims dims' : List Nat} {width width' : Nat}
    (h : Layout.textOf width dims = Layout.textOf width' dims') : dims = dims' ∧ width = width' := by
  have hchars : (Layout.textOf width dims).toList ++ [] = (Layout.textOf width' dims').toList ++ [] := by rw [h]
  obtain ⟨hdims, hwidth, -⟩ := type_unique stops_nil stops_nil hchars
  exact ⟨hdims, hwidth⟩

end NetArray
