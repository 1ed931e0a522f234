import Mathlib
import NetArray.Proofs.Netlist.TypeGrowth
import NetArray.Names

/-!
# Fresh names

Names are numbered by the place at which they were entered, and a table of names only grows. `Names.Grows` says
so: every number keeps its name, and no name is entered twice.

The search for a fresh name looks at as many candidates as the table holds, and takes the next one if all of them
are taken. That is enough: the candidates of one stem differ from each other (`numbered_injective`), so a table
cannot hold more of them than it has places (`find?_firstFree`). A fresh name was therefore in no way entered
before, whoever else uses the table, and its number is a new one (`fresh_spec`).

All that a session can find when it begins is a table after some requests (`Names.after`), and such a table enters no
name twice (`distinct_after`).
-/

namespace NetArray

namespace Names

variable {names names' names'' : Names} {ident ident' : Ident} {text stem : String}

/-! ### Looking names up -/

theorem text_eq_ok : names.text ident = .ok text ↔ names.table[ident.index]? = some text := by
  unfold Names.text
  split <;> simp [*]

theorem lt_of_text (h : names.text ident = .ok text) : ident.index < names.table.size :=
  (Array.getElem?_eq_some_iff.mp (text_eq_ok.mp h)).1

theorem exists_text (h : ident.index < names.table.size) : ∃ text, names.text ident = .ok text :=
  ⟨_, text_eq_ok.mpr (Array.getElem?_eq_getElem h)⟩

theorem text_of_find? (h : names.find? text = some ident) : names.text ident = .ok text := by
  rw [find?, Option.map_eq_some_iff] at h
  obtain ⟨place, hplace, rfl⟩ := h
  exact text_eq_ok.mpr (TypeTable.getElem?_of_idxOf? hplace)

theorem find?_eq_none_iff : names.find? text = none ↔ text ∉ names.table := by
  rw [find?, Option.map_eq_none_iff, Array.idxOf?_eq_none_iff]

/-- A name that has a number is found. -/
theorem find?_ne_none (h : names.text ident = .ok text) : names.find? text ≠ none := by
  rw [Ne, find?_eq_none_iff, not_not]
  exact Array.mem_of_getElem? (text_eq_ok.mp h)

/-- No name is in the table twice. -/
def Distinct (names : Names) : Prop :=
  names.table.toList.Nodup

instance (names : Names) : Decidable names.Distinct :=
  inferInstanceAs (Decidable (List.Nodup _))

/-- A name has one number only. -/
theorem Distinct.ident_eq (h : names.Distinct) (htext : names.text ident = .ok text)
    (htext' : names.text ident' = .ok text) : ident = ident' := by
  obtain ⟨hlt, heq⟩ := Array.getElem?_eq_some_iff.mp (text_eq_ok.mp htext)
  obtain ⟨hlt', heq'⟩ := Array.getElem?_eq_some_iff.mp (text_eq_ok.mp htext')
  have hsame : names.table.toList[ident.index] = names.table.toList[ident'.index] := by
    rw [Array.getElem_toList, Array.getElem_toList, heq, heq']
  have hindex : ident.index = ident'.index := (List.Nodup.getElem_inj_iff h).mp hsame
  cases ident
  cases ident'
  exact congrArg Ident.mk hindex

/-! ### Growing tables -/

/-- Every name of the one table is in the other, under the same number, and none is entered twice. -/
structure Grows (names names' : Names) : Prop where
  /-- Numbers keep their names. -/
  text : ∀ {ident text}, names.text ident = .ok text → names'.text ident = .ok text
  /-- Names stay distinct. -/
  distinct : names.Distinct → names'.Distinct

theorem Grows.refl (names : Names) : names.Grows names := ⟨id, id⟩

theorem Grows.trans (h : names.Grows names') (h' : names'.Grows names'') : names.Grows names'' :=
  ⟨fun htext => h'.text (h.text htext), fun hdistinct => h'.distinct (h.distinct hdistinct)⟩

theorem Grows.lt (h : names.Grows names') (hlt : ident.index < names.table.size) :
    ident.index < names'.table.size := by
  obtain ⟨text, htext⟩ := exists_text hlt
  exact lt_of_text (h.text htext)

theorem Grows.size_le (h : names.Grows names') : names.table.size ≤ names'.table.size := by
  by_contra hlt
  have hlast : (⟨names'.table.size⟩ : Ident).index < names'.table.size := h.lt (Nat.lt_of_not_le hlt)
  exact Nat.lt_irrefl _ hlast

/-- A name that the larger table does not have is not in the smaller one. -/
theorem Grows.find?_eq_none (h : names.Grows names') (hnone : names'.find? text = none) :
    names.find? text = none := by
  cases hfound : names.find? text with
  | none => rfl
  | some ident => exact absurd hnone (find?_ne_none (h.text (text_of_find? hfound)))

/-- A new name is entered behind the others. -/
theorem grows_push (counters : List (String × Nat)) (hnone : names.find? text = none) :
    names.Grows { table := names.table.push text, counters := counters } where
  text {ident old} hold := by
    rw [text_eq_ok] at hold ⊢
    obtain ⟨hlt, hget⟩ := Array.getElem?_eq_some_iff.mp hold
    change (names.table.push text)[ident.index]? = _
    rw [Array.getElem?_push_lt hlt, hget]
  distinct h := by
    change (names.table.push text).toList.Nodup
    rw [Array.toList_push, List.nodup_append]
    refine ⟨h, List.nodup_singleton _, fun old hold new hnew => ?_⟩
    rw [find?_eq_none_iff, ← Array.mem_toList_iff] at hnone
    rw [List.mem_singleton.mp hnew]
    exact fun heq => hnone (heq ▸ hold)

/-- **Interning.** A name is found, or it is new and gets the next number. -/
theorem intern_cases (names : Names) (text : String) :
    (∃ ident, names.find? text = some ident ∧ names.intern text = (ident, names)) ∨
      names.find? text = none ∧ names.intern text
        = (⟨names.table.size⟩, { names with table := names.table.push text }) := by
  unfold intern
  cases hfound : names.find? text with
  | some ident => exact .inl ⟨ident, rfl, rfl⟩
  | none => exact .inr ⟨rfl, rfl⟩

theorem grows_intern (names : Names) (text : String) : names.Grows (names.intern text).2 := by
  rcases names.intern_cases text with ⟨ident, -, hintern⟩ | ⟨hnone, hintern⟩
  · rw [hintern]
    exact .refl _
  · rw [hintern]
    exact grows_push _ hnone

/-- The number that interning answers is that of the name. -/
theorem text_intern (names : Names) (text : String) :
    (names.intern text).2.text (names.intern text).1 = .ok text := by
  rcases names.intern_cases text with ⟨ident, hfound, hintern⟩ | ⟨-, hintern⟩
  · rw [hintern]
    exact text_of_find? hfound
  · rw [hintern, text_eq_ok]
    exact Array.getElem?_push_size

theorem lt_intern (names : Names) (text : String) :
    (names.intern text).1.index < (names.intern text).2.table.size :=
  lt_of_text (names.text_intern text)

/-! ### Numbered names -/

/-- The numbered names of a stem differ from each other. -/
theorem numbered_injective (stem : String) : Function.Injective (numbered stem) := by
  intro count count' h
  have hdigits : Nat.toDigits 10 count = Nat.toDigits 10 count' := by
    have hchars := congrArg String.toList h
    simpa [numbered, Nat.toString_eq_ofList_toDigits] using hchars
  -- a number can be read off its digits
  rw [← Nat.ofDigitChars_ten_toDigits (n := count), hdigits, Nat.ofDigitChars_ten_toDigits]

/-- The search ends at a name that is not there, or has seen that all candidates are. -/
theorem firstFree_cases (names : Names) (stem : String) (tries start : Nat) :
    names.find? (numbered stem (names.firstFree stem tries start)) = none ∨
      names.firstFree stem tries start = start + tries ∧
        ∀ step < tries, names.find? (numbered stem (start + step)) ≠ none := by
  induction tries generalizing start with
  | zero => exact .inr ⟨rfl, fun step hstep => absurd hstep (Nat.not_lt_zero _)⟩
  | succ tries ih =>
    rw [firstFree]
    split
    · next htaken =>
      rcases ih (start + 1) with hfree | ⟨hlast, hall⟩
      · exact .inl hfree
      · refine .inr ⟨by rw [hlast]; omega, fun step hstep => ?_⟩
        -- the first candidate, and those after it
        cases step with
        | zero => exact Option.ne_none_iff_isSome.mpr htaken
        | succ step =>
          have hnext := hall step (by omega)
          rwa [Nat.add_assoc, Nat.add_comm 1 step] at hnext
    · next hfree => exact .inl (Option.not_isSome_iff_eq_none.mp hfree)

/-- A table cannot hold more candidates of one stem than it has places. -/
theorem exists_free (names : Names) (stem : String) (start : Nat) :
    ∃ step ≤ names.table.size, names.find? (numbered stem (start + step)) = none := by
  by_contra hno
  push Not at hno
  have hsubset : (Finset.range (names.table.size + 1)).image (fun step => numbered stem (start + step))
      ⊆ names.table.toList.toFinset := by
    intro text htext
    obtain ⟨step, hstep, rfl⟩ := Finset.mem_image.mp htext
    have htaken := hno step (Nat.lt_succ_iff.mp (Finset.mem_range.mp hstep))
    rw [Ne, find?_eq_none_iff, not_not, ← Array.mem_toList_iff] at htaken
    exact List.mem_toFinset.mpr htaken
  have hinj : Function.Injective fun step => numbered stem (start + step) := fun step step' h =>
    Nat.add_left_cancel (numbered_injective stem h)
  have hcard := (Finset.card_le_card hsubset).trans (List.toFinset_card_le _)
  rw [Finset.card_image_of_injective _ hinj, Finset.card_range, Array.length_toList] at hcard
  omega

/-- **The search.** With as many tries as there are places it ends at a name that is not there. -/
theorem find?_firstFree (names : Names) (stem : String) (start : Nat) :
    names.find? (numbered stem (names.firstFree stem names.table.size start)) = none := by
  rcases names.firstFree_cases stem names.table.size start with hfree | ⟨hlast, hall⟩
  · exact hfree
  · -- all tries were in vain, so it is the one after them that is free
    obtain ⟨step, hstep, hfree⟩ := names.exists_free stem start
    have hstep' : step = names.table.size := by
      by_contra hne
      exact hall step (by omega) hfree
    rw [hlast, ← hstep']
    exact hfree

/-- The counters do not matter for what is found. -/
theorem find?_withCounters (names : Names) (counters : List (String × Nat)) (text : String) :
    find? { names with counters := counters } text = names.find? text := rfl

/-- The number of the next fresh name of a stem. -/
def nextNumber (names : Names) (stem : String) : Nat :=
  names.firstFree stem names.table.size (names.counter stem)

theorem find?_nextNumber (names : Names) (stem : String) :
    names.find? (numbered stem (names.nextNumber stem)) = none :=
  names.find?_firstFree stem _

/-- A fresh name is entered behind the other names, and the stem notes the number after it. -/
theorem fresh_eq (names : Names) (stem : String) :
    names.fresh stem = (⟨names.table.size⟩,
      { table := names.table.push (numbered stem (names.nextNumber stem))
        counters := (stem, names.nextNumber stem + 1) :: names.counters }) := by
  have hnone := names.find?_nextNumber stem
  unfold nextNumber at hnone ⊢
  simp only [fresh, intern]
  rw [find?_withCounters, hnone]

/-- The name behind a fresh number. -/
theorem text_fresh (names : Names) (stem : String) :
    (names.fresh stem).2.text (names.fresh stem).1 = .ok (numbered stem (names.nextNumber stem)) := by
  rw [fresh_eq]
  exact text_eq_ok.mpr Array.getElem?_push_size

/-- **Fresh names.** A fresh name is a numbered one that was not entered before, and gets the next number of
the table. -/
theorem fresh_spec (names : Names) (stem : String) :
    names.Grows (names.fresh stem).2 ∧ (names.fresh stem).1 = ⟨names.table.size⟩ ∧
      ∃ count, names.find? (numbered stem count) = none ∧
        (names.fresh stem).2.text (names.fresh stem).1 = .ok (numbered stem count) := by
  have hnone := names.find?_nextNumber stem
  refine ⟨?_, by rw [fresh_eq], _, hnone, names.text_fresh stem⟩
  rw [fresh_eq]
  exact grows_push _ hnone

theorem grows_fresh (names : Names) (stem : String) : names.Grows (names.fresh stem).2 :=
  (names.fresh_spec stem).1

/-! ### Histories of tables -/

/-- What changes a table of names. -/
inductive Request where
  | intern (text : String)
  | fresh (stem : String)

/-- The table after one more request. -/
def answer (names : Names) : Request → Names
  | .intern text => (names.intern text).2
  | .fresh stem => (names.fresh stem).2

/-- The table after some requests, the first of which came to an empty table. -/
def after (requests : List Request) : Names :=
  requests.foldl answer {}

theorem grows_answer (names : Names) (request : Request) : names.Grows (names.answer request) := by
  cases request with
  | intern text => exact grows_intern names text
  | fresh stem => exact grows_fresh names stem

theorem grows_foldl_answer (names : Names) (requests : List Request) : names.Grows (requests.foldl answer names) := by
  induction requests generalizing names with
  | nil => exact .refl names
  | cons request requests ih => exact (names.grows_answer request).trans (ih _)

/-- Whatever was asked for before, no name is in the table twice. -/
theorem distinct_after (requests : List Request) : (after requests).Distinct :=
  (grows_foldl_answer {} requests).distinct List.nodup_nil

end Names

end NetArray
