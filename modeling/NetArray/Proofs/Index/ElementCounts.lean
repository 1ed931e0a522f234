import Mathlib
import NetArray.Proofs.Index.CyclicRolls

/-!
# When elements can be counted

The number of elements of a shape is computed from the first axis to the last, and every product on the way has to be a
machine number. `PrefixesFit` says just that, and `elementCount` answers if it holds and faults if it does not
(`elementCount_eq_ok_iff`, `elementCount_eq_error_iff`).

For a shape without an empty axis the last product is the largest, so that only the number of elements matters
(`prefixesFit_iff_of_pos`). With an empty axis the number is zero, and the *order* of the axes decides: behind the empty
axis all products are zero, before it they may be anything.

A shift is the other piece of arithmetic on shapes. It faults for a single amount, on an axis that is as long as the
largest machine number (`normalShift_cases`).
-/

namespace NetArray

/-- All products of the first axes of a shape are machine numbers. -/
def PrefixesFit (shape : List Nat) : Prop :=
  ∀ front, front <+: shape → front.prod < sizeBound

variable {shape : List Nat} {start : Nat}

/-! ### Counting -/

theorem forall_prefix_cons_iff {size : Nat} {P : List Nat → Prop} :
    (∀ front, front <+: size :: shape → P front) ↔ P [] ∧ ∀ front, front <+: shape → P (size :: front) := by
  constructor
  · intro h
    exact ⟨h [] (List.nil_prefix), fun front hfront => h _ (List.cons_prefix_cons.mpr ⟨rfl, hfront⟩)⟩
  · rintro ⟨hnil, hcons⟩ front hfront
    rcases List.prefix_cons_iff.mp hfront with rfl | ⟨rest, rfl, hrest⟩
    · exact hnil
    · exact hcons rest hrest

/-- Multiplying on from a number that fits. -/
theorem productFrom_cases (hstart : start < sizeBound) :
    (∀ front, front <+: shape → start * front.prod < sizeBound) ∧ productFrom start shape = .ok (start * shape.prod) ∨
      ¬(∀ front, front <+: shape → start * front.prod < sizeBound) ∧ productFrom start shape = .error .overflow := by
  induction shape generalizing start with
  | nil =>
    left
    refine ⟨fun front hfront => ?_, by rw [List.prod_nil, Nat.mul_one]; rfl⟩
    rwa [List.prefix_nil.mp hfront, List.prod_nil, Nat.mul_one]
  | cons size shape ih =>
    -- what follows the first axis is multiplied on from the product with it
    simp only [forall_prefix_cons_iff, List.prod_cons, List.prod_nil, Nat.mul_one, ← Nat.mul_assoc, productFrom]
    by_cases hstep : start * size < sizeBound
    · rw [sized, if_pos hstep]
      rcases ih hstep with ⟨hfit, hrun⟩ | ⟨hlarge, hrun⟩
      · exact .inl ⟨⟨hstart, hfit⟩, hrun⟩
      · exact .inr ⟨fun hfit => hlarge hfit.2, hrun⟩
    · rw [sized, if_neg hstep]
      refine .inr ⟨fun hfit => hstep ?_, rfl⟩
      have hfirst := hfit.2 [] List.nil_prefix
      rwa [List.prod_nil, Nat.mul_one] at hfirst

/-- Elements are counted, or the count overflows. -/
theorem elementCount_cases (shape : List Nat) :
    PrefixesFit shape ∧ elementCount shape = .ok shape.prod ∨
      ¬PrefixesFit shape ∧ elementCount shape = .error .overflow := by
  have hcases := @productFrom_cases shape 1 (by decide)
  simp only [Nat.one_mul] at hcases
  exact hcases

theorem elementCount_eq_ok_iff : elementCount shape = .ok shape.prod ↔ PrefixesFit shape := by
  rcases elementCount_cases shape with ⟨hfit, hcount⟩ | ⟨hlarge, hcount⟩
  · exact ⟨fun _ => hfit, fun _ => hcount⟩
  · refine ⟨fun hok => ?_, fun hfit => absurd hfit hlarge⟩
    cases hcount.symm.trans hok

theorem elementCount_eq_error_iff {kind : Fault} :
    elementCount shape = .error kind ↔ kind = .overflow ∧ ¬PrefixesFit shape := by
  rcases elementCount_cases shape with ⟨hfit, hcount⟩ | ⟨hlarge, hcount⟩
  · rw [hcount]
    exact ⟨fun hfault => (nomatch hfault), fun h => absurd hfit h.2⟩
  · rw [hcount]
    exact ⟨fun hfault => ⟨(Except.error.inj hfault).symm, hlarge⟩, fun h => congrArg _ h.1.symm⟩

instance (shape : List Nat) : Decidable (PrefixesFit shape) :=
  decidable_of_iff _ elementCount_eq_ok_iff

/-- Where no axis is empty, the products only grow. -/
theorem prefixesFit_iff_of_pos (hpos : 0 < shape.prod) : PrefixesFit shape ↔ shape.prod < sizeBound := by
  constructor
  · intro hfit
    exact hfit shape (List.prefix_refl shape)
  · intro hlt front hfront
    exact (prod_prefix_le hfront hpos).trans_lt hlt

/-- A number of elements that fits and is still not found is zero. -/
theorem prod_eq_zero_of_not_fit (hlt : shape.prod < sizeBound) (hlarge : ¬PrefixesFit shape) : shape.prod = 0 := by
  by_contra hne
  exact hlarge ((prefixesFit_iff_of_pos (Nat.pos_of_ne_zero hne)).mpr hlt)

/-! ### Shifting -/

/-- The one amount by which an axis of the one length cannot be shifted: the lowest signed number, and the length that
is minus one if it is read as a signed number. -/
def Unshiftable (amount : Int) (length : Nat) : Prop :=
  sizeBound ∣ length + 1 ∧ amount = -signedBound

theorem bmod_eq_neg_one_iff (length : Nat) : Int.bmod length sizeBound = -1 ↔ sizeBound ∣ length + 1 := by
  rw [Int.bmod_def]
  unfold sizeBound
  omega

theorem normalShift_cases (amount : Int) (length : Nat) :
    ¬Unshiftable amount length ∧ (∃ shift, normalShift amount length = .ok shift) ∨
      Unshiftable amount length ∧ normalShift amount length = .error .overflow := by
  unfold normalShift
  simp only [bmod_eq_neg_one_iff]
  by_cases hzero : length = 0
  · have hfits : ¬sizeBound ∣ length + 1 := by
      rw [hzero]
      decide
    exact .inl ⟨fun h => hfits h.1, 0, if_pos hzero⟩
  · rw [if_neg hzero]
    by_cases hlast : sizeBound ∣ length + 1 ∧ amount = -signedBound
    · exact .inr ⟨hlast, if_pos hlast⟩
    · exact .inl ⟨hlast, _, if_neg hlast⟩

/-! ### Maps of rolls -/

variable {amount : Int} {axis size : Nat}

/-- Elements that can be counted, and are no more than memory can address, can be moved around. -/
theorem exists_rollMap (hfit : PrefixesFit shape) (hsize : shape.prod < signedBound) (amount : Int) :
    ∃ map, rollMap shape amount = .ok map := by
  rcases Nat.eq_zero_or_pos shape.prod with hzero | hpos
  · refine ⟨.identity, ?_⟩
    rw [rollMap, elementCount_eq_ok_iff.mpr hfit]
    change (normalShift amount shape.prod >>= _) = _
    rw [hzero, normalShift_zero]
    rfl
  · exact ⟨_, rollMap_eq hpos hsize⟩

theorem rollMap_overflow (hlarge : ¬PrefixesFit shape) : rollMap shape amount = .error .overflow := by
  rw [rollMap, elementCount_eq_error_iff.mpr ⟨rfl, hlarge⟩]
  rfl

theorem exists_rollAxisMap (haxis : shape[axis]? = some size) (hshift : ¬Unshiftable amount size) :
    ∃ map, rollAxisMap shape axis amount = .ok map := by
  rcases normalShift_cases amount size with ⟨-, shift, hrun⟩ | ⟨hlast, -⟩
  · rw [rollAxisMap, haxis]
    change ∃ map, (liftM (normalShift amount size) >>= _ : Attempt IndexError OffsetMap) = .ok map
    rw [hrun]
    cases shift with
    | zero => exact ⟨_, rfl⟩
    | succ shift => exact ⟨_, rfl⟩
  · exact absurd hlast hshift

theorem rollAxisMap_overflow (haxis : shape[axis]? = some size) (hshift : Unshiftable amount size) :
    rollAxisMap shape axis amount = .error (.fault .overflow) := by
  rcases normalShift_cases amount size with ⟨hfits, -⟩ | ⟨-, hrun⟩
  · exact absurd hshift hfits
  · rw [rollAxisMap, haxis]
    change (liftM (normalShift amount size) >>= _ : Attempt IndexError OffsetMap) = _
    rw [hrun]
    rfl

theorem rollAxisMap_refused (haxis : shape.length ≤ axis) :
    rollAxisMap shape axis amount = .error (.refused (.noAxis axis shape.length)) := by
  rw [rollAxisMap, List.getElem?_eq_none haxis]

end NetArray
