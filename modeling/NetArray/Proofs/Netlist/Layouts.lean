import Mathlib
import NetArray.Proofs.Netlist.TypeGrowth

/-!
# Nested array types

The width of a type and the dimensions of its arrays are computed by following the same chain of elements, once to
multiply and once to list. `TypeTable.Nests` is that chain: a type is arrays of so many elements each, the
outermost first, around a bit vector. Whatever is asked about a type then has the same answer in terms of it
(`exists_nests`): the dimensions are those of the chain, the innermost elements have the width of its bit
vector, and the width of the type is the product of all of them.
-/

namespace NetArray

namespace TypeTable

/-- The type is nested arrays, of these sizes from the outermost one on, around a bit vector of this width. -/
inductive Nests (table : TypeTable) : TypeId → List Nat → Nat → Prop where
  | bits {id : TypeId} {width : Nat} (htype : table.get id = .ok (.bits width)) : Nests table id [] width
  | array {id element : TypeId} {size width : Nat} {dims : List Nat}
      (htype : table.get id = .ok (.array element size)) (helement : Nests table element dims width) :
      Nests table id (size :: dims) width

variable {table : TypeTable} {id : TypeId} {dims dims' : List Nat} {width width' : Nat}

/-- A type nests in one way only. -/
theorem Nests.det (h : table.Nests id dims width) (h' : table.Nests id dims' width') :
    dims = dims' ∧ width = width' := by
  induction h generalizing dims' width' with
  | bits htype =>
    cases h' with
    | bits htype' =>
      cases htype.symm.trans htype'
      exact ⟨rfl, rfl⟩
    | array htype' => cases htype.symm.trans htype'
  | array htype _ ih =>
    cases h' with
    | bits htype' => cases htype.symm.trans htype'
    | array htype' helement' =>
      cases htype.symm.trans htype'
      obtain ⟨hdims, hwidth⟩ := ih helement'
      exact ⟨congrArg _ hdims, hwidth⟩

/-- Unfolding a type follows the chain to the bit vector inside. -/
theorem nests_of_unfold {depth : Nat} {layout : Layout} (h : table.unfold depth id = .ok layout) :
    table.Nests id layout.dims layout.width ∧ table.get layout.element = .ok (.bits layout.width) := by
  induction depth generalizing id layout with
  | zero => cases h
  | succ depth ih =>
    simp only [TypeTable.unfold, bind_eq_ok] at h
    obtain ⟨type, htype, h⟩ := h
    cases type with
    | bits width =>
      cases h
      exact ⟨.bits htype, htype⟩
    | array element size =>
      simp only [bind_eq_ok, pure_eq_ok] at h
      obtain ⟨inner, hinner, rfl⟩ := h
      obtain ⟨hnests, helement⟩ := ih hinner
      exact ⟨.array htype hnests, helement⟩

/-- The checked product is the product. -/
theorem eq_of_widthOf {result : Nat} (h : Layout.widthOf width dims = .ok result) :
    result = width * dims.prod := by
  induction dims generalizing result with
  | nil =>
    cases h
    exact (Nat.mul_one _).symm
  | cons size dims ih =>
    simp only [Layout.widthOf, bind_eq_ok, word_eq_ok] at h
    obtain ⟨inner, hinner, -, rfl⟩ := h
    rw [ih hinner, List.prod_cons, Nat.mul_assoc, Nat.mul_comm dims.prod]

/-- The width of a bit vector is looked up. -/
theorem bitWidth_of_bits (h : table.get id = .ok (.bits width)) : table.bitWidth id = .ok width := by
  simp only [TypeTable.bitWidth, TypeTable.layout, TypeTable.unfold, bind_eq_ok]
  exact ⟨_, ⟨_, h, rfl⟩, rfl⟩

/-- **Layouts agree.** A type that has a width has dimensions, and both are read off the same chain. -/
theorem exists_nests {total : Nat} (h : table.bitWidth id = .ok total) :
    ∃ dims element width, table.Nests id dims width ∧ total = width * dims.prod ∧
      table.arrayShape id = .ok (if dims = [] then none else some (dims, element)) ∧
      table.bitWidth element = .ok width := by
  simp only [TypeTable.bitWidth, bind_eq_ok] at h
  obtain ⟨layout, hlayout, htotal⟩ := h
  obtain ⟨hnests, helement⟩ := nests_of_unfold hlayout
  refine ⟨layout.dims, layout.element, layout.width, hnests, eq_of_widthOf htotal, ?_,
    bitWidth_of_bits helement⟩
  rw [TypeTable.arrayShape, bind_eq_ok]
  exact ⟨layout, hlayout, by simp only [List.isEmpty_iff, pure_eq_ok]⟩

end TypeTable

end NetArray
