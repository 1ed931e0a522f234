import Mathlib
import NetArray.Proofs.Index.AxisPermutations
import NetArray.Proofs.Index.RegionOutcomes
import NetArray.Proofs.Designs.Stages

/-!
# What the designs mean

A design is built under settings, and in a session that may have given names before. Neither may change what it means:
which bit of which input comes out where. `Blueprint` says that once for each design (`Design.blueprints`), and
`Design.build_realizes` says that each design builds such a netlist under all settings and after all requests for names.

* The wires that the settings ask for, the stem of their names and the merging of ranges change the cells, and with
  them the numbers of the signals. The proofs do not follow them: `Design.answers_deliver` only knows the content of
  the array that is lowered.
* The content follows from the operations of the design, one rule per operation (`ArrayView.Filled`). Where an
  operation moves elements, their places are computed, and never their bits.
* A design meets its blueprint while the netlist is under construction (`Blueprint.Met`), where the inputs and the names
  are still at hand, and then when it is finished (`Design.realizes_finish`).
-/

namespace NetArray

/-! ### Blueprints -/

/-- What a netlist is meant to be: its inputs and its output, and where the bits of the output come from. -/
structure Blueprint where
  design : String
  inputs : List String
  output : String
  /-- The origins of the bits of the output, the least significant first. -/
  bits : List BitOrigin
  deriving DecidableEq, Repr

/-- The netlist under construction is what it is meant to be: input number `n` is signal number `n`, and the resolver
finds the bits behind the output, which comes last. -/
def Blueprint.Met (plan : Blueprint) (builder : Builder) : Prop :=
  ∃ inputs, Design.Delivers inputs plan.output plan.bits builder ∧
    inputs.map (fun port => (port.name, port.direction, port.signal))
      = plan.inputs.mapIdx fun number name => (name, .input, some ⟨number⟩)

namespace Design

/-- Some bits of an input, the least significant first. -/
def inputBits (input : SignalId) (low width : Nat) : List BitOrigin :=
  (List.range width).map fun bit => .input input (low + bit)

/-- Word number `index` of an input. -/
def word (input : SignalId) (index : Nat) : List BitOrigin :=
  inputBits input (index * 32) 32

/-- Some words of an input, one after the other. -/
def words (input : SignalId) (indices : List Nat) : List BitOrigin :=
  indices.flatMap (word input)

/-- The 4x8 words of an input with the axes exchanged: in row `i` of the result is column `i` of the input. -/
def exchanged : List BitOrigin :=
  words ⟨0⟩ ((List.range 8).flatMap fun row => (List.range 4).map fun column => column * 8 + row)

/-- One word sixteen times, and sixteen other words. -/
def broadcast : List BitOrigin :=
  words ⟨1⟩ (List.replicate 16 0) ++ words ⟨0⟩ (List.range 16)

/-- A word of ones, another word fifteen times, and sixteen other words. -/
def blasted : List BitOrigin :=
  List.replicate 32 (.constant .one) ++ words ⟨1⟩ (List.replicate 15 0) ++ words ⟨0⟩ (List.range 16)

/-- Ten words of each of three inputs, the second input in front. -/
def joined : List BitOrigin :=
  words ⟨1⟩ (List.range 10) ++ words ⟨0⟩ (List.range 10) ++ words ⟨2⟩ (List.range 10)

/-- The blueprints of all designs. -/
def blueprints : List Blueprint :=
  [⟨"transpose", ["in1"], "out", exchanged⟩,
    -- the same words in the same order, in another shape
    ⟨"transpose_reshape", ["in1"], "out", exchanged⟩,
    ⟨"broadcast_reshape", ["in0", "in1"], "c", broadcast⟩,
    ⟨"bit_blast", ["in0", "in1"], "c", blasted⟩,
    ⟨"from_value", ["in1"], "out", words ⟨0⟩ (List.range 100)⟩,
    ⟨"from_value_no_wire", ["in1"], "out", words ⟨0⟩ (List.range 10)⟩,
    ⟨"concat_mixed", ["in1", "in2", "in3"], "out", joined⟩,
    ⟨"roll", ["in1"], "out", words ⟨0⟩ ((List.range 10).map fun index => (index + 7) % 10)⟩]

/-! ### Parts of inputs -/

section Parts

variable {builder : Builder} {source : Value} {input : SignalId} {width low count number : Nat}

/-- A part of an input has that part of its bits. -/
theorem backs_inputBits (h : builder.Carries source ((List.range width).map (.input input)))
    (hend : low + count ≤ width) : builder.Backs ⟨source, low, count⟩ (inputBits input low count) := by
  have hwidth : width = source.width := by
    rw [← h.length, List.length_map, List.length_range]
  have hbits : (((List.range width).map (BitOrigin.input input)).drop low).take count = inputBits input low count := by
    refine List.ext_getElem ?_ fun bit _ _ => ?_
    · rw [List.length_take, List.length_drop, List.length_map, List.length_range, inputBits, List.length_map,
        List.length_range]
      omega
    · simp [inputBits]
  rw [← hbits]
  exact ArrayView.backs_part h (hend.trans_eq hwidth)

theorem backs_whole_input (h : builder.Carries source ((List.range width).map (.input input))) :
    builder.Backs (.whole source) (inputBits input 0 width) := by
  have hwidth : source.width = width := by
    rw [← h.length, List.length_map, List.length_range]
  rw [BitRange.whole, hwidth]
  exact backs_inputBits h (Nat.zero_add width).le

theorem backs_piece_input (h : builder.Carries source ((List.range width).map (.input input)))
    (hend : number * count + count ≤ width) :
    builder.Backs (Store.piece (.whole source) count number) (inputBits input (number * count) count) := by
  rw [Store.piece, BitRange.whole, Nat.zero_add]
  exact backs_inputBits h hend

end Parts

/-! ### Designs with one input -/

section Import

variable {names : Names} {name : String} {workspace : Workspace} {types : TypeTable} {inType outType : TypeId}
  {width : Nat} {P : Unit → Workspace → Prop}

/-- An input and an output, and the input as an array. -/
theorem answers_import (h : Opened types [] workspace) (shape : List Nat) (width : Nat)
    {rest : ArrayView → PortId → Session Unit} (hwidth : types.bitWidth inType = .ok width)
    (hlayout : ArrayView.importOf types ⟨⟨0⟩, inType, width⟩ = .ok (shape, Store.ofImport ⟨⟨0⟩, inType, width⟩ .i32))
    (hrest : ∀ workspace, workspace.builder.Opened types
        ([⟨"in1", .input, inType, some ⟨0⟩⟩] ++ [⟨"out", .output, outType, none⟩]) →
      (firstArray shape .i32).Filled (fun place => some ⟨⟨⟨0⟩, inType, width⟩, place * 32, 32⟩) workspace →
      Answers workspace (rest (firstArray shape .i32) ⟨1⟩) P) :
    Answers workspace (do
      let in1 ← input "in1" inType
      let out ← output "out" outType
      let array ← ArrayView.ofValue in1
      rest array out) P := by
  refine .bind_eq (h.input width List.not_mem_nil hwidth) fun _ hopened => ?_
  refine .bind_eq (hopened.output (by simp) (by simp [wordBound]) _) fun _ hopened => ?_
  refine .bind_eq (hopened.ofValue shape width (.head _) hwidth hlayout) fun workspace hfilled => ?_
  exact hrest workspace hfilled.1 hfilled.2

/-- The output is driven with an array of words of the input. -/
theorem meets_words {view : ArrayView} {moved : Nat → Nat} {indices : List Nat}
    (hopened : workspace.builder.Opened types
      ([⟨"in1", .input, inType, some ⟨0⟩⟩] ++ [⟨"out", .output, outType, none⟩]))
    (h : view.Filled (fun place => some ⟨⟨⟨0⟩, inType, width⟩, moved place * 32, 32⟩) workspace) (settings : Settings)
    (hwidth : types.bitWidth inType = .ok width) (count : Nat) (hcount : view.count = .ok count) (hpos : 0 < count)
    (hword : count * view.elemType.width < wordBound) (hend : ∀ place < count, moved place * 32 + 32 ≤ width)
    (hindices : (List.range count).map moved = indices)
    (houtput : types.bitWidth outType = .ok (words ⟨0⟩ indices).length) :
    Answers workspace (do drive ⟨1⟩ (← lower view settings)) fun _ workspace' =>
      Blueprint.Met ⟨name, ["in1"], "out", words ⟨0⟩ indices⟩ workspace'.builder := by
  have hin1 := hopened.carries_of_mem (.head _) hwidth
  have hbits : (List.range count).flatMap (fun place => word ⟨0⟩ (moved place)) = words ⟨0⟩ indices := by
    rw [words, ← hindices, List.flatMap_map]
  refine (answers_deliver h hopened settings hcount hpos hword
    (fun place hplace => ⟨_, rfl, backs_inputBits hin1 (hend place hplace)⟩) hbits houtput).mono ?_
  exact fun _ _ hdelivers => ⟨_, hdelivers, rfl⟩

/-- In each row of the result is a column of the input. -/
theorem transform_transpose : (firstArray [4, 8] .i32).transform (.transpose [1, 0])
    = .ok { firstArray [8, 4] .i32 with maps := [.permute [8, 4] [4, 8] [1, 0]] } := by
  have hmap : transposeMap [4, 8] [1, 0] = .ok ([8, 4], .permute [8, 4] [4, 8] [1, 0]) := transposeMap_eq (by decide)
  rw [ArrayView.transform, ArrayView.transpose, firstArray, hmap]
  rfl

theorem meets_transpose (hdistinct : names.Distinct) (settings : Settings) :
    Answers { builder := .start names name } (transpose settings) fun _ workspace =>
      Blueprint.Met ⟨name, ["in1"], "out", exchanged⟩ workspace.builder := by
  refine .bind_eq ((opened_start hdistinct _).arrayType (by decide) _) fun _ hopened => ?_
  refine .bind_eq (hopened.arrayType (by decide) _) fun _ hopened => ?_
  refine answers_import hopened [4, 8] 1024 (by decide +kernel) (by decide +kernel) fun workspace hopened hfilled => ?_
  refine .lift_bind transform_transpose ?_
  have hmoved := hfilled.transform transform_transpose (fun place => place % 4 * 8 + place / 4) (by decide +kernel)
  exact meets_words hopened hmoved settings (by decide +kernel) 32 (by decide) (by decide) (by decide)
    (by decide) (by decide +kernel) (by decide +kernel)

theorem meets_transposeReshape (hdistinct : names.Distinct) (settings : Settings) :
    Answers { builder := .start names name } (transposeReshape settings) fun _ workspace =>
      Blueprint.Met ⟨name, ["in1"], "out", exchanged⟩ workspace.builder := by
  refine .bind_eq ((opened_start hdistinct _).arrayType (by decide) _) fun _ hopened => ?_
  refine .bind_eq (hopened.arrayType (by decide) _) fun _ hopened => ?_
  refine answers_import hopened [4, 8] 1024 (by decide +kernel) (by decide +kernel) fun workspace hopened hfilled => ?_
  refine .lift_bind transform_transpose ?_
  have hmoved := hfilled.transform transform_transpose (fun place => place % 4 * 8 + place / 4) (by decide +kernel)
  -- another shape moves nothing
  have hreshape : ArrayView.transform { firstArray [8, 4] .i32 with maps := [.permute [8, 4] [4, 8] [1, 0]] }
      (.reshape [16, 2]) = .ok { firstArray [16, 2] .i32 with maps := [.permute [8, 4] [4, 8] [1, 0]] } := by
    decide +kernel
  refine .lift_bind hreshape ?_
  have hshaped := hmoved.transform hreshape (fun place => place) (by decide)
  exact meets_words hopened hshaped settings (by decide +kernel) 32 (by rfl) (by decide) (by decide)
    (by decide) (by decide) (by decide +kernel)

theorem meets_fromValue (hdistinct : names.Distinct) (settings : Settings) :
    Answers { builder := .start names name } (fromValue settings) fun _ workspace =>
      Blueprint.Met ⟨name, ["in1"], "out", words ⟨0⟩ (List.range 100)⟩ workspace.builder := by
  refine .bind_eq ((opened_start hdistinct _).arrayType (by decide) _) fun _ hopened => ?_
  refine answers_import hopened [10, 10] 3200 (by decide +kernel) (by decide +kernel)
    fun workspace hopened hfilled => ?_
  exact meets_words hopened (hfilled.named "m1") settings (by decide +kernel) 100 (by decide +kernel) (by decide)
    (by decide) (by decide) (by decide +kernel) (by decide +kernel)

theorem meets_fromValueNoWire (hdistinct : names.Distinct) (settings : Settings) :
    Answers { builder := .start names name } (fromValueNoWire settings) fun _ workspace =>
      Blueprint.Met ⟨name, ["in1"], "out", words ⟨0⟩ (List.range 10)⟩ workspace.builder := by
  refine .bind_eq ((opened_start hdistinct _).arrayType (by decide) _) fun _ hopened => ?_
  refine answers_import hopened [10] 320 (by decide +kernel) (by decide +kernel) fun workspace hopened hfilled => ?_
  exact meets_words hopened (hfilled.named "m1") _ (by decide +kernel) 10 (by decide +kernel) (by decide)
    (by decide) (by decide) (by decide +kernel) (by decide +kernel)

theorem meets_roll (hdistinct : names.Distinct) (settings : Settings) :
    Answers { builder := .start names name } (roll settings) fun _ workspace =>
      Blueprint.Met ⟨name, ["in1"], "out", words ⟨0⟩ ((List.range 10).map fun index => (index + 7) % 10)⟩
        workspace.builder := by
  refine .bind_eq ((opened_start hdistinct _).arrayType (by decide) _) fun _ hopened => ?_
  refine answers_import hopened [10] 320 (by decide +kernel) (by decide +kernel) fun workspace hopened hfilled => ?_
  have hroll : (firstArray [10] .i32).transform (.roll 3 none)
      = .ok { firstArray [10] .i32 with maps := [.roll 10 3] } := by
    decide +kernel
  refine .lift_bind hroll ?_
  have hmoved := hfilled.transform hroll (fun place => (place + 7) % 10) (by decide +kernel)
  exact meets_words hopened hmoved settings (by decide +kernel) 10 (by decide +kernel) (by decide) (by decide)
    (by decide) rfl (by decide +kernel)

end Import

/-! ### Designs with an array of their own -/

section Fill

variable {names : Names} {name : String} {workspace : Workspace} {types : TypeTable} {in0Type in1Type outType : TypeId}
  {P : Unit → Workspace → Prop}

/-- An input of sixteen words and one of a single word, an output, and a new array. -/
theorem answers_pair (h : Opened types [] workspace) {shape : List Nat} {elemType : ElemType}
    {rest : Value → Value → PortId → ArrayView → Session Unit} (hin0 : types.bitWidth in0Type = .ok 512)
    (hin1 : types.bitWidth in1Type = .ok 32) (hshape : checkShape shape = .ok ())
    (hcount : elementCount shape = .ok shape.prod) (hmemory : shape.prod * 24 < signedBound)
    (hrest : ∀ workspace in0 in1, in0.width = 512 → in1.width = 32 →
      workspace.builder.Carries in0 ((List.range 512).map (.input ⟨0⟩)) →
      workspace.builder.Carries in1 ((List.range 32).map (.input ⟨1⟩)) → workspace.builder.Opened types
        ([⟨"in0", .input, in0Type, some ⟨0⟩⟩, ⟨"in1", .input, in1Type, some ⟨1⟩⟩] ++ [⟨"c", .output, outType, none⟩]) →
      (firstArray shape elemType).Filled (fun _ => none) workspace →
      Answers workspace (rest in0 in1 ⟨2⟩ (firstArray shape elemType)) P) :
    Answers workspace (do
      let in0 ← input "in0" in0Type
      let in1 ← input "in1" in1Type
      let out ← output "c" outType
      let array ← ArrayView.create shape elemType
      rest in0 in1 out array) P := by
  refine .bind_eq (h.input 512 List.not_mem_nil hin0) fun _ hopened => ?_
  refine .bind_eq (hopened.input 32 (by simp) hin1) fun _ hopened => ?_
  refine .bind_eq (hopened.output (by simp) (by simp [wordBound]) _) fun _ hopened => ?_
  refine .bind_eq (hopened.create hshape hcount hmemory) fun workspace ⟨hopened, hempty⟩ => ?_
  have hcarries0 := hopened.carries_of_mem (.head _) hin0
  have hcarries1 := hopened.carries_of_mem (.tail _ (.head _)) hin1
  exact hrest workspace _ _ rfl rfl hcarries0 hcarries1 hopened hempty

/-- The words of an array that is filled with words. -/
def broadcastWord (place : Nat) : List BitOrigin :=
  if place < 16 then word ⟨1⟩ 0 else word ⟨0⟩ (place - 16)

/-- The first half is one word sixteen times, and the second half another input. -/
theorem backs_broadcastWord {builder : Builder} {in0 in1 : Value}
    (hin0 : builder.Carries in0 ((List.range 512).map (.input ⟨0⟩)))
    (hin1 : builder.Carries in1 ((List.range 32).map (.input ⟨1⟩))) {place : Nat} (hplace : place < 32) :
    ∃ part, (if 16 ≤ place ∧ place < 16 + 16 then some (Store.piece (.whole in0) 32 (place - 16))
      else if place < 16 then some (.whole in1) else none) = some part ∧
        builder.Backs part (broadcastWord place) := by
  by_cases hhalf : place < 16
  · refine ⟨.whole in1, ?_, ?_⟩
    · rw [if_neg (by omega), if_pos hhalf]
    · rw [broadcastWord, if_pos hhalf]
      exact backs_whole_input hin1
  · refine ⟨Store.piece (.whole in0) 32 (place - 16), if_pos (by omega), ?_⟩
    rw [broadcastWord, if_neg hhalf]
    exact backs_piece_input hin0 (by omega)

theorem meets_broadcastReshape (hdistinct : names.Distinct) (settings : Settings) :
    Answers { builder := .start names name } (broadcastReshape settings) fun _ workspace =>
      Blueprint.Met ⟨name, ["in0", "in1"], "c", broadcast⟩ workspace.builder := by
  refine .bind_eq ((opened_start hdistinct _).arrayType (by decide) _) fun _ hopened => ?_
  refine .bind_eq (hopened.arrayType (by decide) _) fun _ hopened => ?_
  refine .bind_eq (hopened.arrayType (by decide) _) fun _ hopened => ?_
  refine answers_pair hopened (by decide +kernel) (by decide +kernel) rfl (by rfl) (by decide)
    fun workspace in0 in1 hwidth0 hwidth1 hin0 hin1 hopened hempty => ?_
  have hfirst : ∀ number < 16, linearize [32] [number] = .ok number := by decide
  refine ((hempty.named "m2").fill hfirst ⟨_, backs_whole_input hin1⟩ hwidth1).bind ?_
  rintro _ middle ⟨hbuilder, hfilled⟩
  rw [← hbuilder] at hopened hin0 hin1
  have hkept : region [32] [slice 16 32] = .ok ⟨[16], List.range' 16 16⟩ := by decide
  refine (hfilled.assignRange hkept ⟨_, backs_whole_input hin0⟩ hwidth0 (hwidth0.trans_lt (by decide))).bind ?_
  rintro _ last ⟨hbuilder, hfilled⟩
  rw [← hbuilder] at hopened hin0 hin1
  -- another shape moves nothing
  have hreshape : ((firstArray [32] .i32).named "m2").transform (.reshape [4, 8])
      = .ok ((firstArray [4, 8] .i32).named "m2") := by
    decide +kernel
  refine .lift_bind hreshape ?_
  have hshaped := hfilled.transform hreshape (fun place => place) (by decide +kernel)
  refine (answers_deliver hshaped hopened settings (by decide : _ = Except.ok 32) (by decide) (by decide)
    (fun place hplace => backs_broadcastWord hin0 hin1 hplace) (by decide +kernel : _ = broadcast)
    (by decide +kernel)).mono ?_
  exact fun _ _ hdelivers => ⟨_, hdelivers, rfl⟩

/-- The bits of an array that is filled with bits. -/
def blastedBit (place : Nat) : List BitOrigin :=
  if place < 32 then [.constant .one]
  else if place < 512 then inputBits ⟨1⟩ (place % 32 * 1) 1
  else inputBits ⟨0⟩ ((place - 512) * 1) 1

/-- The first row is a constant, the other rows of the upper half are one word each, and the lower half is another
input. -/
theorem backs_blastedBit {builder : Builder} {one in0 in1 : Value} (hone : builder.Carries one [.constant .one])
    (hin0 : builder.Carries in0 ((List.range 512).map (.input ⟨0⟩)))
    (hin1 : builder.Carries in1 ((List.range 32).map (.input ⟨1⟩))) {place : Nat} (hplace : place < 1024) :
    ∃ part, (if 512 ≤ place ∧ place < 512 + 512 then some (Store.piece (.whole in0) 1 (place - 512))
      else if 1 * 32 ≤ place ∧ place < (1 + 15) * 32 then some (Store.piece (.whole in1) 1 (place % 32))
      else if place < 32 then some (.whole one) else none) = some part ∧ builder.Backs part (blastedBit place) := by
  by_cases hfirst : place < 32
  · refine ⟨.whole one, ?_, ?_⟩
    · rw [if_neg (by omega), if_neg (by omega), if_pos hfirst]
    · rw [blastedBit, if_pos hfirst]
      exact Builder.backs_whole hone
  by_cases hupper : place < 512
  · refine ⟨Store.piece (.whole in1) 1 (place % 32), ?_, ?_⟩
    · rw [if_neg (by omega), if_pos (by omega)]
    · rw [blastedBit, if_neg hfirst, if_pos hupper]
      exact backs_piece_input hin1 (by omega)
  · refine ⟨Store.piece (.whole in0) 1 (place - 512), if_pos (by omega), ?_⟩
    rw [blastedBit, if_neg hfirst, if_neg hupper]
    exact backs_piece_input hin0 (by omega)

/-- The lower half is a stretch of the array. -/
theorem region_lowerHalf : region [32, 32] [slice 16 32] = .ok ⟨[16, 32], List.range' 512 512⟩ := by
  have hchoices : choices 0 [32, 32] [slice 16 32] = .ok [⟨16, 1, 16, true⟩, ⟨0, 1, 32, true⟩] := by decide
  have hcount : elementCount (sizes [⟨16, 1, 16, true⟩, ⟨0, 1, 32, true⟩]) = .ok 512 := by decide
  have hoffsets : keptOffsets [32, 32] [⟨16, 1, 16, true⟩, ⟨0, 1, 32, true⟩] = .ok (List.range' 512 512) := by
    rw [keptOffsets_of_choices (by decide) hchoices hcount (listed_of_lt (by decide))]
    exact congrArg _ (positions_rows 32 16 16 [32])
  rw [region_of_choices (by decide) hchoices, hoffsets]
  rfl

/-- A row is a stretch of the array. -/
theorem region_row {row : Nat} (hrow : row < 32) :
    region [32, 32] [.index row] = .ok ⟨[32], List.range' (row * 32) 32⟩ := by
  have hchoices : choices 0 [32, 32] [.index row] = .ok [⟨row, 1, 1, false⟩, ⟨0, 1, 32, true⟩] := by
    rw [choices, List.headD_cons, Selector.choose, if_pos hrow]
    rfl
  have hcount : elementCount (sizes [⟨row, 1, 1, false⟩, ⟨0, 1, 32, true⟩]) = .ok 32 := rfl
  have hoffsets : keptOffsets [32, 32] [⟨row, 1, 1, false⟩, ⟨0, 1, 32, true⟩] = .ok (List.range' (row * 32) 32) := by
    rw [keptOffsets_of_choices (by decide) hchoices hcount (listed_of_lt (by decide))]
    exact congrArg _ (positions_rows 32 row 1 [32])
  rw [region_of_choices (by simp) hchoices, hoffsets]
  rfl

theorem meets_bitBlast (hdistinct : names.Distinct) (settings : Settings) :
    Answers { builder := .start names name } (bitBlast settings) fun _ workspace =>
      Blueprint.Met ⟨name, ["in0", "in1"], "c", blasted⟩ workspace.builder := by
  refine .bind_eq ((opened_start hdistinct _).arrayType (by decide) _) fun _ hopened => ?_
  refine .bind_eq (hopened.arrayType (by decide) _) fun _ hopened => ?_
  refine .bind_eq (hopened.arrayType (by decide) _) fun _ hopened => ?_
  refine answers_pair hopened (by decide +kernel) (by decide +kernel) rfl (by decide) (by decide)
    fun workspace in0 in1 hwidth0 hwidth1 hin0 hin1 hopened hempty => ?_
  refine (answers_constant hopened.toPresents hempty.sound.builder (by decide) (by decide)).bind ?_
  rintro one start ⟨harrays, hgrows, hpresents, hone⟩
  replace hin0 := hin0.mono hgrows
  replace hin1 := hin1.mono hgrows
  -- the first row is the constant, bit by bit
  have hfirst : ∀ number < 32, linearize [32, 32] [0, number] = .ok number := by decide +kernel
  refine ((harrays _ _ (hempty.named "m1")).fill hfirst ⟨_, Builder.backs_whole hone⟩ hone.length.symm).bind ?_
  rintro _ first ⟨hbuilder, hfilled⟩
  rw [← hbuilder] at hgrows hpresents hone hin0 hin1
  -- the other rows of the upper half are the one word
  have hrows : ∀ row < 1 + 15, region [32, 32] [.index row] = .ok ⟨[32], List.range' (row * 32) 32⟩ :=
    fun row hrow => region_row (hrow.trans (by decide))
  refine (hfilled.fillRows hrows ⟨_, backs_whole_input hin1⟩ hwidth1 (hwidth1.trans_lt (by decide))).bind ?_
  rintro _ middle ⟨hbuilder, hfilled⟩
  rw [← hbuilder] at hgrows hpresents hone hin0 hin1
  -- the lower half is the other input
  refine (hfilled.assignRange region_lowerHalf ⟨_, backs_whole_input hin0⟩ hwidth0 (hwidth0.trans_lt (by decide))).bind ?_
  rintro _ last ⟨hbuilder, hfilled⟩
  rw [← hbuilder] at hgrows hpresents hone hin0 hin1
  refine (answers_lower hfilled hpresents settings (by decide +kernel : _ = Except.ok 1024) (by decide) (by decide)
    fun place hplace => backs_blastedBit hone hin0 hin1 hplace).bind ?_
  rintro flat lowered ⟨hgrows', hpresents, hflat⟩
  have hbits : (List.range 1024).flatMap blastedBit = blasted := by decide +kernel
  rw [hbits] at hflat
  -- the same bits as words
  have hwords : (arrayOf (arrayOf (arrayOf {} 32 [16]).2 32 []).2 32 [32]).2.bitWidth
      (arrayOf (arrayOf (arrayOf {} 32 [16]).2 32 []).2 32 [32]).1 = .ok blasted.length := by
    decide +kernel
  rw [← hopened.types_eq] at hwords
  replace hwords := (hgrows.trans hgrows').types.bitWidth hwords
  refine (answers_bitcast hpresents hflat hwords).bind ?_
  rintro value cast ⟨hgrows, hpresents, hvalue⟩
  refine (answers_drive hpresents hvalue (hgrows.types.bitWidth hwords)).mono ?_
  exact fun _ _ hdelivers => ⟨_, hdelivers, rfl⟩

end Fill

/-! ### A design with three inputs -/

section Join

variable {names : Names} {name : String} {workspace : Workspace} {in1 in2 in3 : Value}

/-- Ten words of an input. -/
def tenWords (source : Value) : List (Option BitRange) :=
  (List.range 10).map fun place => some ⟨source, place * 32, 32⟩

theorem tenWords_getElem? (source : Value) {place : Nat} (hplace : place < 10) :
    (tenWords source)[place]? = some (some ⟨source, place * 32, 32⟩) := by
  rw [tenWords, List.getElem?_map, List.getElem?_range hplace]
  rfl

theorem tenWords_length (source : Value) : (tenWords source).length = 10 := rfl

/-- The elements of three inputs of ten words in a row. -/
def joinedContent (in1 in2 in3 : Value) (place : Nat) : Option BitRange :=
  (tenWords in2 ++ [tenWords in1, tenWords in3].flatten)[place]?.join

/-- An array of ten words is joined between two inputs of ten words. -/
theorem answers_join {middle : ArrayView} {bits2 bits3 : List BitOrigin} {rest : ArrayView → Session Unit}
    {P : Unit → Workspace → Prop} (hmiddle : middle.Filled (fun place => some ⟨in1, place * 32, 32⟩) workspace)
    (hcount : middle.count = .ok 10) (htype : middle.elemType = .i32)
    (hin2 : workspace.builder.Carries in2 bits2) (hin3 : workspace.builder.Carries in3 bits3)
    (hlayout2 : ArrayView.importOf workspace.builder.types in2 = .ok ([10], Store.ofImport in2 .i32))
    (hlayout3 : ArrayView.importOf workspace.builder.types in3 = .ok ([10], Store.ofImport in3 .i32))
    (hrest : ∀ id workspace', workspace'.builder = workspace.builder →
      ArrayView.Filled { shape := [30], elemType := .i32, store := id } (joinedContent in1 in2 in3) workspace' →
      Answers workspace' (rest { shape := [30], elemType := .i32, store := id }) P) :
    Answers workspace (do
      let front ← ArrayView.ofValue in2
      let array ← front.concatenate [.array middle, .value in3]
      rest array) P := by
  refine (ArrayView.answers_ofValue hmiddle.sound hin2 hlayout2).bind ?_
  rintro front workspace' ⟨rfl, hadds, hfront⟩
  replace hmiddle := hmiddle.adds hadds hfront.sound
  rw [← hadds.builder] at hin3 hlayout3
  have hfills := hmiddle.fills hcount
  rw [htype] at hfills
  have hvalue := ArrayView.fills_value hfront.sound hin3 hlayout3 (by decide : elementCount [10] = .ok 10)
  have hparts : List.Forall₂ (fun (operand : Operand) part => operand.Fills .i32 part workspace')
      [.array middle, .value in3] [tenWords in1, tenWords in3] :=
    .cons hfills (.cons hvalue .nil)
  have hoperands : ∀ operand ∈ [.array middle, .value in3], Operand.Sound workspace' operand :=
    List.forall_mem_cons.mpr ⟨hmiddle.fits, List.forall_mem_singleton.mpr ⟨bits3, hin3⟩⟩
  have hmemory : 30 * 24 < signedBound := by decide
  refine (hfront.concatenate (by decide : elementCount [10] = .ok 10) hoperands hparts rfl hmemory).bind ?_
  rintro _ last ⟨⟨id, rfl⟩, hbuilder, hjoined⟩
  exact hrest id last (hbuilder.trans hadds.builder) hjoined

/-- The words of an array that is joined of three. -/
def joinedWord (place : Nat) : List BitOrigin :=
  if place < 10 then word ⟨1⟩ place
  else if place < 20 then word ⟨0⟩ (place - 10)
  else word ⟨2⟩ (place - 20)

theorem backs_joinedWord {builder : Builder} (hin1 : builder.Carries in1 ((List.range 320).map (.input ⟨0⟩)))
    (hin2 : builder.Carries in2 ((List.range 320).map (.input ⟨1⟩)))
    (hin3 : builder.Carries in3 ((List.range 320).map (.input ⟨2⟩))) {place : Nat} (hplace : place < 30) :
    ∃ part, joinedContent in1 in2 in3 place = some part ∧ builder.Backs part (joinedWord place) := by
  rw [joinedContent, List.flatten_cons, List.flatten_cons, List.flatten_nil, List.append_nil]
  by_cases hfront : place < 10
  · refine ⟨⟨in2, place * 32, 32⟩, ?_, ?_⟩
    · rw [List.getElem?_append_left hfront, tenWords_getElem? in2 hfront]
      rfl
    · rw [joinedWord, if_pos hfront]
      exact backs_inputBits hin2 (by omega)
  rw [List.getElem?_append_right (not_lt.mp hfront), tenWords_length]
  by_cases hmiddle : place < 20
  · have hlt : place - 10 < 10 := by omega
    refine ⟨⟨in1, (place - 10) * 32, 32⟩, ?_, ?_⟩
    · rw [List.getElem?_append_left hlt, tenWords_getElem? in1 hlt]
      rfl
    · rw [joinedWord, if_neg hfront, if_pos hmiddle]
      exact backs_inputBits hin1 (by omega)
  · have hge : 10 ≤ place - 10 := by omega
    have hlt : place - 20 < 10 := by omega
    refine ⟨⟨in3, (place - 20) * 32, 32⟩, ?_, ?_⟩
    · rw [List.getElem?_append_right hge, tenWords_length, Nat.sub_sub, tenWords_getElem? in3 hlt]
      rfl
    · rw [joinedWord, if_neg hfront, if_neg hmiddle]
      exact backs_inputBits hin3 (by omega)

theorem meets_concatMixed (hdistinct : names.Distinct) (settings : Settings) :
    Answers { builder := .start names name } (concatMixed settings) fun _ workspace =>
      Blueprint.Met ⟨name, ["in1", "in2", "in3"], "out", joined⟩ workspace.builder := by
  refine .bind_eq ((opened_start hdistinct _).arrayType (by decide) _) fun _ hopened => ?_
  refine .bind_eq (hopened.arrayType (by decide) _) fun _ hopened => ?_
  refine .bind_eq (hopened.input 320 (by decide) (by decide +kernel)) fun _ hopened => ?_
  refine .bind_eq (hopened.input 320 (by decide) (by decide +kernel)) fun _ hopened => ?_
  refine .bind_eq (hopened.input 320 (by decide) (by decide +kernel)) fun _ hopened => ?_
  refine .bind_eq (hopened.output (by decide) (by decide) _) fun _ hopened => ?_
  -- the array in the middle is made first
  refine .bind_eq (hopened.ofValue [10] 320 (.head _) (by decide +kernel) (by decide +kernel))
    fun first ⟨hopened, hmiddle⟩ => ?_
  have hin1 := hopened.carries_of_mem (.head _) (by decide +kernel : _ = Except.ok 320)
  have hin2 := hopened.carries_of_mem (.tail _ (.head _)) (by decide +kernel : _ = Except.ok 320)
  have hin3 := hopened.carries_of_mem (.tail _ (.tail _ (.head _))) (by decide +kernel : _ = Except.ok 320)
  refine answers_join (hmiddle.named "m1") (by decide) rfl hin2 hin3
    (by rw [hopened.types_eq]; decide +kernel) (by rw [hopened.types_eq]; decide +kernel)
    fun id last hbuilder hjoined => ?_
  rw [← hbuilder] at hopened hin1 hin2 hin3
  have hcount : elementCount [30] = .ok 30 := by decide
  refine (answers_deliver hjoined hopened settings hcount (by decide) (by decide : 30 * 32 < wordBound)
    (fun place hplace => backs_joinedWord hin1 hin2 hin3 hplace) (by decide +kernel : _ = joined)
    (by decide +kernel)).mono ?_
  exact fun _ _ hdelivers => ⟨_, hdelivers, rfl⟩

end Join

/-! ### Finished designs -/

/-- A finished netlist is what it is meant to be. -/
structure Realizes (netlist : Netlist) (names : Names) (plan : Blueprint) : Prop where
  /-- The ports are the inputs, which have the first signals, and then the output, behind which the resolver finds the
  bits. -/
  interface : ∃ inputs type signal, netlist.interface names
      = .ok (inputs ++ [⟨plan.output, .output, type, some signal⟩]) ∧
    inputs.map (fun port => (port.name, port.direction, port.signal))
      = plan.inputs.mapIdx (fun number name => (name, .input, some ⟨number⟩)) ∧
    netlist.origins signal = .ok plan.bits
  /-- No output is left undriven. -/
  driven : ∀ port ∈ netlist.ports, port.isUndriven = false
  /-- The ports and the signals that cells drive have different names. -/
  distinct : ∃ texts, netlist.boundNames.mapM names.text = .ok texts ∧ texts.Nodup

/-- **Finishing.** A netlist that is what it is meant to be while it is under construction is so when it is finished. -/
theorem realizes_finish {plan : Blueprint} {builder : Builder} (h : plan.Met builder) :
    Realizes builder.finish builder.names plan := by
  obtain ⟨inputs, ⟨type, signal, hpresents, horigins⟩, hinputs⟩ := h
  refine ⟨⟨inputs, type, signal, hpresents.interface, hinputs, ?_⟩, fun port hport => ?_,
    hpresents.traceable.exists_texts_finish hpresents.named⟩
  · rw [hpresents.traceable.origins_finish, horigins]
  · obtain ⟨declared, hmem, hdeclared⟩ :=
      exists_of_forall₂_of_mem (List.Forall₂.flip (mapM_eq_ok.mp hpresents.interface)) hport
    obtain ⟨-, hdirection, -, hsignal⟩ := Port.declared_eq_ok.mp hdeclared
    rw [Port.isUndriven, hdirection, hsignal]
    rcases List.mem_append.mp hmem with hinput | houtput
    · have hplan := List.mem_map_of_mem (f := fun port : Declared => (port.name, port.direction, port.signal)) hinput
      rw [hinputs] at hplan
      obtain ⟨number, hnumber, heq⟩ := List.mem_mapIdx.mp hplan
      have hdirection : declared.direction = .input := (congrArg (·.2.1) heq).symm
      rw [hdirection]
      rfl
    · obtain rfl := List.mem_singleton.mp houtput
      rfl

/-- A design whose construction meets a blueprint builds a netlist that realizes it. -/
theorem exists_realizes {design : Design} {plan : Blueprint} {names : Names} {settings : Settings}
    (h : Answers { builder := .start names design.name } (design.construct settings) fun _ workspace =>
      plan.Met workspace.builder) :
    ∃ netlist names', design.build names settings = .ok (netlist, names') ∧ Realizes netlist names' plan := by
  obtain ⟨builder, hbuild, hmet⟩ := build_of_answers h
  exact ⟨builder.finish, builder.names, hbuild, realizes_finish hmet⟩

/-- **Designs.** Under all settings, and whatever names were asked for before, each design builds a netlist that
realizes its blueprint. -/
theorem build_realizes (requests : List Names.Request) (settings : Settings) :
    List.Forall₂ (fun design plan => plan.design = design.name ∧
      ∃ netlist names, design.build (.after requests) settings = .ok (netlist, names) ∧ Realizes netlist names plan)
      all blueprints := by
  have hdistinct := Names.distinct_after requests
  refine .cons ⟨rfl, exists_realizes (meets_transpose hdistinct settings)⟩ ?_
  refine .cons ⟨rfl, exists_realizes (meets_transposeReshape hdistinct settings)⟩ ?_
  refine .cons ⟨rfl, exists_realizes (meets_broadcastReshape hdistinct settings)⟩ ?_
  refine .cons ⟨rfl, exists_realizes (meets_bitBlast hdistinct settings)⟩ ?_
  refine .cons ⟨rfl, exists_realizes (meets_fromValue hdistinct settings)⟩ ?_
  refine .cons ⟨rfl, exists_realizes (meets_fromValueNoWire hdistinct settings)⟩ ?_
  refine .cons ⟨rfl, exists_realizes (meets_concatMixed hdistinct settings)⟩ ?_
  exact .cons ⟨rfl, exists_realizes (meets_roll hdistinct settings)⟩ .nil

end Design

end NetArray
