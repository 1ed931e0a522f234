import Mathlib
import NetArray.Proofs.Netlist.Interfaces
import NetArray.Proofs.Array.DrivenOutputs
import NetArray.Proofs.Array.Fillings
import NetArray.Proofs.Array.WireNames
import NetArray.Designs

/-!
# Building a design

A design goes through three stages. It declares types and ports (`Opened.arrayType`, `Opened.input`, `Opened.output`);
it fills an array, for which `ArrayView.Filled` has the rules; and it makes the array a value and drives its output with
that (`answers_lower`, `answers_drive`). Each step has a rule that says that it answers, and what is known then.

What goes through all stages is `Builder.Presents`: whatever names and cells a step adds, the ports are known by the
same names, and no name is given twice.
-/

namespace NetArray

/-! ### Relations that cells keep -/

section Relations

variable {R : Builder → Builder → Prop} [Std.Refl R] [IsTrans Builder R]

theorem keeps_constant_of_cells
    (hcell : ∀ operation inputs width, Keeps R (do Build.addCell operation inputs (← Build.bitsType width) none))
    (pattern : Pattern) : Keeps R (Build.constant pattern) :=
  .guard fun _ => hcell (.constant pattern) [] pattern.width

theorem keeps_bitcast_of_cells (hcell : ∀ operation inputs type, Keeps R (Build.addCell operation inputs type none))
    (source : Value) (type : TypeId) : Keeps R (Build.bitcast source type) :=
  .bind .get fun _ => .bind (.lift_checked _) fun _ => .guard fun _ => hcell .bitcast [source.signal] type

end Relations

namespace Builder

variable {builder builder' : Builder} {ports : List Declared}

/-- An operation that names things apart, notes what it drives and declares no port. -/
theorem Presents.keeps (h : builder.Presents ports) {α : Type} {operation : Build α} {a : α}
    (hnames : Keeps KeepsNames operation) (htraceable : Keeps KeepsTraceable operation)
    (hports : Keeps KeepsPorts operation) (hrun : operation builder = .ok a builder') : builder'.Presents ports :=
  h.mono (hnames.ok hrun) (htraceable.ok hrun) (hports.ok hrun).ports

theorem keepsTraceable_barrier (name : Option String) (stem : String) (source : Value) :
    Keeps KeepsTraceable (ArrayView.barrier name stem source) :=
  ArrayView.keeps_barrier_of_cells (fun _ _ h => h.of_eq rfl rfl) keepsTraceable_addCell name stem source

theorem keepsPorts_barrier (name : Option String) (stem : String) (source : Value) :
    Keeps KeepsPorts (ArrayView.barrier name stem source) :=
  ArrayView.keeps_barrier_of_cells (fun _ _ => ⟨rfl, le_rfl⟩) keepsPorts_addCell name stem source

/-- What a lowered array is built of. -/
theorem Presents.build (h : builder.Presents ports) {view : ArrayView} {settings : Settings}
    {parts : List BitRange} {value : Value} (hrun : view.build settings parts builder = .ok value builder') :
    builder'.Presents ports :=
  h.keeps (ArrayView.keeps_build keepsNames_typedCell ArrayView.keepsNames_barrier view settings parts)
    (ArrayView.keeps_build keepsTraceable_typedCell keepsTraceable_barrier view settings parts)
    (ArrayView.keeps_build keepsPorts_typedCell keepsPorts_barrier view settings parts) hrun

end Builder

namespace Design

variable {workspace : Workspace} {types : TypeTable} {ports : List Declared} {name : String} {type : TypeId}
  {width : Nat}

/-! ### Declaring -/

/-- Only types and ports were declared. -/
structure Opened (types : TypeTable) (ports : List Declared) (workspace : Workspace) : Prop where
  builder : workspace.builder.Opened types ports
  stores : workspace.stores = #[]

theorem opened_start {names : Names} (hdistinct : names.Distinct) (name : String) :
    Opened {} [] { builder := .start names name } :=
  ⟨Builder.opened_start hdistinct name, rfl⟩

/-- The type of arrays of elements of a width, and the table with it. -/
def arrayOf (types : TypeTable) (width : Nat) (dims : List Nat) : TypeId × TypeTable :=
  (types.bits width).2.array (types.bits width).1 dims

/-- The first array of a session. -/
def firstArray (shape : List Nat) (elemType : ElemType) : ArrayView :=
  { shape := shape, elemType := elemType, store := ⟨0⟩ }

namespace Opened

theorem sound (h : Opened types ports workspace) : workspace.Sound := by
  refine ⟨h.builder.sound, fun {id store} hid => ?_⟩
  have hnone := Workspace.store_eq_ok.mp hid
  rw [h.stores] at hnone
  cases hnone

/-- What is done to the netlist leaves the stores alone. -/
private theorem build (h : Opened types ports workspace) {α : Type} {operation : Build α} {a : α}
    {builder' : Builder} {types' : TypeTable} {ports' : List Declared}
    (hrun : operation workspace.builder = .ok a builder') (hopened : builder'.Opened types' ports') :
    Answers workspace (Session.build operation) fun answer workspace' =>
      answer = a ∧ Opened types' ports' workspace' :=
  ⟨a, _, Session.build_eq_ok.mpr ⟨builder', hrun, rfl⟩, rfl, hopened, h.stores⟩

theorem arrayType (h : Opened types ports workspace) (hword : width < wordBound) (dims : List Nat) :
    Answers workspace (Design.arrayType width dims) fun type workspace' =>
      type = (arrayOf types width dims).1 ∧ Opened (arrayOf types width dims).2 ports workspace' := by
  have htypes := h.builder.types_eq
  subst htypes
  set types' := (arrayOf workspace.builder.types width dims).2
  have hrun : (do Build.arrayType (← Build.bitsType width) dims : Build TypeId) workspace.builder
      = .ok (arrayOf workspace.builder.types width dims).1 { workspace.builder with types := types' } := rfl
  have hgrows : Keeps Builder.Grows (do Build.arrayType (← Build.bitsType width) dims : Build TypeId) :=
    .bind (keeps_bitsType hword) fun element => keeps_arrayType element dims
  exact h.build hrun (h.builder.withTypes (hgrows.ok hrun))

theorem input (h : Opened types ports workspace) (width : Nat) (hfree : name ∉ ports.map (·.name))
    (hwidth : types.bitWidth type = .ok width) :
    Answers workspace (Design.input name type) fun value workspace' =>
      value = ⟨⟨(ports.filterMap (·.signal)).length⟩, type, width⟩ ∧
        Opened types (ports ++ [⟨name, .input, type, some ⟨(ports.filterMap (·.signal)).length⟩⟩]) workspace' := by
  obtain ⟨builder', hrun, hopened⟩ := h.builder.input hfree hwidth
  exact h.build hrun hopened

theorem output (h : Opened types ports workspace) (hfree : name ∉ ports.map (·.name))
    (hroom : ports.length < wordBound) (type : TypeId) :
    Answers workspace (Design.output name type) fun port workspace' =>
      port = ⟨ports.length⟩ ∧ Opened types (ports ++ [⟨name, .output, type, none⟩]) workspace' := by
  obtain ⟨builder', hrun, hopened⟩ := h.builder.output hfree hroom type
  exact h.build hrun hopened

/-- An input becomes an array of words. -/
theorem ofValue (h : Opened types ports workspace) {signal : SignalId} (shape : List Nat) (width : Nat)
    (hmem : ⟨name, .input, type, some signal⟩ ∈ ports) (hwidth : types.bitWidth type = .ok width)
    (hlayout : ArrayView.importOf types ⟨signal, type, width⟩
      = .ok (shape, Store.ofImport ⟨signal, type, width⟩ .i32)) :
    Answers workspace (ArrayView.ofValue ⟨signal, type, width⟩) fun view workspace' =>
      view = firstArray shape .i32 ∧ workspace'.builder.Opened types ports ∧
        (firstArray shape .i32).Filled (fun place => some ⟨⟨signal, type, width⟩, place * 32, 32⟩) workspace' := by
  have hsource := h.builder.carries_of_mem hmem hwidth
  rw [← h.builder.types_eq] at hlayout
  refine (ArrayView.answers_ofValue h.sound hsource hlayout).mono fun view workspace' hmade => ?_
  obtain ⟨rfl, hadds, hfilled⟩ := hmade
  rw [h.stores] at hfilled ⊢
  refine ⟨rfl, ?_, hfilled⟩
  rw [hadds.builder]
  exact h.builder

/-- A new array of bits or words. -/
theorem create (h : Opened types ports workspace) {shape : List Nat} {elemType : ElemType}
    (hshape : checkShape shape = .ok ()) (hcount : elementCount shape = .ok shape.prod)
    (hmemory : shape.prod * 24 < signedBound) :
    Answers workspace (ArrayView.create shape elemType) fun view workspace' =>
      view = firstArray shape elemType ∧ workspace'.builder.Opened types ports ∧
        (firstArray shape elemType).Filled (fun _ => none) workspace' := by
  refine (ArrayView.answers_create h.sound hshape hcount hmemory).mono fun view workspace' hmade => ?_
  obtain ⟨rfl, hadds, hfilled⟩ := hmade
  rw [h.stores] at hfilled ⊢
  refine ⟨rfl, ?_, hfilled⟩
  rw [hadds.builder]
  exact h.builder

end Opened

/-! ### Cells of its own -/

/-- A constant. The arrays are as they were. -/
theorem answers_constant (h : workspace.builder.Presents ports) (hsound : workspace.builder.Sound)
    {pattern : Pattern} (hpos : 0 < pattern.bits.length) (hword : pattern.bits.length < wordBound) :
    Answers workspace (Session.build (Build.constant pattern)) fun value workspace' =>
      (∀ view content, ArrayView.Filled view content workspace → view.Filled content workspace') ∧
        workspace.builder.Grows workspace'.builder ∧ workspace'.builder.Presents ports ∧
        workspace'.builder.Carries value (pattern.bits.map .constant) := by
  obtain ⟨value, builder, hrun, hcarries⟩ := carries_constant hsound hpos hword
  have hpresents : builder.Presents ports :=
    h.keeps (keeps_constant_of_cells keepsNames_typedCell pattern)
      (keeps_constant_of_cells Builder.keepsTraceable_typedCell pattern)
      (keeps_constant_of_cells Builder.keepsPorts_typedCell pattern) hrun
  have hgrows := (keeps_constant pattern).ok hrun
  exact ⟨value, _, Session.build_eq_ok.mpr ⟨builder, hrun, rfl⟩, fun view content h => h.grows hgrows, hgrows,
    hpresents, hcarries⟩

/-- The same bits as a value of another type. -/
theorem answers_bitcast (h : workspace.builder.Presents ports) {source : Value} {bits : List BitOrigin}
    (hsource : workspace.builder.Carries source bits)
    (hwidth : workspace.builder.types.bitWidth type = .ok bits.length) :
    Answers workspace (Session.build (Build.bitcast source type)) fun value workspace' =>
      workspace.builder.Grows workspace'.builder ∧ workspace'.builder.Presents ports ∧
        workspace'.builder.Carries value bits := by
  rw [hsource.length] at hwidth
  obtain ⟨value, builder, hrun, hcarries⟩ := carries_bitcast hsource hwidth
  have hpresents : builder.Presents ports :=
    h.keeps (keeps_bitcast_of_cells keepsNames_addCell source type)
      (keeps_bitcast_of_cells (Builder.keepsTraceable_addCell · · · none) source type)
      (keeps_bitcast_of_cells (Builder.keepsPorts_addCell · · · none) source type) hrun
  exact ⟨value, _, Session.build_eq_ok.mpr ⟨builder, hrun, rfl⟩, (keeps_bitcast source type).ok hrun, hpresents,
    hcarries⟩

/-! ### Lowering and driving -/

/-- The array is made a value of the bits of its content. -/
theorem answers_lower {view : ArrayView} {content : Nat → Option BitRange} (h : view.Filled content workspace)
    (hpresents : workspace.builder.Presents ports) (settings : Settings) {count : Nat}
    {pieces : Nat → List BitOrigin} (hcount : view.count = .ok count) (hpos : 0 < count)
    (hword : count * view.elemType.width < wordBound)
    (hparts : ∀ place < count, ∃ part, content place = some part ∧ workspace.builder.Backs part (pieces place)) :
    Answers workspace (Design.lower view settings) fun value workspace' =>
      workspace.builder.Grows workspace'.builder ∧ workspace'.builder.Presents ports ∧
        workspace'.builder.Carries value ((List.range count).flatMap pieces) := by
  refine .bind (h.lower settings hcount hpos hword hparts) ?_
  rintro ⟨value, lowered⟩ workspace' ⟨-, hgrows, ⟨parts, hbuild⟩, hcarries⟩
  exact ⟨value, workspace', rfl, hgrows, hpresents.build hbuild, hcarries⟩

/-- The last port is an output, and the resolver finds these bits behind it. -/
def Delivers (inputs : List Declared) (name : String) (bits : List BitOrigin) (builder : Builder) : Prop :=
  ∃ type signal, builder.Presents (inputs ++ [⟨name, .output, type, some signal⟩]) ∧
    builder.wiring.origins signal = .ok bits

/-- The output is driven. -/
theorem answers_drive {inputs : List Declared}
    (h : workspace.builder.Presents (inputs ++ [⟨name, .output, type, none⟩])) {value : Value} {bits : List BitOrigin}
    (hvalue : workspace.builder.Carries value bits)
    (hwidth : workspace.builder.types.bitWidth type = .ok bits.length) :
    Answers workspace (Design.drive ⟨inputs.length⟩ value) fun _ workspace' =>
      Delivers inputs name bits workspace'.builder := by
  rw [hvalue.length] at hwidth
  have hport : (inputs ++ [⟨name, .output, type, none⟩])[inputs.length]? = some ⟨name, .output, type, none⟩ :=
    List.getElem?_concat_length
  obtain ⟨builder', hrun, hpresents, hwiring⟩ := h.drive hport hwidth
  rw [List.set_append_right _ _ le_rfl, Nat.sub_self, List.set_cons_zero] at hpresents
  refine ⟨(), _, Session.build_eq_ok.mpr ⟨builder', hrun, rfl⟩, type, value.signal, hpresents, ?_⟩
  rw [hwiring]
  exact hvalue.origins

/-- **From an array to an output.** The output is driven with the bits of the content. -/
theorem answers_deliver {inputs : List Declared} {view : ArrayView} {content : Nat → Option BitRange}
    (h : view.Filled content workspace)
    (hopened : workspace.builder.Opened types (inputs ++ [⟨name, .output, type, none⟩])) (settings : Settings)
    {count : Nat} {pieces : Nat → List BitOrigin} {bits : List BitOrigin}
    (hcount : view.count = .ok count) (hpos : 0 < count) (hword : count * view.elemType.width < wordBound)
    (hparts : ∀ place < count, ∃ part, content place = some part ∧ workspace.builder.Backs part (pieces place))
    (hbits : (List.range count).flatMap pieces = bits) (hwidth : types.bitWidth type = .ok bits.length) :
    Answers workspace (do drive ⟨inputs.length⟩ (← lower view settings)) fun _ workspace' =>
      Delivers inputs name bits workspace'.builder := by
  refine .bind (answers_lower h hopened.toPresents settings hcount hpos hword hparts) ?_
  rintro value workspace' ⟨hgrows, hpresents, hcarries⟩
  rw [hbits] at hcarries
  rw [← hopened.types_eq] at hwidth
  exact answers_drive hpresents hcarries (hgrows.types.bitWidth hwidth)

/-- What a design has built is finished. -/
theorem build_of_answers {design : Design} {names : Names} {settings : Settings} {P : Builder → Prop}
    (h : Answers { builder := .start names design.name } (design.construct settings) fun _ workspace =>
      P workspace.builder) :
    ∃ builder, design.build names settings = .ok (builder.finish, builder.names) ∧ P builder := by
  obtain ⟨_, workspace, hrun, hbuilder⟩ := h
  refine ⟨workspace.builder, ?_, hbuilder⟩
  rw [Design.build, hrun]

end Design

end NetArray
