import Mathlib
import NetArray.Netlist.Dump
import NetArray.Proofs.Netlist.Layouts
import NetArray.Proofs.Netlist.WellFormed

/-!
# What the text of a netlist lists

A netlist is written line by line, and each line is made of a few plain things: numbers of signals, names, an
operation, and the dimensions and the width of a type. A `Listing` is these things by themselves, without the tables
that the netlist keeps them in. It stands between a netlist and its text:

* `Netlist.Lists` says which listing a netlist has;
* `Listing.text` writes a listing;
* `Builder.WellFormed.exists_listing` — the text of a well-formed netlist is that of its listing. All input ports and
  all cells are in it, for each of them has a signal.
-/

namespace NetArray

/-! ### Listings -/

/-- A type as it is written: arrays of these sizes, the outermost first, around a bit vector. -/
@[ext]
structure TypeForm where
  dims : List Nat
  width : Nat
  deriving DecidableEq, Repr

/-- An input port as it is listed. -/
@[ext]
structure InputEntry where
  signal : SignalId
  name : String
  type : TypeForm
  deriving DecidableEq, Repr

/-- A cell as it is listed, with the name and the type of its output. -/
@[ext]
structure CellEntry where
  output : SignalId
  name : String
  operation : Operation
  inputs : List SignalId
  type : TypeForm
  deriving DecidableEq, Repr

/-- An output port as it is listed. -/
@[ext]
structure OutputEntry where
  name : String
  type : TypeForm
  driver : Option SignalId
  deriving DecidableEq, Repr

/-- What the text of a netlist tells of it. -/
@[ext]
structure Listing where
  name : String
  inputs : List InputEntry
  cells : List CellEntry
  outputs : List OutputEntry
  deriving DecidableEq, Repr

def TypeForm.text (form : TypeForm) : String :=
  Layout.textOf form.width form.dims

def InputEntry.line (entry : InputEntry) : String :=
  s!"  input {entry.signal.text} {entry.name} : {entry.type.text}"

def Operation.text (operation : Operation) : String :=
  operation.mnemonic ++ operation.attributes

def CellEntry.line (entry : CellEntry) : String :=
  s!"  {entry.output.text} {entry.name} = {entry.operation.text}{operandText entry.inputs} : {entry.type.text}"

def OutputEntry.line (entry : OutputEntry) : String :=
  let driver := match entry.driver with
    | some signal => signal.text
    | none => "<undriven>"
  s!"  output {entry.name} : {entry.type.text} = {driver}"

namespace Listing

def lines (listing : Listing) : List String :=
  s!"module {listing.name} \x7b" ::
    (listing.inputs.map (·.line) ++ listing.cells.map (·.line) ++ listing.outputs.map (·.line) ++ ["\x7d"])

def text (listing : Listing) : String :=
  "\n".intercalate listing.lines

end Listing

/-! ### The listing of a netlist -/

/-- The type is written like this. -/
def TypeTable.HasForm (types : TypeTable) (id : TypeId) (form : TypeForm) : Prop :=
  types.Nests id form.dims form.width

namespace Netlist

def inputPorts (netlist : Netlist) : List Port :=
  netlist.ports.filter (·.direction = .input)

def outputPorts (netlist : Netlist) : List Port :=
  netlist.ports.filter (·.direction = .output)

variable (netlist : Netlist) (names : Names)

/-- The input port is listed like this. -/
structure ListsInput (port : Port) (entry : InputEntry) : Prop where
  signal : port.signal = some entry.signal
  name : names.text port.name = .ok entry.name
  type : netlist.types.HasForm port.type entry.type

/-- The cell is listed like this, with the name and the type of the signal that it drives. -/
structure ListsCell (cell : Cell) (entry : CellEntry) : Prop where
  output : cell.output? = some entry.output
  signal : ∃ signal, netlist.signals.find? entry.output = some signal ∧
    names.text signal.name = .ok entry.name ∧ netlist.types.HasForm signal.type entry.type
  operation : cell.operation = entry.operation
  inputs : cell.inputs = entry.inputs

/-- The output port is listed like this, driven or not. -/
structure ListsOutput (port : Port) (entry : OutputEntry) : Prop where
  name : names.text port.name = .ok entry.name
  type : netlist.types.HasForm port.type entry.type
  driver : port.signal = entry.driver

/-- The netlist has the ports and the cells of the listing, in this order, under the names that the table gives
them. -/
structure Lists (listing : Listing) : Prop where
  name : names.text netlist.name = .ok listing.name
  inputs : List.Forall₂ (netlist.ListsInput names) netlist.inputPorts listing.inputs
  cells : List.Forall₂ (netlist.ListsCell names) netlist.cells.items.toList listing.cells
  outputs : List.Forall₂ (netlist.ListsOutput names) netlist.outputPorts listing.outputs

variable {netlist names} {line : String} {line? : Option String}

theorem exists_form {types : TypeTable} {id : TypeId} {text : String} (h : types.text id = .ok text) :
    ∃ form : TypeForm, types.HasForm id form ∧ text = form.text := by
  simp only [TypeTable.text, bind_eq_ok, pure_eq_ok] at h
  obtain ⟨layout, hlayout, rfl⟩ := h
  exact ⟨⟨layout.dims, layout.width⟩, (TypeTable.nests_of_unfold hlayout).1, rfl⟩

theorem exists_inputEntry {port : Port} {id : SignalId} (hsignal : port.signal = some id)
    (h : netlist.inputLine names port = .ok line?) :
    ∃ entry, netlist.ListsInput names port entry ∧ line? = some entry.line := by
  simp only [inputLine, hsignal, bind_eq_ok, pure_eq_ok] at h
  obtain ⟨name, hname, text, htext, rfl⟩ := h
  obtain ⟨form, hform, rfl⟩ := exists_form htext
  exact ⟨⟨id, name, form⟩, ⟨hsignal, hname, hform⟩, rfl⟩

theorem exists_cellEntry {cell : Cell} {id : SignalId} (houtput : cell.output? = some id)
    (h : netlist.cellLine names cell = .ok line?) :
    ∃ entry, netlist.ListsCell names cell entry ∧ line? = some entry.line := by
  simp only [cellLine, houtput, bind_eq_ok, pure_eq_ok, Table.get_eq_ok] at h
  obtain ⟨signal, hsignal, name, hname, text, htext, rfl⟩ := h
  obtain ⟨form, hform, rfl⟩ := exists_form htext
  exact ⟨⟨id, name, cell.operation, cell.inputs, form⟩, ⟨houtput, ⟨signal, hsignal, hname, hform⟩, rfl, rfl⟩, rfl⟩

theorem exists_outputEntry {port : Port} (h : netlist.outputLine names port = .ok line) :
    ∃ entry, netlist.ListsOutput names port entry ∧ line = entry.line := by
  simp only [outputLine, bind_eq_ok, pure_eq_ok] at h
  obtain ⟨name, hname, text, htext, rfl⟩ := h
  obtain ⟨form, hform, rfl⟩ := exists_form htext
  exact ⟨⟨name, form, port.signal⟩, ⟨hname, hform, rfl⟩, rfl⟩

end Netlist

/-- Where every run over a list answers with what is written from an entry, the lines are written from a list of
entries. -/
theorem exists_entries {α β γ ε : Type} {f : α → Except ε γ} (R : α → β → Prop) (write : β → γ) {xs : List α}
    {lines : List γ} (h : xs.mapM f = .ok lines)
    (hentry : ∀ x ∈ xs, ∀ line, f x = .ok line → ∃ entry, R x entry ∧ line = write entry) :
    ∃ entries, List.Forall₂ R xs entries ∧ lines = entries.map write := by
  have hruns := mapM_eq_ok.mp h
  clear h
  induction hruns with
  | nil => exact ⟨[], .nil, rfl⟩
  | cons hrun _ ih =>
    rw [List.forall_mem_cons] at hentry
    obtain ⟨entry, hlists, rfl⟩ := hentry.1 _ hrun
    obtain ⟨entries, hrest, rfl⟩ := ih hentry.2
    exact ⟨entry :: entries, .cons hlists hrest, rfl⟩

/-- **Listings.** The text of a well-formed netlist is that of its listing. -/
theorem Builder.WellFormed.exists_listing {builder : Builder} (h : builder.WellFormed) {names : Names} {text : String}
    (htext : builder.finish.text names = .ok text) :
    ∃ listing, builder.finish.Lists names listing ∧ text = listing.text := by
  have hinputLine : ∀ port ∈ builder.finish.inputPorts, ∀ line?, builder.finish.inputLine names port = .ok line? →
      ∃ entry, builder.finish.ListsInput names port entry ∧ line? = some entry.line := by
    intro port hport line? hline
    obtain ⟨hmem, hdirection⟩ := List.mem_filter.mp hport
    obtain ⟨id, -, hsignal, -⟩ := h.inputs hmem (of_decide_eq_true hdirection)
    exact Netlist.exists_inputEntry hsignal hline
  have hcellLine : ∀ cell ∈ builder.finish.cells.items.toList, ∀ line?,
      builder.finish.cellLine names cell = .ok line? →
        ∃ entry, builder.finish.ListsCell names cell entry ∧ line? = some entry.line := by
    intro cell hcell line? hline
    obtain ⟨place, hplace⟩ := Array.mem_iff_getElem?.mp (Array.mem_toList_iff.mp hcell)
    have hfind : builder.cells.find? ⟨place⟩ = some cell := hplace
    obtain ⟨output, hdrives⟩ := h.cells hfind
    exact Netlist.exists_cellEntry hdrives.pins.output? hline
  simp only [Netlist.text, Netlist.lines, bind_eq_ok, pure_eq_ok] at htext
  obtain ⟨_, ⟨name, hname, inputLines, hinputs, cellLines, hcells, outputLines, houtputs, rfl⟩, rfl⟩ := htext
  obtain ⟨inputs, hlists, rfl⟩ := exists_entries _ (fun entry : InputEntry => some entry.line) hinputs hinputLine
  obtain ⟨cells, hlists', rfl⟩ := exists_entries _ (fun entry : CellEntry => some entry.line) hcells hcellLine
  obtain ⟨outputs, hlists'', rfl⟩ := exists_entries (builder.finish.ListsOutput names) OutputEntry.line houtputs
    fun _ _ _ hline => Netlist.exists_outputEntry hline
  refine ⟨⟨name, inputs, cells, outputs⟩, ⟨hname, hlists, hlists', hlists''⟩, ?_⟩
  -- no line is left out
  have hkept {α : Type} (line : α → String) (entries : List α) :
      (entries.map fun entry => some (line entry)).filterMap id = entries.map line := by
    simp [List.filterMap_map]
  rw [hkept, hkept]
  rfl

end NetArray
