import Mathlib
import NetArray.Proofs.Netlist.FinishedNetlists
import NetArray.Proofs.Netlist.ListingTexts

/-!
# Netlists with the same text

Two netlists that were built and finished, each with its own names and its own types, and are written with the same
text have the same listing: a text can be read back to one listing only. What is left to show is that a listing tells
where bits come from. It does not name the types by their ids and lists no signal that nothing drives, but

* a signal that no cell drives is behind an input port (`Finishable.exists_port`), and the form of its type tells its
  width (`TypeTable.HasForm.bitWidth_eq`);
* cells are listed in the order of their ids, so a signal has the same driver in both netlists.

So a signal that can be traced in the one netlist can be traced to the same bits in the other
(`Builder.traces_of_lists`, by induction on the number of cells on the way). `Draft.text_unambiguous` is the result.
-/

namespace NetArray

/-- A type with a width has the width that its form tells. -/
theorem TypeTable.HasForm.bitWidth_eq {types : TypeTable} {id : TypeId} {form : TypeForm} {width : Nat}
    (h : types.HasForm id form) (hwidth : types.bitWidth id = .ok width) : width = form.width * form.dims.prod := by
  obtain ⟨dims, -, inner, hnests, rfl, -⟩ := exists_nests hwidth
  obtain ⟨rfl, rfl⟩ := hnests.det h
  rfl

/-- Lists that are related to the same list are related to one another. -/
theorem forall₂_of_common {α β γ : Type} {R : α → γ → Prop} {S : β → γ → Prop} {T : α → β → Prop} {xs : List α}
    {ys : List β} {zs : List γ} (hR : List.Forall₂ R xs zs) (hS : List.Forall₂ S ys zs)
    (h : ∀ x ∈ xs, ∀ y z, R x z → S y z → T x y) : List.Forall₂ T xs ys := by
  induction hR generalizing ys with
  | nil =>
    rw [List.forall₂_nil_right_iff.mp hS]
    exact .nil
  | cons hhead _ ih =>
    obtain ⟨y, rest, hy, hrest, rfl⟩ := List.forall₂_cons_right_iff.mp hS
    rw [List.forall_mem_cons] at h
    exact .cons (h.1 y _ hhead hy) (ih hrest h.2)

/-! ### Names that are shown -/

namespace Netlist

/-- The names of the netlist itself, of its ports and of its signals. -/
def shownNames (netlist : Netlist) (names : Names) : List String :=
  (netlist.name :: (netlist.ports.map (·.name) ++ netlist.signals.items.toList.map (·.name))).filterMap
    fun ident => (names.text ident).toOption

variable {netlist : Netlist} {names : Names} {listing : Listing}

theorem mem_shownNames {ident : Ident} {text : String} (hmem : ident = netlist.name ∨
    (∃ port ∈ netlist.ports, port.name = ident) ∨ ∃ id signal, netlist.signals.find? id = some signal ∧
      signal.name = ident) (htext : names.text ident = .ok text) : text ∈ netlist.shownNames names := by
  refine List.mem_filterMap.mpr ⟨ident, ?_, by rw [htext]; rfl⟩
  rw [List.mem_cons, List.mem_append, List.mem_map, List.mem_map]
  refine hmem.imp id (Or.imp_right ?_)
  rintro ⟨id, signal, hsignal, rfl⟩
  exact ⟨signal, Array.mem_toList_iff.mpr (Array.mem_of_getElem? hsignal), rfl⟩

/-- Where the names of a netlist are identifiers, those of its listing are. -/
theorem Lists.plain (h : netlist.Lists names listing) (hnames : ∀ text ∈ netlist.shownNames names, isIdentifier text) :
    listing.Plain where
  name := hnames _ (mem_shownNames (.inl rfl) h.name)
  inputs entry hentry := by
    obtain ⟨port, hport, hlists⟩ := exists_of_forall₂_of_mem h.inputs hentry
    exact hnames _ (mem_shownNames (.inr (.inl ⟨port, List.mem_of_mem_filter hport, rfl⟩)) hlists.name)
  cells entry hentry := by
    obtain ⟨cell, -, hlists⟩ := exists_of_forall₂_of_mem h.cells hentry
    obtain ⟨signal, hsignal, hname, -⟩ := hlists.signal
    exact hnames _ (mem_shownNames (.inr (.inr ⟨_, signal, hsignal, rfl⟩)) hname)
  outputs entry hentry := by
    obtain ⟨port, hport, hlists⟩ := exists_of_forall₂_of_mem h.outputs hentry
    exact hnames _ (mem_shownNames (.inr (.inl ⟨port, List.mem_of_mem_filter hport, rfl⟩)) hlists.name)

end Netlist

/-! ### Builders at the end of a run -/

namespace Builder

namespace Finishable

variable {builder : Builder} {signal : SignalId} {entry : Signal}

/-- No cell drives a signal of kind port. -/
theorem lookup_port (h : builder.Finishable) (hentry : builder.signals.find? signal = some entry)
    (hkind : entry.kind = .port) : builder.drivers.lookup signal = none := by
  have hcells : builder.cells.items.countP (fun cell => cell.output? = some signal) = 0 := by
    have hsources := h.formed.sources hentry
    rw [hkind] at hsources
    exact (Prod.mk.inj hsources).2
  cases hlookup : builder.drivers.lookup signal with
  | none => rfl
  | some id =>
    -- the cell of the note would be counted
    obtain ⟨cell, hcell, houtput⟩ := h.formed.drivers.mp hlookup
    exact absurd (decide_eq_true houtput) (Array.countP_eq_zero.mp hcells cell (Array.mem_of_getElem? hcell))

/-- A signal of kind port is behind an input port. -/
theorem exists_port (h : builder.Finishable) (hentry : builder.signals.find? signal = some entry)
    (hkind : entry.kind = .port) :
    ∃ port ∈ builder.finish.inputPorts, port.signal = some signal ∧ port.type = entry.type := by
  have hports : builder.ports.countP (·.feeds signal) = 1 := by
    have hsources := h.formed.sources hentry
    rw [hkind] at hsources
    exact (Prod.mk.inj hsources).1
  obtain ⟨port, hport, hfeeds⟩ := List.countP_pos_iff.mp (hports ▸ Nat.one_pos)
  obtain ⟨hdirection, hsignal⟩ := Bool.and_eq_true_iff.mp hfeeds
  obtain ⟨id, entry', hid, hentry', -, -, htype⟩ := h.formed.inputs hport (of_decide_eq_true hdirection)
  obtain rfl := Option.some.inj (hid.symm.trans (of_decide_eq_true hsignal))
  obtain rfl := Option.some.inj (hentry.symm.trans hentry')
  exact ⟨port, List.mem_filter.mpr ⟨hport, hdirection⟩, hid, htype.symm⟩

end Finishable

/-! ### Bits that a listing tells -/

section SameListing

variable {builder builder' : Builder} {names names' : Names} {listing : Listing} {signal : SignalId}

variable (h : builder.Finishable) (h' : builder'.Finishable) (hlists : builder.finish.Lists names listing)
  (hlists' : builder'.finish.Lists names' listing)

include h h' hlists hlists'

/-- A signal of kind port in the one netlist is one in the other, of the same width. -/
theorem exists_port_of_lists {entry : Signal} {width : Nat} (hentry : builder.signals.find? signal = some entry)
    (hkind : entry.kind = .port) (hwidth : builder.types.bitWidth entry.type = .ok width) :
    ∃ entry', builder'.signals.find? signal = some entry' ∧ entry'.kind = .port ∧
      builder'.types.bitWidth entry'.type = .ok width := by
  obtain ⟨port, hport, hsignal, htype⟩ := h.exists_port hentry hkind
  -- from the port to its line, and from there to the port of the other netlist
  obtain ⟨listed, hlisted, hline⟩ := exists_of_forall₂_of_mem hlists.inputs.flip hport
  obtain ⟨port', hport', hline'⟩ := exists_of_forall₂_of_mem hlists'.inputs hlisted
  obtain ⟨hmem', hdirection'⟩ := List.mem_filter.mp hport'
  obtain ⟨id', entry', hsignal', hentry', hkind', -, htype'⟩ :=
    h'.formed.inputs hmem' (of_decide_eq_true hdirection')
  have hid : some id' = some signal :=
    calc some id'
      _ = some listed.signal := hsignal'.symm.trans hline'.signal
      _ = some signal := hline.signal.symm.trans hsignal
  obtain rfl := Option.some.inj hid
  refine ⟨entry', hentry', hkind', ?_⟩
  -- both types are written alike, so their widths are the same product
  obtain ⟨width', hwidth'⟩ := h'.measured _ _ hentry'
  rw [← htype] at hwidth
  rw [htype'] at hwidth' ⊢
  rw [hline.type.bitWidth_eq hwidth, hwidth', hline'.type.bitWidth_eq hwidth']

/-- A signal that a cell drives is driven by the cell of the same id in the other netlist, which does the same with the
same inputs. -/
theorem exists_cell_of_lists {id : CellId} {cell : Cell} (hcell : builder.cells.find? id = some cell)
    (hdriver : builder.drivers.lookup signal = some id) :
    ∃ cell' entry', builder'.cells.find? id = some cell' ∧ builder'.drivers.lookup signal = some id ∧
      builder'.signals.find? signal = some entry' ∧ cell'.inputs = cell.inputs ∧ cell'.operation = cell.operation := by
  obtain ⟨driver, hdriven, houtput⟩ := h.formed.drivers.mp hdriver
  obtain rfl := Option.some.inj (hcell.symm.trans hdriven)
  -- cells are listed in the order of their ids
  obtain ⟨listed, hlisted, hline⟩ := forall₂_getElem? hlists.cells (Array.getElem?_toList.trans hcell)
  obtain ⟨cell', hplace', hline'⟩ := forall₂_getElem? hlists'.cells.flip hlisted
  have hcell' : builder'.cells.find? id = some cell' := Array.getElem?_toList.symm.trans hplace'
  obtain rfl : listed.output = signal := Option.some.inj (hline.output.symm.trans houtput)
  obtain ⟨entry', hentry', -⟩ := hline'.signal
  exact ⟨cell', entry', hcell', h'.formed.drivers.mpr ⟨cell', hcell', hline'.output⟩, hentry',
    hline'.inputs.trans hline.inputs.symm, hline'.operation.trans hline.operation.symm⟩

/-- **One listing, one meaning.** A signal is traced to the same bits in both netlists. -/
theorem traces_of_lists {depth : Nat} {bits : List BitOrigin} (htraces : builder.wiring.Traces depth signal bits) :
    builder'.wiring.Traces depth signal bits := by
  induction depth generalizing signal bits with
  | zero => exact htraces.elim
  | succ depth ih =>
    obtain ⟨entry, width, hentry, hwidth, htraces⟩ := htraces
    cases hdriver : builder.wiring.drivers.lookup signal with
    | none =>
      rw [hdriver] at htraces
      obtain ⟨hkind, rfl⟩ := htraces
      obtain ⟨entry', hentry', hkind', hwidth'⟩ := exists_port_of_lists h h' hlists hlists' hentry hkind hwidth
      exact Wiring.traces_port hentry' hwidth' hkind' (h'.lookup_port hentry' hkind')
    | some id =>
      rw [hdriver] at htraces
      obtain ⟨cell, inputs, hcell, hinputs, hbits⟩ := htraces
      obtain ⟨cell', entry', hcell', hdriver', hentry', hsame, hoperation⟩ :=
        exists_cell_of_lists h h' hlists hlists' hcell hdriver
      -- which width the output has does not matter, as long as it has one
      obtain ⟨width', hwidth'⟩ := h'.measured _ _ hentry'
      rw [← hoperation] at hbits
      refine Wiring.traces_cell hentry' hwidth' hdriver' hcell' ?_ hbits
      rw [hsame]
      exact hinputs.imp fun _ _ => ih

/-- A handle of the one builder's own has the same bits in both finished netlists. -/
theorem exists_origins_of_lists {value : Value} (hvalue : builder.valueOf signal = .ok value) :
    ∃ bits, builder.finish.origins signal = .ok bits ∧ builder'.finish.origins signal = .ok bits := by
  obtain ⟨bits, hcarries⟩ := h.grounded.carries hvalue
  obtain ⟨rfl, -⟩ := valueOf_eq_ok.mp hvalue
  have htraces := traces_of_lists h h' hlists hlists' hcarries.traces
  have hsize : builder.cells.size = builder'.cells.size := by
    have hlength := hlists.cells.length_eq.trans hlists'.cells.length_eq.symm
    rwa [Array.length_toList, Array.length_toList] at hlength
  -- the resolver may follow as many cells in the one netlist as in the other
  rw [hsize] at htraces
  refine ⟨bits, ?_, ?_⟩
  · rw [h.noted.traceable.origins_finish]
    exact Wiring.origins_eq hcarries.traces
  · rw [h'.noted.traceable.origins_finish]
    exact Wiring.origins_eq htraces

end SameListing

end Builder

/-! ### Runs -/

namespace Draft

open Builder

/-- **The text of a netlist is unambiguous.** Two netlists, each finished after any calls of which none faults, with
constants that have a width of their own and with identifiers for names, that are written with the same text have the
same listing: the same input ports, cells and output ports in the same order. Their output ports are driven by the same
signals, with the same bits behind them. -/
theorem text_unambiguous {names names' shown shown' : Names} {name name' text : String} {draft draft' : Draft}
    (hrun : (start names name).Runs draft) (hrun' : (start names' name').Runs draft')
    (hnames : ∀ shownName ∈ draft.builder.finish.shownNames shown, isIdentifier shownName)
    (hnames' : ∀ shownName ∈ draft'.builder.finish.shownNames shown', isIdentifier shownName)
    (htext : draft.builder.finish.text shown = .ok text) (htext' : draft'.builder.finish.text shown' = .ok text) :
    (∃ listing, draft.builder.finish.Lists shown listing ∧ draft'.builder.finish.Lists shown' listing) ∧
      List.Forall₂ (fun port port' => port.signal = port'.signal ∧ ∀ signal, port.signal = some signal →
          ∃ bits, draft.builder.finish.origins signal = .ok bits ∧ draft'.builder.finish.origins signal = .ok bits)
        draft.builder.finish.outputPorts draft'.builder.finish.outputPorts := by
  have h := finishable_of_runs hrun
  have h' := finishable_of_runs hrun'
  obtain ⟨listing, hlists, rfl⟩ := h.formed.exists_listing htext
  obtain ⟨listing', hlists', hsame⟩ := h'.formed.exists_listing htext'
  obtain rfl := Listing.eq_of_text_eq (hlists.plain hnames) (hlists'.plain hnames') hsame
  refine ⟨⟨listing, hlists, hlists'⟩, forall₂_of_common hlists.outputs hlists'.outputs ?_⟩
  intro port hport port' listed hline hline'
  refine ⟨hline.driver.trans hline'.driver.symm, fun signal hsignal => ?_⟩
  -- what drives an output port is a handle of the builder's own
  obtain ⟨hmem, hdirection⟩ := List.mem_filter.mp hport
  obtain ⟨value, hvalue, -⟩ := h.formed.outputs hmem (of_decide_eq_true hdirection) hsignal
  exact exists_origins_of_lists h h' hlists hlists' hvalue

/-- The calls of `driveJoined` after another name and another type were interned. -/
def driveJoinedLater : List Call :=
  [.intern "b", .internType (.bits 2), .internType (.bits 4), .input "a" ⟨1⟩, .output "y" ⟨1⟩,
    .constant ⟨[.one, .zero]⟩, .slice ⟨⟨0⟩, ⟨1⟩, 4⟩ 1 2, .concat [⟨⟨1⟩, ⟨0⟩, 2⟩, ⟨⟨2⟩, ⟨0⟩, 2⟩],
    .drive ⟨1⟩ ⟨⟨3⟩, ⟨1⟩, 4⟩]

/-- How both netlists are written. -/
def joinedText : String :=
  "\n".intercalate ["module m \x7b", "  input %0 a : i4", "  %1 _const_0 = const 2'b01 : i2",
    "  %2 _slice_0 = slice[1 +: 2] %0 : i2", "  %3 _concat_0 = concat %1, %2 : i4", "  output y : i4 = %3", "\x7d"]

/-- The two builders are different, their netlists are written alike, and so their outputs have the same bits. -/
theorem text_unambiguous_driveJoined :
    let draft := driveJoined.foldl step (start {} "m")
    let draft' := driveJoinedLater.foldl step (start {} "m")
    draft.builder ≠ draft'.builder ∧ draft.builder.finish.text draft.builder.names = .ok joinedText ∧
      draft'.builder.finish.text draft'.builder.names = .ok joinedText ∧
      ∃ bits, draft.builder.finish.origins ⟨3⟩ = .ok bits ∧ draft'.builder.finish.origins ⟨3⟩ = .ok bits := by
  intro draft draft'
  have hrun : (start {} "m").Runs draft := reaches_foldl (by decide +kernel)
  have hrun' : (start {} "m").Runs draft' := reaches_foldl (by decide +kernel)
  have htext : draft.builder.finish.text draft.builder.names = .ok joinedText := by decide +kernel
  have htext' : draft'.builder.finish.text draft'.builder.names = .ok joinedText := by decide +kernel
  obtain ⟨-, houtputs⟩ := text_unambiguous hrun hrun' (by decide +kernel) (by decide +kernel) htext htext'
  have hport : draft.builder.finish.outputPorts[0]? = some ⟨⟨1⟩, ⟨2⟩, .output, ⟨0⟩, some ⟨3⟩⟩ := by decide +kernel
  obtain ⟨port', -, -, hbits⟩ := forall₂_getElem? houtputs hport
  exact ⟨by decide +kernel, htext, htext', hbits ⟨3⟩ rfl⟩

end Draft

end NetArray
