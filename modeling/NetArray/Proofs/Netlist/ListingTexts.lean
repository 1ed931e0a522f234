import Mathlib
import NetArray.Proofs.Netlist.Listings
import NetArray.Proofs.Netlist.Spellings

/-!
# Reading listings back

A listing can be read back from its text if the names in it are identifiers. Everything in a line ends where a blank,
a bracket or a new line follows, and none of these can be part of a number, a name or a bit pattern. What is optional
in a line is told by its first characters: the operands of a cell by a percent sign, the attributes of an operation by
its mnemonic.

* `signal_unique`, `operation_unique` and `operands_unique` take the parts of a line off the front of a text;
* `legible_inputs`, `legible_cells` and `legible_outputs` take off a line. The fourth character of a line, counted
  from the new line on, tells what kind of line it is (`Marked`);
* `Listing.eq_of_text_eq` — listings with the same text are the same.
-/

namespace NetArray

/-! ### Identifiers -/

/-- The character may stand in an identifier. -/
def inIdentifier (char : Char) : Bool :=
  char.isAlphanum || char == '_'

/-- The name is a letter or an underscore, and then any number of letters, digits and underscores, all of them
ASCII. -/
def isIdentifier (name : String) : Bool :=
  match name.toList with
  | [] => false
  | first :: others => (first.isAlpha || first == '_') && others.all inIdentifier

theorem inIdentifier_of_mem {name : String} (h : isIdentifier name) : ∀ char ∈ name.toList, inIdentifier char := by
  unfold isIdentifier at h
  split at h
  · cases h
  · next first others heq =>
    obtain ⟨hfirst, hothers⟩ := Bool.and_eq_true_iff.mp h
    rw [heq, List.forall_mem_cons]
    refine ⟨?_, List.all_eq_true.mp hothers⟩
    rcases Bool.or_eq_true_iff.mp hfirst with halpha | hunderscore
    · simp [inIdentifier, Char.isAlphanum, halpha]
    · simp [inIdentifier, hunderscore]

/-- An identifier is taken off where a character follows that is not in it. -/
theorem identifier_unique {name name' : String} {rest rest' : List Char} (hname : isIdentifier name)
    (hname' : isIdentifier name') (hrest : Stops inIdentifier rest) (hrest' : Stops inIdentifier rest')
    (h : name.toList ++ rest = name'.toList ++ rest') : name = name' ∧ rest = rest' := by
  obtain ⟨hchars, htail⟩ :=
    front_unique (inIdentifier_of_mem hname) (inIdentifier_of_mem hname') hrest hrest' h
  exact ⟨String.toList_inj.mp hchars, htail⟩

/-! ### The parts of a line -/

section Parts

variable {rest rest' : List Char}

@[simp] theorem toList_signal (signal : SignalId) : signal.text.toList = '%' :: Nat.toDigits 10 signal.index := by
  change ("%" ++ signal.index.repr).toList = _
  simp

/-- A signal is taken off where its number ends. -/
theorem signal_unique {signal signal' : SignalId} (hrest : Stops Char.isDigit rest) (hrest' : Stops Char.isDigit rest')
    (h : signal.text.toList ++ rest = signal'.text.toList ++ rest') : signal = signal' ∧ rest = rest' := by
  rw [toList_signal, toList_signal, List.cons_append, List.cons_append, List.cons_inj_right] at h
  obtain ⟨hindex, htail⟩ := number_unique hrest hrest' h
  exact ⟨congrArg SignalId.mk hindex, htail⟩

theorem form_unique {form form' : TypeForm} (hrest : Stops Char.isDigit rest) (hrest' : Stops Char.isDigit rest')
    (h : form.text.toList ++ rest = form'.text.toList ++ rest') : form = form' ∧ rest = rest' := by
  obtain ⟨hdims, hwidth, htail⟩ := type_unique hrest hrest' h
  exact ⟨TypeForm.ext hdims hwidth, htail⟩

/-- The bits of a pattern are taken off where a character follows that stands for no bit. -/
theorem pattern_unique {pattern pattern' : Pattern} (hrest : Stops Char.isAlphanum rest)
    (hrest' : Stops Char.isAlphanum rest') (h : pattern.text.toList ++ rest = pattern'.text.toList ++ rest') :
    pattern = pattern' ∧ rest = rest' := by
  have hkind (pattern : Pattern) : ∀ char ∈ pattern.text.toList, char.isAlphanum := by
    intro char hchar
    rw [Pattern.text, String.toList_ofList] at hchar
    obtain ⟨bit, -, rfl⟩ := List.mem_map.mp hchar
    cases bit <;> rfl
  have hchar : Function.Injective Logic.char := by
    intro bit bit' heq
    cases bit <;> cases bit' <;> first | rfl | cases heq
  obtain ⟨heq, htail⟩ := front_unique (hkind pattern) (hkind pattern') hrest hrest' h
  rw [Pattern.text, Pattern.text, String.toList_ofList, String.toList_ofList] at heq
  have hbits : pattern.bits = pattern'.bits := List.reverse_injective (List.map_injective_iff.mpr hchar heq)
  exact ⟨congrArg Pattern.mk hbits, htail⟩

namespace Operation

@[simp] theorem toList_constant (pattern : Pattern) : (constant pattern).text.toList =
    "const ".toList ++ (Nat.toDigits 10 pattern.width ++ ("'b".toList ++ pattern.text.toList)) := by
  change ("const" ++ (" " ++ (pattern.width.repr ++ "'b" ++ pattern.text))).toList = _
  simp

@[simp] theorem toList_slice (offset width : Nat) : (slice offset width).text.toList =
    "slice[".toList ++ (Nat.toDigits 10 offset ++ (" +: ".toList ++ (Nat.toDigits 10 width ++ "]".toList))) := by
  change ("slice" ++ ("[" ++ offset.repr ++ " +: " ++ width.repr ++ "]")).toList = _
  simp

@[simp] theorem toList_concat : concat.text.toList = "concat".toList := rfl

@[simp] theorem toList_buffer : buffer.text.toList = "buf".toList := rfl

@[simp] theorem toList_bitcast : bitcast.text.toList = "bitcast".toList := rfl

end Operation

/-- An operation is taken off where the bits of a pattern would end. -/
theorem operation_unique {operation operation' : Operation} (hrest : Stops Char.isAlphanum rest)
    (hrest' : Stops Char.isAlphanum rest')
    (h : operation.text.toList ++ rest = operation'.text.toList ++ rest') :
    operation = operation' ∧ rest = rest' := by
  -- the first four characters tell the operations apart
  cases operation with
  | constant pattern =>
    cases operation' with
    | constant pattern' =>
      simp only [Operation.toList_constant, List.append_assoc, List.append_cancel_left_eq] at h
      -- the number of bits tells nothing that the bits do not
      obtain ⟨-, htail⟩ := number_unique (by simp) (by simp) h
      rw [List.append_cancel_left_eq] at htail
      obtain ⟨rfl, hends⟩ := pattern_unique hrest hrest' htail
      exact ⟨rfl, hends⟩
    | _ => simp at h
  | slice offset width =>
    cases operation' with
    | slice offset' width' =>
      simp only [Operation.toList_slice, List.append_assoc, List.append_cancel_left_eq] at h
      obtain ⟨rfl, htail⟩ := number_unique (by simp) (by simp) h
      rw [List.append_cancel_left_eq] at htail
      obtain ⟨rfl, hends⟩ := number_unique (by simp) (by simp) htail
      exact ⟨rfl, List.append_cancel_left hends⟩
    | _ => simp at h
  | concat =>
    cases operation' with
    | concat => exact ⟨rfl, List.append_cancel_left h⟩
    | _ => simp at h
  | buffer =>
    cases operation' with
    | buffer => exact ⟨rfl, List.append_cancel_left h⟩
    | _ => simp at h
  | bitcast =>
    cases operation' with
    | bitcast => exact ⟨rfl, List.append_cancel_left h⟩
    | _ => simp at h

theorem toList_operandText_cons (input : SignalId) (inputs : List SignalId) :
    (operandText (input :: inputs)).toList =
      " ".toList ++ (input.text.toList ++ inputs.flatMap fun input => ", ".toList ++ input.text.toList) := by
  change (" " ++ ", ".intercalate (input.text :: inputs.map SignalId.text)).toList = _
  rw [String.toList_append, toList_intercalate_cons, List.flatMap_map]

/-- Each operand but the first one has a comma in front, which ends the one before. -/
theorem legible_operands : Legible (fun input : SignalId => ", ".toList ++ input.text.toList) (fun _ => True)
    (fun text => text.head? = some ',') (Stops Char.isDigit) where
  unique _ _ hrest hrest' h := by
    rw [List.append_assoc, List.append_assoc, List.append_cancel_left_eq] at h
    exact signal_unique hrest hrest' h
  opens _ _ := by simp
  closes h := by simp [Stops, h]

/-- The operands of a cell are taken off where the type follows. -/
theorem operands_unique {inputs inputs' : List SignalId}
    (h : (operandText inputs).toList ++ (" : ".toList ++ rest) =
      (operandText inputs').toList ++ (" : ".toList ++ rest')) : inputs = inputs' ∧ rest = rest' := by
  have hends (rest : List Char) : Stops Char.isDigit (" : ".toList ++ rest) ∧
      ¬(" : ".toList ++ rest).head? = some ',' := by simp
  cases inputs with
  | nil =>
    cases inputs' with
    | nil => exact ⟨rfl, List.append_cancel_left (List.append_cancel_left h)⟩
    | cons input inputs' =>
      -- behind the blank there is a colon in the one text and a percent sign in the other
      simp [operandText] at h
  | cons input inputs =>
    cases inputs' with
    | nil => simp [operandText] at h
    | cons input' inputs' =>
      simp only [toList_operandText_cons, List.append_assoc, List.append_cancel_left_eq] at h
      obtain ⟨rfl, htail⟩ := signal_unique (legible_operands.closes_flatMap (fun _ _ => trivial) (hends _).1)
        (legible_operands.closes_flatMap (fun _ _ => trivial) (hends _).1) h
      obtain ⟨rfl, hend⟩ := legible_operands.unique_flatMap (fun _ _ => trivial) (fun _ _ => trivial) (hends _)
        (hends _) htail
      exact ⟨rfl, List.append_cancel_left hend⟩

theorem stops_operands (inputs : List SignalId) (rest : List Char) :
    Stops Char.isAlphanum ((operandText inputs).toList ++ (" : ".toList ++ rest)) := by
  cases inputs with
  | nil => simp [operandText]
  | cons input inputs => simp [toList_operandText_cons]

end Parts

/-! ### Lines -/

def onNewLine (line : String) : List Char :=
  "\n".toList ++ line.toList

/-- A new line begins that is marked by this character. -/
def Marked (mark : Char) (text : List Char) : Prop :=
  "\n  ".toList ++ [mark] <+: text

theorem Marked.det {mark mark' : Char} {text : List Char} (h : Marked mark text) (h' : Marked mark' text) :
    mark = mark' := by
  have heq := (List.prefix_of_prefix_length_le h h' le_rfl).eq_of_length rfl
  simpa using heq

theorem Marked.stops {mark : Char} {text : List Char} (h : Marked mark text) : Stops Char.isDigit text := by
  obtain ⟨rest, rfl⟩ := h
  simp

/-- Lines of another kind do not begin with the mark if what follows them does not. -/
theorem Legible.not_marked {α : Type} {part : α → List Char} {Proper : α → Prop} {Closes : List Char → Prop}
    {mark mark' : Char} (h : Legible part Proper (Marked mark) Closes) (hne : mark ≠ mark') {items : List α}
    (hitems : ∀ item ∈ items, Proper item) {rest : List Char} (hrest : ¬Marked mark' rest) :
    ¬Marked mark' (items.flatMap part ++ rest) := by
  cases items with
  | nil => exact hrest
  | cons item items =>
    rw [List.flatMap_cons, List.append_assoc]
    exact fun hmarked => hne ((h.opens _ (hitems item List.mem_cons_self)).det hmarked)

theorem toList_inputLine (entry : InputEntry) : entry.line.toList = "  input ".toList ++
    (entry.signal.text.toList ++ (" ".toList ++ (entry.name.toList ++ (" : ".toList ++ entry.type.text.toList)))) := by
  change ("  input " ++ entry.signal.text ++ " " ++ entry.name ++ " : " ++ entry.type.text).toList = _
  simp only [String.toList_append, List.append_assoc]

theorem toList_cellLine (entry : CellEntry) : entry.line.toList = "  ".toList ++
    (entry.output.text.toList ++ (" ".toList ++ (entry.name.toList ++ (" = ".toList ++ (entry.operation.text.toList ++
      ((operandText entry.inputs).toList ++ (" : ".toList ++ entry.type.text.toList))))))) := by
  change ("  " ++ entry.output.text ++ " " ++ entry.name ++ " = " ++ entry.operation.text ++
    operandText entry.inputs ++ " : " ++ entry.type.text).toList = _
  simp only [String.toList_append, List.append_assoc]

/-- How the driver of an output port is written. -/
def driverText : Option SignalId → String
  | some signal => signal.text
  | none => "<undriven>"

theorem toList_outputLine (entry : OutputEntry) : entry.line.toList = "  output ".toList ++
    (entry.name.toList ++ (" : ".toList ++ (entry.type.text.toList ++ (" = ".toList ++
      (driverText entry.driver).toList)))) := by
  change ("  output " ++ entry.name ++ " : " ++ entry.type.text ++ " = " ++ driverText entry.driver).toList = _
  simp only [String.toList_append, List.append_assoc]

theorem legible_inputs : Legible (fun entry : InputEntry => onNewLine entry.line)
    (fun entry => isIdentifier entry.name) (Marked 'i') (Stops Char.isDigit) where
  unique {entry entry' rest rest'} hname hname' hrest hrest' h := by
    simp only [onNewLine, toList_inputLine, List.append_assoc, List.append_cancel_left_eq] at h
    obtain ⟨hsignal, hafter⟩ := signal_unique (by simp) (by simp) h
    rw [List.append_cancel_left_eq] at hafter
    obtain ⟨hident, hafter⟩ := identifier_unique hname hname' (by simp [inIdentifier]) (by simp [inIdentifier]) hafter
    rw [List.append_cancel_left_eq] at hafter
    obtain ⟨htype, hend⟩ := form_unique hrest hrest' hafter
    exact ⟨InputEntry.ext hsignal hident htype, hend⟩
  opens rest _ := by simp [Marked, onNewLine, toList_inputLine]
  closes := Marked.stops

theorem legible_cells : Legible (fun entry : CellEntry => onNewLine entry.line)
    (fun entry => isIdentifier entry.name) (Marked '%') (Stops Char.isDigit) where
  unique {entry entry' rest rest'} hname hname' hrest hrest' h := by
    simp only [onNewLine, toList_cellLine, List.append_assoc, List.append_cancel_left_eq] at h
    obtain ⟨houtput, hafter⟩ := signal_unique (by simp) (by simp) h
    rw [List.append_cancel_left_eq] at hafter
    obtain ⟨hident, hafter⟩ := identifier_unique hname hname' (by simp [inIdentifier]) (by simp [inIdentifier]) hafter
    rw [List.append_cancel_left_eq] at hafter
    obtain ⟨hoperation, hafter⟩ := operation_unique (stops_operands _ _) (stops_operands _ _) hafter
    obtain ⟨hinputs, hafter⟩ := operands_unique hafter
    obtain ⟨htype, hend⟩ := form_unique hrest hrest' hafter
    exact ⟨CellEntry.ext houtput hident hoperation hinputs htype, hend⟩
  opens rest _ := by simp [Marked, onNewLine, toList_cellLine]
  closes := Marked.stops

/-- The driver of an output port is taken off where the line ends. -/
theorem driver_unique {driver driver' : Option SignalId} {rest rest' : List Char} (hrest : Stops Char.isDigit rest)
    (hrest' : Stops Char.isDigit rest')
    (h : (driverText driver).toList ++ rest = (driverText driver').toList ++ rest') :
    driver = driver' ∧ rest = rest' := by
  cases driver with
  | none =>
    cases driver' with
    | none => exact ⟨rfl, List.append_cancel_left h⟩
    | some signal => simp [driverText] at h
  | some signal =>
    cases driver' with
    | none => simp [driverText] at h
    | some signal' =>
      obtain ⟨rfl, hend⟩ := signal_unique hrest hrest' h
      exact ⟨rfl, hend⟩

theorem legible_outputs : Legible (fun entry : OutputEntry => onNewLine entry.line)
    (fun entry => isIdentifier entry.name) (Marked 'o') (Stops Char.isDigit) where
  unique {entry entry' rest rest'} hname hname' hrest hrest' h := by
    simp only [onNewLine, toList_outputLine, List.append_assoc, List.append_cancel_left_eq] at h
    obtain ⟨hident, hafter⟩ := identifier_unique hname hname' (by simp [inIdentifier]) (by simp [inIdentifier]) h
    rw [List.append_cancel_left_eq] at hafter
    obtain ⟨htype, hafter⟩ := form_unique (by simp) (by simp) hafter
    rw [List.append_cancel_left_eq] at hafter
    obtain ⟨hdriver, hend⟩ := driver_unique hrest hrest' hafter
    exact ⟨OutputEntry.ext hident htype hdriver, hend⟩
  opens rest _ := by simp [Marked, onNewLine, toList_outputLine]
  closes := Marked.stops

/-! ### Listings -/

namespace Listing

/-- The names of the listing are identifiers. -/
structure Plain (listing : Listing) : Prop where
  name : isIdentifier listing.name
  inputs : ∀ entry ∈ listing.inputs, isIdentifier entry.name
  cells : ∀ entry ∈ listing.cells, isIdentifier entry.name
  outputs : ∀ entry ∈ listing.outputs, isIdentifier entry.name

/-- The text from the end of the cells on. -/
def outputsText (listing : Listing) : List Char :=
  (listing.outputs.flatMap fun entry => onNewLine entry.line) ++ onNewLine "\x7d"

/-- The text from the end of the inputs on. -/
def cellsText (listing : Listing) : List Char :=
  (listing.cells.flatMap fun entry => onNewLine entry.line) ++ listing.outputsText

theorem toList_text (listing : Listing) : listing.text.toList = "module ".toList ++ (listing.name.toList ++
    (" \x7b".toList ++ ((listing.inputs.flatMap fun entry => onNewLine entry.line) ++ listing.cellsText))) := by
  have hheader : (s!"module {listing.name} \x7b").toList =
      "module ".toList ++ (listing.name.toList ++ " \x7b".toList) := by
    change ("module " ++ listing.name ++ " \x7b").toList = _
    simp only [String.toList_append, List.append_assoc]
  rw [text, lines, toList_intercalate_cons, hheader, cellsText, outputsText]
  simp only [List.flatMap_append, List.flatMap_map, List.flatMap_singleton, List.append_assoc]
  rfl

variable {listing listing' : Listing}

/-- The closing brace ends the last line and is no line of a port or a cell. -/
theorem stops_brace (mark : Char) : Stops Char.isDigit (onNewLine "\x7d") ∧ ¬Marked mark (onNewLine "\x7d") := by
  simp [Marked, onNewLine]

theorem Plain.outputsText (h : listing.Plain) {mark : Char} (hne : 'o' ≠ mark) :
    Stops Char.isDigit listing.outputsText ∧ ¬Marked mark listing.outputsText :=
  ⟨legible_outputs.closes_flatMap h.outputs (stops_brace mark).1,
    legible_outputs.not_marked hne h.outputs (stops_brace mark).2⟩

theorem Plain.cellsText (h : listing.Plain) {mark : Char} (hne : '%' ≠ mark) (hne' : 'o' ≠ mark) :
    Stops Char.isDigit listing.cellsText ∧ ¬Marked mark listing.cellsText :=
  ⟨legible_cells.closes_flatMap h.cells (h.outputsText hne').1,
    legible_cells.not_marked hne h.cells (h.outputsText hne').2⟩

/-- **Reading back.** Listings whose names are identifiers have different texts if they are different. -/
theorem eq_of_text_eq (h : listing.Plain) (h' : listing'.Plain) (htext : listing.text = listing'.text) :
    listing = listing' := by
  have hchars := congrArg String.toList htext
  rw [toList_text, toList_text, List.append_cancel_left_eq] at hchars
  obtain ⟨hname, hafter⟩ :=
    identifier_unique h.name h'.name (by simp [inIdentifier]) (by simp [inIdentifier]) hchars
  rw [List.append_cancel_left_eq] at hafter
  -- no line of a kind follows the last one of its kind
  obtain ⟨hinputs, hafter⟩ := legible_inputs.unique_flatMap h.inputs h'.inputs
    (h.cellsText (by decide) (by decide)) (h'.cellsText (by decide) (by decide)) hafter
  obtain ⟨hcells, hafter⟩ := legible_cells.unique_flatMap h.cells h'.cells
    (h.outputsText (by decide)) (h'.outputsText (by decide)) hafter
  obtain ⟨houtputs, -⟩ :=
    legible_outputs.unique_flatMap h.outputs h'.outputs (stops_brace 'o') (stops_brace 'o') hafter
  exact Listing.ext hname hinputs hcells houtputs

end Listing

end NetArray
