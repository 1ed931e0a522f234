import NetArray.Toml.Document

/-!
# Settings

How an array becomes a signal: whether the result is put behind a named wire, what the wires of unnamed
arrays are called, and whether neighbouring ranges of bits are merged first. A project says so in a file
of its directory, and what it does not say has a default.

* `Settings` holds the three choices.
* `Settings.parse` reads them from the text of a settings file, `Settings.load` from what is there in
  the place of the file.
-/

namespace NetArray

/-- How arrays are lowered. -/
structure Settings where
  /-- Whether each lowered array is put behind a named wire. -/
  createWire : Bool := true
  /-- The stem of the wire names of arrays without a name. -/
  wireStem : String := "ndarray"
  /-- Whether neighbouring ranges of bits of one signal are merged. -/
  coalesce : Bool := true
  deriving DecidableEq, Repr

/-! ### Errors -/

/-- Why a text cannot be the stem of wire names. -/
inductive StemError where
  | empty
  | badStart (stem : String)
  | badCharacter (stem : String)
  deriving DecidableEq, Repr

def StemError.message : StemError → String
  | .empty => "must not be empty"
  | .badStart stem => s!"'{stem}' must start with a letter or '_'"
  | .badCharacter stem => s!"'{stem}' may only contain letters, digits and '_'"

/-- Why there are no settings. -/
inductive SettingsError where
  | unreadable
  /-- The text is no TOML document, or not one of settings. -/
  | malformed
  | invalidStem (cause : StemError)
  deriving DecidableEq, Repr

def Settings.fileName : String := "bitgrid.toml"

def SettingsError.message : SettingsError → String
  | .unreadable => s!"cannot read {Settings.fileName}: stream did not contain valid UTF-8"
  | .malformed => s!"malformed {Settings.fileName}"
  | .invalidStem cause => s!"invalid lowering.wire_prefix: {cause.message}"

namespace Settings

/-! ### From a document -/

def boolean? : Toml.Value → Option Bool
  | .boolean value => some value
  | _ => none

def text? : Toml.Value → Option String
  | .string text => some text
  | _ => none

def setMember (settings : Settings) : String × Toml.Value → Option Settings
  | ("create_wire", value) => do return { settings with createWire := ← boolean? value }
  | ("wire_prefix", value) => do return { settings with wireStem := ← text? value }
  | ("coalesce", value) => do return { settings with coalesce := ← boolean? value }
  | _ => none

/-- Takes over the settings of a table, or of a list that has them in the order in which they are
declared. A list may stop early, and items beyond the last setting do not matter. -/
def ofValue? : Toml.Value → Option Settings
  | .table members => members.foldlM setMember {}
  | .array items =>
    (["create_wire", "wire_prefix", "coalesce"].zip items).foldlM setMember {}
  | _ => none

/-- The settings of a document, whose only member may be their table. -/
def ofMembers? : List (String × Toml.Value) → Option Settings
  | [] => some {}
  | [("lowering", value)] => ofValue? value
  | _ => none

/-! ### Validation -/

/-- A character that a name can begin with. -/
def isStart (c : Char) : Bool :=
  c.isAlpha || c = '_'

/-- A character that a name can have. -/
def isPart (c : Char) : Bool :=
  c.isAlphanum || c = '_'

/-- What is wrong with a stem, if anything is. -/
def stemError? (stem : String) : Option StemError :=
  match stem.toList with
  | [] => some .empty
  | first :: rest =>
    if !isStart first then some (.badStart stem)
    else if !rest.all isPart then some (.badCharacter stem)
    else none

/-- Reads the text of a settings file. -/
def parse (text : String) : Except SettingsError Settings :=
  match (Toml.Document.parse? text).bind ofMembers? with
  | none => .error .malformed
  | some settings =>
    match stemError? settings.wireStem with
    | some cause => .error (.invalidStem cause)
    | none => .ok settings

end Settings

/-- What is in the place of the settings file. -/
inductive SettingsFile where
  /-- Nothing, or nothing that is a file. -/
  | absent
  | content (bytes : ByteArray)

/-- The settings of a project, from what is in the place of its settings file. -/
def Settings.load : SettingsFile → Except SettingsError Settings
  | .absent => .ok {}
  | .content bytes =>
    match String.fromUTF8? bytes with
    | none => .error .unreadable
    | some text => Settings.parse text

end NetArray
