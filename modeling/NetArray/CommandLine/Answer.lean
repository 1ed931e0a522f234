import NetArray.CommandLine.Help
import NetArray.Designs
import NetArray.Netlist.Codec
import NetArray.Netlist.Dump

/-!
# Answering command lines

What the program prints for a command line, and the code with which it ends: 0 if all is well, 1 for an
error, 2 for a command line that makes no sense.

* `Report` is what is printed, with the code.
* `Request.answer` answers a request, `answer` a command line.
-/

namespace NetArray.CommandLine

/-- What a run of the program amounts to. -/
structure Report where
  code : Nat
  stdout : String := ""
  stderr : String := ""
  deriving DecidableEq, Repr

/-- Why a request cannot be met. -/
inductive RequestError where
  | settings (cause : SettingsError)
  | unknownDesign (name : String)
  | design (cause : ArrayError)
  deriving DecidableEq, Repr

def RequestError.message : RequestError → Checked String
  | .settings cause => .ok cause.message
  | .unknownDesign name =>
    let known := ", ".intercalate (Design.all.map (·.name))
    .ok s!"unknown design '{name}' (known: {known})"
  | .design cause => cause.message

/-- A name, filled up with blanks to a width. -/
def padded (width : Nat) (name : String) : String :=
  name.pushn ' ' (width - name.length)

def designLines : List String :=
  let width := (Design.all.map (·.name.length)).foldl max 0
  Design.all.map fun design => s!"{padded width design.name}  {design.description}"

def Format.print (format : Format) (netlist : Netlist) (names : Names) : Checked String :=
  match format with
  | .text => netlist.text names
  | .json => .ok netlist.toJson.pretty

def showDesign (name : String) (format : Format) (settings : Settings) :
    Attempt RequestError String :=
  match Design.find? name with
  | none => .error (.refused (.unknownDesign name))
  | some design => do
    let (netlist, names) ← (design.build {} settings).mapError (Failure.map .design)
    format.print netlist names

/-- The lines that are asked for. -/
def Action.lines (action : Action) (file : SettingsFile) : Attempt RequestError (List String) :=
  match action with
  | .list => .ok designLines
  | .show design format noWire => do
    let settings ← (Settings.load file).mapError fun cause => .refused (.settings cause)
    let createWire := settings.createWire && !noWire
    return [← showDesign design format { settings with createWire := createWire }]

def Report.ofError (error : RequestError) : Report :=
  match error.message with
  | .ok message => { code := 1, stderr := s!"error: {message}\n" }
  | .error _ => { code := 101 }

/-- Answers a request, given what is in the place of the settings file. -/
def Request.answer (request : Request) (file : SettingsFile) : Report :=
  match request.action.lines file with
  | .ok lines =>
    { code := 0, stdout := if request.quiet then "" else String.join (lines.map (· ++ "\n")) }
  | .error (.refused cause) => .ofError cause
  | .error (.fault _) => { code := 101 }

/-- Answers a command line that is no request. -/
def Refusal.answer : Refusal → Report
  | .usage => { code := 2, stderr := Topic.program.text false }
  | .help topic long => { code := 0, stdout := topic.text long }
  | .version => { code := 0, stdout := "bitgrid 0.1.0\n" }

/-- Answers a command line. What is in the place of the settings file depends on the directory that it
names. -/
def answer (words : List String) (file : Option String → SettingsFile) : Report :=
  match Request.parse words with
  | .ok request => request.answer (file request.directory)
  | .error refusal => refusal.answer

end NetArray.CommandLine
