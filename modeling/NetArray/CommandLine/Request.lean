import NetArray.CommandLine.Words

/-!
# Requests

What a command line asks for: to list the designs, or to show one of them in a format. Some options may
stand before the name of the command or behind it.

* `Request` is what is asked for, `Request.parse` reads it off the words of a command line.
* `Refusal` is what is there instead: a wrong command line, or a question for help or the version.
-/

namespace NetArray.CommandLine

/-- How a netlist is printed. -/
inductive Format where
  | text
  | json
  deriving DecidableEq, Repr

/-- The format of a name. -/
def Format.ofName? : String → Option Format
  | "text" => some .text
  | "json" => some .json
  | _ => none

/-- What is to be done. -/
inductive Action where
  | list
  | show (design : String) (format : Format) (noWire : Bool)
  deriving DecidableEq, Repr

/-- What a command line asks for. -/
structure Request where
  /-- Whether nothing but errors is to be printed. -/
  quiet : Bool
  /-- The directory of the settings file, if it is not the working directory. -/
  directory : Option String
  action : Action
  deriving DecidableEq, Repr

/-- What help can be asked about. -/
inductive Topic where
  | program
  | list
  | show
  | help
  deriving DecidableEq, Repr

/-- What there is instead of a request. -/
inductive Refusal where
  | usage
  | help (topic : Topic) (long : Bool)
  | version
  deriving DecidableEq, Repr

/-! ### Grammars -/

/-- The options that may stand before a command or behind it. -/
def commonOptions : List OptionRule :=
  [⟨"quiet", some 'q', .flag⟩, ⟨"verbose", some 'v', .count⟩,
    ⟨"config", none, .value fun directory => directory ≠ ""⟩, ⟨"help", some 'h', .help⟩]

/-- What may stand before the name of a command. -/
def programGrammar : Grammar :=
  ⟨⟨"version", some 'V', .version⟩ :: commonOptions, ["list", "show", "help"], 0⟩

/-- What may stand behind the command that lists the designs. -/
def listGrammar : Grammar :=
  ⟨commonOptions, [], 0⟩

/-- What may stand behind the command that shows a design. -/
def showGrammar : Grammar :=
  ⟨⟨"format", some 'f', .value fun name => (Format.ofName? name).isSome⟩ ::
    ⟨"no-wire", none, .flag⟩ :: commonOptions, [], 1⟩

/-! ### Reading -/

/-- A question about a topic. -/
def Stop.about (topic : Topic) : Stop → Refusal
  | .usage => .usage
  | .help long => .help topic long
  | .version => .version

/-- Reads all words behind a command. -/
def readCommand (grammar : Grammar) (topic : Topic) (words : List String) :
    Except Refusal Matches :=
  (do (← Matches.read grammar {} words).1.settle).mapError (Stop.about topic)

/-- What help is asked for behind the command that gives it. -/
def helpTopic? : List String → Option Topic
  | [] => some .program
  | ["list"] => some .list
  | ["show"] => some .show
  | ["help"] => some .help
  | _ => none

/-- The action of a command with what stands behind it. -/
def readAction (command : String) (words : List String) : Except Refusal (Action × Matches) :=
  match command with
  | "list" => do
    let found ← readCommand listGrammar .list words
    return (.list, found)
  | "show" => do
    let found ← readCommand showGrammar .show words
    match found.arguments with
    | [design] =>
      let format := ((found.value? "format").bind Format.ofName?).getD .text
      return (.show design format (found.has "no-wire"), found)
    | _ => throw .usage
  | _ =>
    match helpTopic? words with
    | some topic => throw (.help topic true)
    | none => throw .usage

/-- What a command line asks for. The directory behind the command goes before the one in front of
it. -/
def Request.parse (words : List String) : Except Refusal Request := do
  let (found, command) ← (Matches.read programGrammar {} words).mapError (Stop.about .program)
  match command with
  | none => throw .usage
  | some (command, words) =>
    let (action, behind) ← readAction command words
    let before ← found.settle.mapError (Stop.about .program)
    return {
      quiet := before.has "quiet" || behind.has "quiet"
      directory := behind.value? "config" <|> before.value? "config"
      action := action }

end NetArray.CommandLine
