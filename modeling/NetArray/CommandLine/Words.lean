/-!
# Reading command lines

The words of a command line are options, the name of a command, and arguments. An option begins with a
dash and a letter or with two dashes and a name; single letters can share a dash. The value of an option
is attached to it or is the next word. After a word of two dashes all others are arguments.

* `Grammar` says which options, commands and arguments there are.
* `Matches.read` reads words by a grammar up to the name of a command.
-/

namespace NetArray.CommandLine

/-- What an option does. -/
inductive OptionKind where
  /-- It is there or not, at most once. -/
  | flag
  | count
  /-- It has a value, which must be accepted, and is there at most once. -/
  | value (accepts : String → Bool)
  | help
  | version

/-- An option of a command and its effect. -/
structure OptionRule where
  long : String
  short : Option Char
  kind : OptionKind

/-- What may stand in a command line. -/
structure Grammar where
  options : List OptionRule
  commands : List String
  arguments : Nat

/-- Why a command line is not carried out. -/
inductive Stop where
  | usage
  /-- It asks for help, `long` if by the long name of the option. -/
  | help (long : Bool)
  | version
  deriving DecidableEq, Repr

/-- An option that waits for its value. -/
structure Pending where
  name : String
  accepts : String → Bool
  value : Option String

/-- What was read of a command line. -/
structure Matches where
  options : List (String × Option String) := []
  /-- The arguments, the latest first. -/
  arguments : List String := []
  /-- An option that takes effect when the next one begins. -/
  pending : Option Pending := none

namespace Matches

def has (found : Matches) (name : String) : Bool :=
  found.options.any (·.1 = name)

def value? (found : Matches) (name : String) : Option String :=
  (found.options.lookup name).join

/-- Notes an option that may be there only once. -/
def enterOnce (found : Matches) (name : String) (value : Option String) : Except Stop Matches :=
  if found.has name then
    .error .usage
  else
    .ok { found with options := (name, value) :: found.options }

/-- Lets a pending option take effect. -/
def settle (found : Matches) : Except Stop Matches :=
  match found.pending with
  | none => .ok found
  | some ⟨name, accepts, some value⟩ =>
    if accepts value then
      { found with pending := none }.enterOnce name (some value)
    else
      .error .usage
  | some ⟨_, _, none⟩ => .error .usage

/-- Notes an option without a value. -/
def enter (found : Matches) (option : OptionRule) (long : Bool) : Except Stop Matches := do
  let found ← found.settle
  match option.kind with
  | .flag => found.enterOnce option.long none
  | .count => return found
  | .value accepts => return { found with pending := some ⟨option.long, accepts, none⟩ }
  | .help => throw (.help long)
  | .version => throw .version

/-- Notes an option with a value attached to it. -/
def enterValue (found : Matches) (option : OptionRule) (value : String) : Except Stop Matches :=
  match option.kind with
  | .value accepts => do
    let found ← found.settle
    { found with pending := some ⟨option.long, accepts, some value⟩ }.settle
  | _ => .error .usage

def enterArgument (found : Matches) (grammar : Grammar) (word : String) : Except Stop Matches := do
  if found.arguments.length < grammar.arguments then
    let found ← found.settle
    return { found with arguments := word :: found.arguments }
  else
    throw .usage

/-- Reads the letters that share a dash. What follows the letter of an option with a value is the
value, an equals sign in front of it aside. -/
def readLetters (grammar : Grammar) (found : Matches) : List Char → Except Stop Matches
  | [] => .ok found
  | letter :: letters =>
    match grammar.options.find? (·.short = some letter) with
    | none => .error .usage
    | some option =>
      match option.kind, letters with
      | .value _, '=' :: value => found.enterValue option (String.ofList value)
      | .value _, first :: value => found.enterValue option (String.ofList (first :: value))
      | _, _ => do readLetters grammar (← found.enter option false) letters

/-- Reads a long option, with the value after an equals sign. -/
def readLong (grammar : Grammar) (found : Matches) (word : List Char) : Except Stop Matches :=
  let (name, attached) := word.span (· ≠ '=')
  match grammar.options.find? (·.long = String.ofList name), attached with
  | none, _ => .error .usage
  | some option, [] => found.enter option true
  | some option, _ :: value => found.enterValue option (String.ofList value)

def isWaiting (found : Matches) : Bool :=
  match found.pending with
  | some ⟨_, _, none⟩ => true
  | _ => false

/-- Gives a waiting option its value. -/
def supply (found : Matches) (word : String) : Matches :=
  { found with pending := found.pending.map fun pending => { pending with value := some word } }

/-- Reads words that are all arguments. -/
def readArguments (grammar : Grammar) (found : Matches) : List String → Except Stop Matches
  | [] => .ok found
  | word :: words => do readArguments grammar (← found.enterArgument grammar word) words

/-- Reads words up to the name of a command. The answer is what was read, and the command with the
words behind it. -/
def read (grammar : Grammar) (found : Matches) :
    List String → Except Stop (Matches × Option (String × List String))
  | [] => .ok (found, none)
  | word :: words =>
    if !found.isWaiting && grammar.commands.contains word then
      .ok (found, some (word, words))
    else
      match word.toList with
      | ['-', '-'] => do return (← readArguments grammar found words, none)
      | '-' :: '-' :: name => do read grammar (← readLong grammar found name) words
      | '-' :: letter :: letters => do
        read grammar (← readLetters grammar found (letter :: letters)) words
      | _ =>
        if found.isWaiting then
          read grammar (found.supply word) words
        else do
          read grammar (← found.enterArgument grammar word) words

end Matches

end NetArray.CommandLine
