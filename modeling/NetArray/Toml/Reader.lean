/-!
# Reading characters

The readers of TOML text, from single characters up to comments. A reader takes characters off the front
of a text and fails where the text is not of its form.

* `Reader.satisfy`, `Reader.takeWhile` and `Reader.literal` take characters.
* `Reader.loop` runs a reader as long as it goes on.
* `blanks`, `lineEnd` and `trivia` skip what separates the parts of a document.
-/

namespace NetArray.Toml

/-- Takes characters off the front of a text, or fails. -/
abbrev Reader := StateT (List Char) Option

namespace Reader

/-- The next character, which stays where it is; nothing at the end of the text. -/
def peek : Reader (Option Char) := do
  return (← get).head?

/-- Takes a character of a class. -/
def satisfy (accepts : Char → Bool) : Reader Char := do
  match ← get with
  | [] => failure
  | c :: rest =>
    if accepts c then
      set rest
      return c
    else
      failure

/-- Takes all characters up to the first that is not of a class. -/
def takeWhile (accepts : Char → Bool) : Reader (List Char) :=
  modifyGet fun text => text.span accepts

/-- Takes a text if it comes next, and says whether it did. -/
def option (expected : String) : Reader Bool :=
  modifyGet fun text =>
    if expected.toList.isPrefixOf text then
      (true, text.drop expected.length)
    else
      (false, text)

/-- Takes a text that must come next. -/
def literal (expected : String) : Reader Unit := do
  if !(← option expected) then
    failure

/-- Runs a step until it gives nothing, at most `tries` times. -/
def repeatAtMost {σ : Type} (step : σ → Reader (Option σ)) : (tries : Nat) → σ → Reader σ
  | 0, _ => failure
  | tries + 1, state => do
    match ← step state with
    | some next => repeatAtMost step tries next
    | none => return state

/-- Runs a step until it gives nothing. Each step but the last takes a character, so there are no more
of them than characters. -/
def loop {σ : Type} (step : σ → Reader (Option σ)) (start : σ) : Reader σ := do
  repeatAtMost step ((← get).length + 1) start

end Reader

open Reader

/-! ### Classes of characters -/

def isBlank (c : Char) : Bool :=
  c = ' ' || c = '\t'

/-- A character that may stand in comments and strings: no control character but the tabulator. -/
def isText (c : Char) : Bool :=
  c = '\t' || (32 ≤ c.toNat && c.toNat ≠ 127)

def isBareKey (c : Char) : Bool :=
  c.isAlphanum || c = '_' || c = '-'

/-! ### What separates the parts of a document -/

def blanks : Reader Unit := do
  let _ ← takeWhile isBlank

def newline : Reader Unit := do
  if !(← option "\n") then
    literal "\r\n"

def comment : Reader Unit := do
  if ← option "#" then
    let _ ← takeWhile isText

/-- Takes what may follow on a line: blanks, a comment and the end of the line or of the text. -/
def lineEnd : Reader Unit := do
  blanks
  comment
  if (← peek).isSome then
    newline

/-- Skips one piece of what may stand between the items of a list, if there is one. -/
def triviaStep (_ : Unit) : Reader (Option Unit) := do
  match ← peek with
  | some ' ' | some '\t' =>
    blanks
    return some ()
  | some '#' =>
    comment
    newline
    return some ()
  | some '\n' | some '\r' =>
    newline
    return some ()
  | _ => return none

/-- Skips blanks, comments and ends of lines. -/
def trivia : Reader Unit :=
  Reader.loop triviaStep ()

end NetArray.Toml
