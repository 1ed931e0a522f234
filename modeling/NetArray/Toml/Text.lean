import NetArray.Toml.Reader

/-!
# Strings and keys

A string is basic, with escapes, or literal, without; either may stand on one line or, in tripled
quotation marks, on several. Keys are bare words or strings on one line, joined by points.

* `string` reads any string, `key` a dotted key of fewer than `depthLimit` parts.
-/

namespace NetArray.Toml

open Reader

def hexDigit? (c : Char) : Option Nat :=
  if c.isDigit then some (c.toNat - '0'.toNat)
  else if 'a' ≤ c ∧ c ≤ 'f' then some (c.toNat - 'a'.toNat + 10)
  else if 'A' ≤ c ∧ c ≤ 'F' then some (c.toNat - 'A'.toNat + 10)
  else none

/-- The number that hexadecimal digits write. -/
def hexNumber? (digits : List Char) : Option Nat :=
  digits.foldlM (fun n digit => return n * 16 + (← hexDigit? digit)) 0

/-- The character of a code point; surrogates and what lies beyond the last plane are none. -/
def scalar? (code : Nat) : Option Char :=
  if h : code.isValidChar then some (Char.ofNatAux code h) else none

/-- The character of a code point that is written with `count` hexadecimal digits. -/
def unicodeEscape (count : Nat) : Reader Char := do
  let digits ← modifyGet fun (text : List Char) => text.splitAt count
  if digits.length ≠ count then
    failure
  ((hexNumber? digits).bind scalar?).getM

/-- Takes what follows a backslash and gives the character that it stands for. -/
def escape : Reader Char := do
  match ← satisfy fun _ => true with
  | 'b' => return Char.ofNat 8
  | 't' => return '\t'
  | 'n' => return '\n'
  | 'f' => return Char.ofNat 12
  | 'r' => return '\r'
  | '"' => return '"'
  | '\\' => return '\\'
  | 'u' => unicodeEscape 4
  | 'U' => unicodeEscape 8
  | _ => failure

/-! ### Strings on one line -/

/-- Adds a piece of a basic string to the pieces before it, unless the string ends. -/
def basicStep (before : List Char) : Reader (Option (List Char)) := do
  match ← peek with
  | some '"' => return none
  | some '\\' =>
    literal "\\"
    return some ((← escape) :: before)
  | _ => return some ((← satisfy isText) :: before)

def basicString : Reader String := do
  literal "\""
  let characters ← Reader.loop basicStep []
  literal "\""
  return String.ofList characters.reverse

def literalString : Reader String := do
  literal "'"
  let characters ← takeWhile fun c => isText c && c ≠ '\''
  literal "'"
  return String.ofList characters

/-! ### Strings on several lines -/

/-- Takes up to two quotation marks in front of the three that end a string: five in a row are two of
the string and its end. -/
def closingQuotes (quote : Char) : Reader (List Char) := do
  let delimiter := String.ofList [quote, quote, quote]
  literal delimiter
  let extra ← modifyGet fun (text : List Char) =>
    let marks := (text.take 2).takeWhile (· = quote)
    (marks, text.drop marks.length)
  return extra

/-- Whether three quotation marks come next. -/
def atDelimiter (quote : Char) : Reader Bool := do
  return [quote, quote, quote].isPrefixOf (← get)

/-- Whether a line ends here, after blanks. -/
def atLineBreak : Reader Bool := do
  let rest := (← get).dropWhile isBlank
  return ['\n'].isPrefixOf rest || ['\r', '\n'].isPrefixOf rest

/-- Skips a blank or the end of a line, if there is one. -/
def foldStep (_ : Unit) : Reader (Option Unit) := do
  match ← peek with
  | some ' ' | some '\t' =>
    blanks
    return some ()
  | some '\n' | some '\r' =>
    newline
    return some ()
  | _ => return none

def lineFeed : Reader Char := do
  newline
  return '\n'

/-- Adds a piece of a basic string on several lines, unless the string ends. A backslash at the end of a
line drops all blanks and ends of lines up to the next other character. -/
def multilineBasicStep (before : List Char) : Reader (Option (List Char)) := do
  if ← atDelimiter '"' then
    return none
  match ← peek with
  | some '\\' =>
    literal "\\"
    if ← atLineBreak then
      Reader.loop foldStep ()
      return some before
    else
      return some ((← escape) :: before)
  | some '\n' | some '\r' => return some ((← lineFeed) :: before)
  | _ => return some ((← satisfy isText) :: before)

/-- Adds a piece of a literal string on several lines, unless the string ends. -/
def multilineLiteralStep (before : List Char) : Reader (Option (List Char)) := do
  if ← atDelimiter '\'' then
    return none
  match ← peek with
  | some '\n' | some '\r' => return some ((← lineFeed) :: before)
  | _ => return some ((← satisfy isText) :: before)

/-- Takes a string on several lines. The end of a line right behind its opening is not part of it. -/
def multilineString (quote : Char) (step : List Char → Reader (Option (List Char))) :
    Reader String := do
  literal (String.ofList [quote, quote, quote])
  if (← peek) = some '\n' ∨ (← peek) = some '\r' then
    newline
  let characters ← Reader.loop step []
  let extra ← closingQuotes quote
  return String.ofList (characters.reverse ++ extra)

def string : Reader String := do
  if ← atDelimiter '"' then
    multilineString '"' multilineBasicStep
  else if ← atDelimiter '\'' then
    multilineString '\'' multilineLiteralStep
  else if (← peek) = some '"' then
    basicString
  else
    literalString

/-! ### Keys -/

def simpleKey : Reader String := do
  match ← peek with
  | some '"' => basicString
  | some '\'' => literalString
  | _ =>
    let characters ← takeWhile isBareKey
    if characters.isEmpty then
      failure
    return String.ofList characters

/-- Takes a point and a further part of a key, if there is a point. -/
def keyStep (before : List String) : Reader (Option (List String)) := do
  blanks
  if ← option "." then
    blanks
    return some ((← simpleKey) :: before)
  else
    return none

/-- Values nest less deep than this, and a key has fewer parts. -/
def depthLimit : Nat := 80

/-- Takes a key: its parts, the outermost first. Blanks around it and around its points do not
matter. -/
def key : Reader (List String) := do
  blanks
  let first ← simpleKey
  let parts ← Reader.loop keyStep [first]
  if depthLimit ≤ parts.length then
    failure
  return parts.reverse

end NetArray.Toml
