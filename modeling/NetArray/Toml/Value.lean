import NetArray.Toml.Scalar
import NetArray.Toml.Text

/-!
# TOML values

The values of a document, and tables under construction. A table grows by dotted keys and by headers,
and neither may touch what the other closed, so each table remembers how it came about.

* `Value` is a value, `value` reads one.
* `Node` is a value or a table under construction, `insert` enters a value at a dotted key.
-/

namespace NetArray.Toml

open Reader

/-- A value of a document. Numbers, dates and times are kept as they are written. -/
inductive Value where
  | string (text : String)
  | boolean (value : Bool)
  | integer (value : Int)
  /-- A float. -/
  | float (word : String)
  /-- A date, a time, or both. -/
  | dateTime (word : String)
  | array (items : List Value)
  | table (members : List (String × Value))
  deriving Repr

/-- How a table came about. -/
inductive Origin where
  | header
  /-- By the header of a table inside it. -/
  | implicit
  | dotted
  deriving DecidableEq, Repr

/-- A member of a table under construction. -/
inductive Node where
  | value (value : Value)
  | table (origin : Origin) (members : List (String × Node))
  /-- A list of tables, the latest first. -/
  | tables (items : List (List (String × Node)))
  deriving Repr

/-- The members of a table under construction. -/
abbrev Members := List (String × Node)

/-! ### Finished tables -/

mutual

/-- What a member is when the document ends. -/
def Node.finish : Node → Value
  | .value value => value
  | .table _ members => .table (finishMembers members)
  | .tables items => .array (finishTables items).reverse

/-- What the members of a table are when the document ends. -/
def finishMembers : List (String × Node) → List (String × Value)
  | [] => []
  | (name, node) :: members => (name, node.finish) :: finishMembers members

/-- What the tables of a list are when the document ends. -/
def finishTables : List (List (String × Node)) → List Value
  | [] => []
  | members :: items => .table (finishMembers members) :: finishTables items

end

/-! ### Growing tables -/

/-- Changes the member of a name. The change sees the member if there is one, and may fail. -/
def alter (name : String) (change : Option Node → Option Node) : Members → Option Members
  | [] => do return [(name, ← change none)]
  | (other, node) :: members =>
    if other = name then do
      return (name, ← change (some node)) :: members
    else do
      return (other, node) :: (← alter name change members)

/-- Enters a value at a dotted key. It must be new, and only tables that dotted keys made may lie on
the way. -/
def insert (value : Value) : List String → Members → Option Members
  | [], _ => none
  | [name], members => alter name (fun
    | none => some (.value value)
    | some _ => none) members
  | name :: path, members => alter name (fun
    | none => (insert value path []).map (.table .dotted)
    | some (.table .dotted inner) => (insert value path inner).map (.table .dotted)
    | some _ => none) members

/-! ### Reading values -/

/-- A character of an unquoted value. -/
def isWord (c : Char) : Bool :=
  c.isAlphanum || c = '+' || c = '-' || c = '.' || c = ':' || c = '_'

/-- The value that a word writes. -/
def wordValue? (word : List Char) : Option Value :=
  if word = ['t', 'r', 'u', 'e'] then some (.boolean true)
  else if word = ['f', 'a', 'l', 's', 'e'] then some (.boolean false)
  else if isDateTime word then some (.dateTime (String.ofList word))
  else if isFloat word then some (.float (String.ofList word))
  else (integer? word).map .integer

/-- Takes a blank and a time of day, if they come next. -/
def timeAfterBlank : Reader (List Char) :=
  modifyGet fun text =>
    match text with
    | ' ' :: rest =>
      let (word, behind) := rest.span isWord
      if isZonedTime word then (' ' :: word, behind) else ([], text)
    | _ => ([], text)

/-- Takes an unquoted value. A date may have a time behind a blank. -/
def unquoted : Reader Value := do
  let word ← takeWhile isWord
  let time ← if isDate word then timeAfterBlank else pure []
  (wordValue? (word ++ time)).getM

/-- Adds an item to the items before it, unless the list ends. -/
def itemStep (item : Reader Value) (before : List Value × Bool) :
    Reader (Option (List Value × Bool)) := do
  trivia
  if !before.2 ∨ (← peek) = some ']' then
    return none
  let value ← item
  trivia
  let more ← option ","
  return some (value :: before.1, more)

/-- Takes the rest of a list of items with commas between them; a comma may follow the last. -/
def arrayItems (item : Reader Value) : Reader Value := do
  let (items, _) ← Reader.loop (itemStep item) ([], true)
  literal "]"
  return .array items.reverse

/-- Takes a key, an equals sign and a value. -/
def keyValue (item : Reader Value) : Reader (List String × Value) := do
  let path ← key
  literal "="
  blanks
  return (path, ← item)

/-- Adds a member to the members before it, unless the table ends. -/
def memberStep (item : Reader Value) (before : Members × Bool) :
    Reader (Option (Members × Bool)) := do
  if !before.2 then
    return none
  let (path, value) ← keyValue item
  let members ← (insert value path before.1).getM
  blanks
  return some (members, ← option ",")

/-- Takes the rest of a table on one line, with commas between its members and none after the last. -/
def inlineMembers (item : Reader Value) : Reader Value := do
  blanks
  if ← option "\x7d" then
    return .table []
  let (members, _) ← Reader.loop (memberStep item) ([], true)
  literal "\x7d"
  return .table (finishMembers members)

/-- Takes a value whose lists and tables are nested less than `depth` deep. -/
def value : (depth : Nat) → Reader Value
  | 0 => failure
  | depth + 1 => do
    match ← peek with
    | some '"' | some '\'' => return .string (← string)
    | some '[' =>
      literal "["
      if depth = 0 then failure
      arrayItems (value depth)
    | some '{' =>
      literal "\x7b"
      if depth = 0 then failure
      inlineMembers (value depth)
    | _ => unquoted

end NetArray.Toml
