import NetArray.Toml.Value

/-!
# TOML documents

A document is a sequence of lines: members `key = value` of the table at hand, and headers `[key]` and
`[[key]]` that turn to another table.

* `Document.parse?` reads a document and gives the members of its root.
-/

namespace NetArray.Toml

open Reader

/-! ### Turning to a table -/

/-- Opens the table of a header, which must not have been opened or defined before. -/
def openTable : List String → Members → Option Members
  | [], _ => none
  | [name], members => alter name (fun
    | none => some (.table .header [])
    | some (.table .implicit inner) => some (.table .header inner)
    | some _ => none) members
  | name :: path, members => alter name (fun
    | none => (openTable path []).map (.table .implicit)
    | some (.table origin inner) => (openTable path inner).map (.table origin)
    | some (.tables (inner :: items)) =>
      (openTable path inner).map fun inner => .tables (inner :: items)
    | some _ => none) members

/-- Opens a further table in the list of tables of a header. -/
def openItem : List String → Members → Option Members
  | [], _ => none
  | [name], members => alter name (fun
    | none => some (.tables [[]])
    | some (.tables items) => some (.tables ([] :: items))
    | some _ => none) members
  | name :: path, members => alter name (fun
    | none => (openItem path []).map (.table .implicit)
    | some (.table origin inner) => (openItem path inner).map (.table origin)
    | some (.tables (inner :: items)) =>
      (openItem path inner).map fun inner => .tables (inner :: items)
    | some _ => none) members

/-- Changes the table at the end of a path of opened tables; of a list of tables the latest is meant. -/
def within (change : Members → Option Members) : List String → Members → Option Members
  | [], members => change members
  | name :: path, members => alter name (fun
    | some (.table origin inner) => (within change path inner).map (.table origin)
    | some (.tables (inner :: items)) =>
      (within change path inner).map fun inner => .tables (inner :: items)
    | _ => none) members

/-! ### Reading lines -/

/-- What was read of a document so far. -/
structure Progress where
  root : Members := []
  path : List String := []

def header (progress : Progress) : Reader Progress := do
  literal "["
  if ← option "[" then
    let path ← key
    literal "]]"
    lineEnd
    return ⟨← (openItem path progress.root).getM, path⟩
  else
    let path ← key
    literal "]"
    lineEnd
    return ⟨← (openTable path progress.root).getM, path⟩

def member (progress : Progress) : Reader Progress := do
  let (path, value) ← keyValue (value depthLimit)
  lineEnd
  let root ← (within (insert value path) progress.path progress.root).getM
  return { progress with root := root }

def line (progress : Progress) : Reader (Option Progress) := do
  blanks
  match ← peek with
  | none => return none
  | some '\n' | some '\r' | some '#' =>
    lineEnd
    return some progress
  | some '[' => return some (← header progress)
  | some _ => return some (← member progress)

/-- Takes a document. A byte order mark in front is skipped. -/
def document : Reader Members := do
  let _ ← option "\uFEFF"
  return (← Reader.loop line {}).root

/-- The members of the root of a document, if the text is one. -/
def Document.parse? (text : String) : Option (List (String × Value)) := do
  let (members, _) ← document.run text.toList
  return finishMembers members

end NetArray.Toml
