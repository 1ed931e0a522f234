import NetArray.Fault

/-!
# JSON values

The values that netlists are stored as. The members of an object are in the order in which they are
written, and reading does not depend on it.

* `Json.pretty` writes a value over several lines, two blanks per level.
* `Json.word?`, `Json.list?`, `Json.pair?`, `Json.record?` and `Json.variant?` read the forms that stored
  data is built of: ids and widths, lists, pairs, structures and alternatives.
-/

namespace NetArray

/-- A JSON value. -/
inductive Json where
  | null
  | bool (value : Bool)
  /-- The number `mantissa / 10 ^ scale`. It is written as an integer just when the scale is zero. -/
  | number (mantissa : Int) (scale : Nat)
  | string (value : String)
  | array (items : List Json)
  | object (members : List (String × Json))
  deriving Repr

namespace Json

/-- A count, a width or an id. -/
def ofNat (n : Nat) : Json :=
  .number n 0

/-! ### Writing -/

/-- The four hexadecimal digits of a control character in a string. -/
def controlEscape (c : Char) : String :=
  "\\u" ++ String.ofList ((Nat.toDigits 16 c.toNat).leftpad 4 '0')

/-- How a character is written in a string. -/
def escapeChar (c : Char) : String :=
  match c with
  | '"' => "\\\""
  | '\\' => "\\\\"
  | '\n' => "\\n"
  | '\r' => "\\r"
  | '\t' => "\\t"
  | c =>
    if c.toNat = 8 then "\\b"
    else if c.toNat = 12 then "\\f"
    else if c.toNat < 32 then controlEscape c
    else c.toString

/-- A text in quotation marks. -/
def quote (text : String) : String :=
  "\"" ++ String.join (text.toList.map escapeChar) ++ "\""

/-- The digits of a natural number with a point before the last `scale` of them. -/
def decimalText (n scale : Nat) : String :=
  let digits := (Nat.toDigits 10 n).leftpad (scale + 1) '0'
  let whole := digits.take (digits.length - scale)
  String.ofList (whole ++ '.' :: digits.drop (digits.length - scale))

/-- How a number is written. -/
def numberText (mantissa : Int) (scale : Nat) : String :=
  if scale = 0 then
    toString mantissa
  else
    (if mantissa < 0 then "-" else "") ++ decimalText mantissa.natAbs scale

def newline (level : Nat) : String :=
  "\n" ++ "".pushn ' ' (2 * level)

mutual

/-- Writes a value over several lines, two blanks per level. -/
def prettyAt (level : Nat) : Json → String
  | .null => "null"
  | .bool true => "true"
  | .bool false => "false"
  | .number mantissa scale => numberText mantissa scale
  | .string value => quote value
  | .array [] => "[]"
  | .array (item :: items) =>
    "[" ++ newline (level + 1) ++ prettyAt (level + 1) item ++ prettyItems (level + 1) items ++
      newline level ++ "]"
  | .object [] => "\x7b\x7d"
  | .object (member :: members) =>
    "\x7b" ++ newline (level + 1) ++ prettyMember (level + 1) member ++
      prettyMembers (level + 1) members ++ newline level ++ "\x7d"

/-- Writes the items of a list but the first. -/
def prettyItems (level : Nat) : List Json → String
  | [] => ""
  | item :: items => "," ++ newline level ++ prettyAt level item ++ prettyItems level items

/-- Writes a member of an object. -/
def prettyMember (level : Nat) : String × Json → String
  | (name, value) => quote name ++ ": " ++ prettyAt level value

/-- Writes the members of an object but the first. -/
def prettyMembers (level : Nat) : List (String × Json) → String
  | [] => ""
  | member :: members =>
    "," ++ newline level ++ prettyMember level member ++ prettyMembers level members

end

/-- The text of a value over several lines. -/
def pretty (json : Json) : String :=
  prettyAt 0 json

/-! ### Reading -/

/-- An id or a width: an integer of 32 bits, written without a fraction. -/
def word? : Json → Option Nat
  | .number mantissa 0 => if 0 ≤ mantissa ∧ mantissa < wordBound then some mantissa.toNat else none
  | _ => none

/-- A list, its items read by `read`. -/
def list? {α : Type} (read : Json → Option α) : Json → Option (List α)
  | .array items => items.mapM read
  | _ => none

/-- A list of two items. -/
def pair? {α β : Type} (readFirst : Json → Option α) (readSecond : Json → Option β) :
    Json → Option (α × β)
  | .array [first, second] => do return (← readFirst first, ← readSecond second)
  | _ => none

def text? : Json → Option String
  | .string value => some value
  | _ => none

/-- A value that may be `null`. -/
def nullable? {α : Type} (read : Json → Option α) : Json → Option (Option α)
  | .null => some none
  | json => (read json).map some

/-- The members of an object by name, `none` where there is no such member. Members of other names do
not matter. -/
def members? (names : List String) : Json → Option (List (Option Json))
  | .object members => some (names.map fun name => members.lookup name)
  | _ => none

/-- The fields of a structure by name. It is written as an object, or as the list of all its fields in
the order of `names`. -/
def record? (names : List String) : Json → Option (List (Option Json))
  | .array items => if items.length = names.length then some (items.map some) else none
  | json => json.members? names

/-- An alternative and its content. It is written as an object with one member, or as the name alone if
it has no content. -/
def variant? : Json → Option (String × Json)
  | .string name => some (name, .null)
  | .object [member] => some member
  | _ => none

end Json

end NetArray
