/-
JSON values and their text.

Members keep their order. The text is indented by two blanks; an empty array or object stays on one
line. In strings only quotes, backslashes and control characters are escaped.
-/
import HeaderModel.Text.Number

namespace HeaderModel

/-- a JSON value; all numbers here are counts -/
inductive Json where
  | null
  | bool (value : Bool)
  | count (value : Nat)
  | text (value : String)
  | array (items : List Json)
  | object (members : List (String × Json))
  deriving Repr

namespace Json

/-- a value that may be missing -/
def ofOption {α : Type} (encode : α → Json) : Option α → Json
  | some a => encode a
  | none => .null

/-- one character of a string as it is written -/
def escapeChar (c : Char) : List Char :=
  if c = '"' then ['\\', '"']
  else if c = '\\' then ['\\', '\\']
  else if c = '\x08' then ['\\', 'b']
  else if c = '\x0c' then ['\\', 'f']
  else if c = '\n' then ['\\', 'n']
  else if c = '\r' then ['\\', 'r']
  else if c = '\t' then ['\\', 't']
  else if c.toNat < 0x20 then '\\' :: 'u' :: Text.hexDigits 4 c.toNat
  else [c]

/-- a string as it is written -/
def quoted (s : String) : String := "\"" ++ String.ofList (s.toList.flatMap escapeChar) ++ "\""

/-- the start of a line at a depth -/
def lineStart (depth : Nat) : String := String.ofList ('\n' :: List.replicate (2 * depth) ' ')

mutual

/-- a value as indented text -/
def pretty (depth : Nat) : Json → String
  | .null => "null"
  | .bool true => "true"
  | .bool false => "false"
  | .count n => toString n
  | .text s => quoted s
  | .array [] => "[]"
  | .array (item :: items) =>
    "[" ++ lineStart (depth + 1) ++ pretty (depth + 1) item ++ prettyItems (depth + 1) items ++ lineStart depth
      ++ "]"
  | .object [] => "\x7b\x7d"
  | .object ((key, value) :: members) =>
    "\x7b" ++ lineStart (depth + 1) ++ quoted key ++ ": " ++ pretty (depth + 1) value
      ++ prettyMembers (depth + 1) members ++ lineStart depth ++ "\x7d"

/-- the items after the first -/
def prettyItems (depth : Nat) : List Json → String
  | [] => ""
  | item :: items => "," ++ lineStart depth ++ pretty depth item ++ prettyItems depth items

/-- the members after the first -/
def prettyMembers (depth : Nat) : List (String × Json) → String
  | [] => ""
  | (key, value) :: members =>
    "," ++ lineStart depth ++ quoted key ++ ": " ++ pretty depth value ++ prettyMembers depth members

end

end Json

end HeaderModel
