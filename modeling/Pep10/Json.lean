import Pep10.Text.Hex

/-!
# Structured reports

Values made of numbers, texts, lists and records, and their text in JSON on indented lines.
-/

namespace Pep10

/-- A value that can be written in JSON. -/
inductive Json where
  | bool (value : Bool)
  | number (value : Nat)
  | text (value : String)
  | list (items : List Json)
  | record (fields : List (String × Json))

namespace Json

/-- A character of a text.  Control characters are escaped, and so are the quotation mark and
the backslash. -/
def escapeChar (c : Char) : String :=
  if c = '"' then "\\\""
  else if c = '\\' then "\\\\"
  else if c = '\n' then "\\n"
  else if c = '\r' then "\\r"
  else if c = '\t' then "\\t"
  else if c.toNat = 8 then "\\b"
  else if c.toNat = 12 then "\\f"
  else if c.toNat < 32 then
    "\\u" ++ String.ofList ((Text.hexDigits 4 c.toNat).map Char.toLower)
  else c.toString

/-- A text between quotation marks. -/
def quote (text : String) : String :=
  "\"" ++ String.join (text.toList.map escapeChar) ++ "\""

/-- The start of a line at a depth of indentation. -/
def indent (depth : Nat) : String :=
  String.ofList ('\n' :: List.replicate (2 * depth) ' ')

mutual

/-- A value whose first line is indented already. -/
def pretty (depth : Nat) : Json → String
  | .bool true => "true"
  | .bool false => "false"
  | .number value => toString value
  | .text value => quote value
  | .list [] => "[]"
  | .list (item :: items) =>
    "[" ++ indent (depth + 1) ++ pretty (depth + 1) item ++ prettyItems (depth + 1) items ++
      indent depth ++ "]"
  | .record [] => "\x7b\x7d"
  | .record ((key, value) :: fields) =>
    "\x7b" ++ indent (depth + 1) ++ quote key ++ ": " ++ pretty (depth + 1) value ++
      prettyFields (depth + 1) fields ++ indent depth ++ "\x7d"

/-- The items of a list after the first. -/
def prettyItems (depth : Nat) : List Json → String
  | [] => ""
  | item :: items => "," ++ indent depth ++ pretty depth item ++ prettyItems depth items

/-- The fields of a record after the first. -/
def prettyFields (depth : Nat) : List (String × Json) → String
  | [] => ""
  | (key, value) :: fields =>
    "," ++ indent depth ++ quote key ++ ": " ++ pretty depth value ++ prettyFields depth fields

end

end Json

end Pep10
