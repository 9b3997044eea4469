import FilterQuery.Json.Basic

/-!
# JSON text

A JSON value is written **compactly**, without any space, or **indented** by two spaces a level. In
strings only the quote, the backslash and the control characters below U+0020 are escaped.

So a compact text has no line break and fits a line, whatever strings the value holds. An array
without items and an object without members are written as their brackets in both ways. The short
escapes are used where there is one, and `\u00xx` for the other control characters.
-/

namespace FilterQuery

namespace Json

/-- One character of a string as JSON has it. -/
def escapeChar (c : Char) : List Char :=
  if c = '"' then ['\\', '"']
  else if c = '\\' then ['\\', '\\']
  else if c = '\x08' then ['\\', 'b']
  else if c = '\x0c' then ['\\', 'f']
  else if c = '\n' then ['\\', 'n']
  else if c = '\r' then ['\\', 'r']
  else if c = '\t' then ['\\', 't']
  else if c.toNat < 0x20 then
    ['\\', 'u', '0', '0', Nat.digitChar (c.toNat / 16), Nat.digitChar (c.toNat % 16)]
  else [c]

/-- A string in quotes. -/
def quote (s : String) : String :=
  String.ofList ('"' :: (s.toList.flatMap escapeChar ++ ['"']))

/-- The text of a truth value. -/
def booleanText (b : Bool) : String := if b then "true" else "false"

mutual

/-- The value without any space. -/
def compact : Json → String
  | null => "null"
  | boolean b => booleanText b
  | number n => n.text
  | string s => quote s
  | array [] => "[]"
  | array (item :: items) => "[" ++ compact item ++ compactItems items ++ "]"
  | object [] => "\x7b\x7d"
  | object ((key, value) :: members) =>
    "\x7b" ++ quote key ++ ":" ++ compact value ++ compactMembers members ++ "\x7d"

/-- The items after the first. -/
def compactItems : List Json → String
  | [] => ""
  | item :: items => "," ++ compact item ++ compactItems items

/-- The members after the first. -/
def compactMembers : List (String × Json) → String
  | [] => ""
  | (key, value) :: members =>
    "," ++ quote key ++ ":" ++ compact value ++ compactMembers members

end

/-- A new line that starts at the given level. -/
def newline (level : Nat) : String :=
  String.ofList ('\n' :: List.replicate (2 * level) ' ')

mutual

/-- The value with each item and member on a line of its own, inside the given level. -/
def indentedAt (level : Nat) : Json → String
  | null => "null"
  | boolean b => booleanText b
  | number n => n.text
  | string s => quote s
  | array [] => "[]"
  | array (item :: items) =>
    "[" ++ newline (level + 1) ++ indentedAt (level + 1) item ++ indentedItems (level + 1) items
      ++ newline level ++ "]"
  | object [] => "\x7b\x7d"
  | object ((key, value) :: members) =>
    "\x7b" ++ newline (level + 1) ++ quote key ++ ": " ++ indentedAt (level + 1) value
      ++ indentedMembers (level + 1) members ++ newline level ++ "\x7d"

/-- The items after the first. -/
def indentedItems (level : Nat) : List Json → String
  | [] => ""
  | item :: items => "," ++ newline level ++ indentedAt level item ++ indentedItems level items

/-- The members after the first. -/
def indentedMembers (level : Nat) : List (String × Json) → String
  | [] => ""
  | (key, value) :: members =>
    "," ++ newline level ++ quote key ++ ": " ++ indentedAt level value
      ++ indentedMembers level members

end

/-- The value with each item and member on a line of its own. -/
def indented (value : Json) : String := indentedAt 0 value

end Json

end FilterQuery
