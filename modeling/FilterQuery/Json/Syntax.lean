import FilterQuery.Json.Token

/-!
# The syntax tree of a JSON text

The **syntax tree** shows how a text nests, with its numerals and strings as they are spelt. It is
read from the tokens by a machine with a stack of the arrays and objects that are still open: the
machine looks at each token once, so reading follows the token list and needs no measure.

What the machine expects next is a part of its state (`SyntaxTree.Expected`), and so is all that was
read of the arrays and objects around it (`SyntaxTree.Opened`), the latest items first. The text is
read if the machine comes to the end of the tokens with one complete value and nothing left open.
The depth of nesting is not limited here; the reader of documents has a limit, and counts the depth
in the tree.
-/

namespace FilterQuery.Json

/-- A JSON text by its nesting. -/
inductive SyntaxTree where
  | null
  | boolean (b : Bool)
  | number (n : Numeral)
  | string (units : List Nat)
  | array (items : List SyntaxTree)
  | object (members : List (List Nat × SyntaxTree))

namespace SyntaxTree

/-- An array or object that is still open, with what it holds so far, the latest first. -/
inductive Opened where
  | array (items : List SyntaxTree)
  | object (members : List (List Nat × SyntaxTree)) (key : List Nat)

/-- What the next token has to be. -/
inductive Expected where
  /-- The start of a value. -/
  | value
  /-- The start of the first item of an array, or its end. -/
  | firstItem
  /-- The first key of an object, or its end. -/
  | firstKey
  /-- The next key of an object that holds these members. -/
  | key (members : List (List Nat × SyntaxTree))
  /-- The colon after a key of an object that holds these members. -/
  | colon (members : List (List Nat × SyntaxTree)) (key : List Nat)
  /-- What may follow this value. -/
  | after (value : SyntaxTree)

/-- The expectation and the open arrays and objects, innermost first. -/
abbrev Reading := Expected × List Opened

/-- Reads the first token of a value. -/
def beginValue (stack : List Opened) : Token → Option Reading
  | .null => some (.after .null, stack)
  | .boolean b => some (.after (.boolean b), stack)
  | .number n => some (.after (.number n), stack)
  | .string units => some (.after (.string units), stack)
  | .beginArray => some (.firstItem, stack)
  | .beginObject => some (.firstKey, stack)
  | _ => none

/-- Reads one token. -/
def step : Reading → Token → Option Reading
  | (.value, stack), token => beginValue stack token
  | (.firstItem, stack), .endArray => some (.after (.array []), stack)
  | (.firstItem, stack), token => beginValue (.array [] :: stack) token
  | (.firstKey, stack), .endObject => some (.after (.object []), stack)
  | (.firstKey, stack), .string key => some (.colon [] key, stack)
  | (.key members, stack), .string key => some (.colon members key, stack)
  | (.colon members key, stack), .colon => some (.value, .object members key :: stack)
  | (.after value, .array items :: stack), .comma =>
    some (.value, .array (value :: items) :: stack)
  | (.after value, .array items :: stack), .endArray =>
    some (.after (.array (value :: items).reverse), stack)
  | (.after value, .object members key :: stack), .comma =>
    some (.key ((key, value) :: members), stack)
  | (.after value, .object members key :: stack), .endObject =>
    some (.after (.object ((key, value) :: members).reverse), stack)
  | _, _ => none

/-- The value that a finished reading has arrived at. -/
def result? : Reading → Option SyntaxTree
  | (.after value, []) => some value
  | _ => none

/-- Reads a whole text. -/
def ofText? (text : String) : Option SyntaxTree := do
  let found ← tokens text.toList
  let reading ← found.foldlM step (.value, [])
  result? reading

end SyntaxTree

end FilterQuery.Json
