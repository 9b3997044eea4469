import FilterQuery.Number.Layout

/-!
# JSON values

A **JSON value** keeps whole numbers in the range of 64-bit words exact and all other numbers as
doubles. The members of an object are an association list in the order of their keys, one member a
key; `Json.put` keeps that order and lets the later of two members with one key win.

The two kinds of numbers are apart also where they are the same number: `1` and `1.0` are different
values with different texts. They are compared as doubles (`Json.double?`).

The functions that look into a value give nothing if it is of another kind, so a test on a value of
the wrong kind fails and is no error.
-/

namespace FilterQuery

/-- A number of a JSON text. -/
inductive JsonNumber where
  /-- A whole number from `-2 ^ 63` to `2 ^ 64 - 1`. -/
  | int (n : Int)
  /-- Any other number, as a finite double. -/
  | float (x : Double)
  deriving DecidableEq, Repr

/-- A JSON value. -/
inductive Json where
  | null
  | boolean (b : Bool)
  | number (n : JsonNumber)
  | string (s : String)
  | array (items : List Json)
  | object (members : List (String × Json))
  deriving Repr

namespace JsonNumber

/-- The double nearest to the number. -/
def toDouble : JsonNumber → Double
  | int n => Double.ofInt n
  | float x => x

/-- The JSON text of a number. -/
def text : JsonNumber → String
  | int n => String.ofList (writeInt n)
  | float x => String.ofList (x.renderFinite .json)

end JsonNumber

namespace Json

/-- Whether the value is `null`. -/
def isNull : Json → Bool
  | null => true
  | _ => false

/-- The text of a string value. -/
def string? : Json → Option String
  | string s => some s
  | _ => none

/-- The truth value of a boolean. -/
def boolean? : Json → Option Bool
  | boolean b => some b
  | _ => none

/-- The double nearest to a number. -/
def double? : Json → Option Double
  | number n => some n.toDouble
  | _ => none

/-- The member of an object with the given key. -/
def member? (key : String) : Json → Option Json
  | object members => members.lookup key
  | _ => none

/-- The members with one more, which takes the place of a member with its key. -/
def put (key : String) (value : Json) : List (String × Json) → List (String × Json)
  | [] => [(key, value)]
  | (k, v) :: rest =>
    if key = k then (key, value) :: rest
    else if key < k then (key, value) :: (k, v) :: rest
    else (k, v) :: put key value rest

/-- The object with the given members; of several members with one key the last counts. -/
def ofMembers (members : List (String × Json)) : Json :=
  object (members.foldl (fun object member => put member.1 member.2 object) [])

end Json

end FilterQuery
