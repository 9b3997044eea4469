import FilterQuery.Json.Basic
import FilterQuery.Text.Case

/-!
# Argument values

An argument of a query is turned into a **value** of the type that its field declares. A constant of
an enumeration is kept apart from other text, because only text is matched against patterns.

A value is written in two ways. Its text (`Value.text`) goes into patterns, messages and the text of
a predicate; its JSON form (`Value.toJson`) goes into the JSON form of a predicate. For numbers the
two differ: a double that is whole is marked as a double in JSON, but not in its text.
-/

namespace FilterQuery

/-- An enumeration: its name and its constants. -/
structure EnumType where
  name : String
  constants : List String
  deriving DecidableEq, Repr

namespace EnumType

/-- The first constant that agrees with the text up to the case of ASCII letters. -/
def constant? (type : EnumType) (text : String) : Option String :=
  type.constants.find? (Text.equalsIgnoringCase · text)

end EnumType

/-- The type of a filterable value. -/
inductive ValueType where
  | string
  | boolean
  | int32
  | int64
  | float64
  | enumeration (type : EnumType)
  deriving DecidableEq, Repr

namespace ValueType

/-- The name of the type in error messages. -/
def text : ValueType → String
  | string => "string"
  | boolean => "boolean"
  | int32 => "int32"
  | int64 => "int64"
  | float64 => "float64"
  | enumeration type => "enum " ++ type.name

end ValueType

/-- The value of an argument. -/
inductive Value where
  | boolean (b : Bool)
  | int32 (n : Int)
  | int64 (n : Int)
  | float64 (x : Double)
  | string (s : String)
  /-- A constant of an enumeration. -/
  | constant (s : String)
  deriving DecidableEq, Repr

namespace Value

/-- Whether the value is plain text, which is compared by pattern. -/
def isTextual : Value → Bool
  | string _ => true
  | _ => false

/-- The double nearest to a numeric value. -/
def double? : Value → Option Double
  | int32 n => some (Double.ofInt n)
  | int64 n => some (Double.ofInt n)
  | float64 x => some x
  | _ => none

/-- The text of a truth value. -/
def booleanText (b : Bool) : String := if b then "true" else "false"

/-- The plain text of a value. -/
def text : Value → String
  | boolean b => booleanText b
  | int32 n => String.ofList (writeInt n)
  | int64 n => String.ofList (writeInt n)
  | float64 x => x.text
  | string s => s
  | constant s => s

/-- The JSON form of a value; a double that JSON cannot express becomes `null`. -/
def toJson : Value → Json
  | boolean b => .boolean b
  | int32 n => .number (.int n)
  | int64 n => .number (.int n)
  | float64 x => if x.isFinite then .number (.float x) else .null
  | string s => .string s
  | constant s => .string s

end Value

end FilterQuery
