import FilterQuery.Compilation.Selection
import FilterQuery.Number.Reader
import FilterQuery.Text.Blank

/-!
# Arguments

An argument is a text; what it stands for depends on the selected field. An enumeration takes its
constants, a field with a converter takes what the converter recognises, and any other field takes
the texts of its type. In an ordering, enumerations and fields with a converter are compared by
their text.

Numbers are read without the blanks around them, in all spellings that the readers of numbers take:
a plus in front and leading zeros are allowed. A whole number has to be in the range of its type,
and a double has to be finite; a text that is no such value is refused with the name of the type. A
text field takes any argument, also an empty one.

An argument is coerced by itself, whatever the comparison that it stands in (`Selection.coerce`),
but orderings have a rule of their own (`Selection.coerceOrdered`).
-/

namespace FilterQuery

namespace Value

/-- The whole number of a text, blanks around it aside, if it is between the bounds. -/
def wholeBetween? (low high : Int) (text : String) : Option Int :=
  (readInt (Text.trimBlanks text.toList)).filter fun n => low ≤ n && n ≤ high

/-- The truth value that a text names in any letter case. -/
def truth? (text : String) : Option Bool :=
  let lower := Text.lower text
  if lower = "true" then some true
  else if lower = "false" then some false
  else none

/-- The value of a type that a text denotes. A double has to be finite. -/
def ofText? (type : ValueType) (text : String) : Option Value :=
  match type with
  | .string | .enumeration _ => some (.string text)
  | .boolean => (truth? text).map boolean
  | .int32 => (wholeBetween? (-0x80000000) 0x7FFFFFFF text).map int32
  | .int64 => (wholeBetween? (-0x8000000000000000) 0x7FFFFFFFFFFFFFFF text).map int64
  | .float64 => ((readDouble (Text.trimBlanks text.toList)).filter Double.isFinite).map float64

end Value

namespace Selection

/-- The value of an argument by its type alone. -/
def readAs (type : ValueType) (selector argument : String) : Except Rejection Value :=
  match Value.ofText? type argument with
  | some value => .ok value
  | none => .error (.invalidArgument argument selector type)

/-- The value of an argument of an equality, a pattern match or a membership. -/
def coerce (selection : Selection) (selector argument : String) : Except Rejection Value :=
  match selection.type, selection.field.converter with
  | .enumeration type, _ =>
    match type.constant? argument with
    | some constant => .ok (.constant constant)
    | none => .error (.unsupportedValue selector (type.constants.map Text.lower))
  | _, some converter =>
    match converter.convert argument with
    | some value => .ok value
    | none => .error (.unsupportedValue selector converter.allowed)
  | type, none => readAs type selector argument

/-- The value of an argument of an ordering. -/
def coerceOrdered (selection : Selection) (selector argument : String) : Except Rejection Value :=
  match selection.type, selection.field.converter with
  | .enumeration _, _ => .ok (.string argument)
  | _, some _ => .ok (.string argument)
  | type, none => readAs type selector argument

end Selection

end FilterQuery
