import FilterQuery.Query.Parser
import FilterQuery.Text.Split
import FilterQuery.Value

/-!
# Rejected queries

A query is **rejected** if its text is malformed, if a selector or an argument does not fit the
schema, or if an argument is missing. Each rejection carries what a caller needs to render it: the
selector, and the selectors or arguments that would have been accepted.

The first thing at fault in the order of the text decides the rejection, and nothing behind it is
looked at. A text that is malformed is not compiled at all, so its rejection does not depend on the
schema. The message of a rejection is a function of the rejection (`Rejection.message`); two queries
with the same rejection are told the same.
-/

namespace FilterQuery

/-- Why a query is rejected. -/
inductive Rejection where
  | malformed (e : SyntaxError)
  | missingArgument (selector : String)
  /-- The argument is no value of the type of the field. -/
  | invalidArgument (argument selector : String) (type : ValueType)
  | unsupportedField (selector : String) (expected : List String)
  | unsupportedValue (selector : String) (allowed : List String)
  /-- A map field is selected otherwise than by its name and a key. -/
  | malformedMapSelector (selector : String)
  deriving DecidableEq, Repr

namespace Rejection

/-- The message about a query that is not valid. -/
def notValid (detail : String) : String := "The given search parameter is not valid: " ++ detail

/-- A text in braces. -/
def braced (text : String) : String := "\x7b" ++ text ++ "\x7d"

/-- What is reported about the rejection. -/
def message : Rejection → String
  | malformed e => notValid e.detail
  | missingArgument selector => notValid ("missing argument for selector " ++ selector)
  | invalidArgument argument selector type =>
    notValid ("value " ++ argument ++ " of field " ++ selector ++ " is not a valid " ++ type.text)
  | unsupportedField selector expected =>
    "The given search parameter field " ++ braced selector
      ++ " does not exist, must be one of the following fields "
      ++ braced (Text.join ", " expected)
  | unsupportedValue selector allowed =>
    "field " ++ braced selector ++ " must be one of the following values "
      ++ braced (Text.join ", " allowed)
  | malformedMapSelector selector =>
    "The syntax of the given map search parameter field " ++ braced selector
      ++ " is wrong. Syntax is: fieldname.keyname"

end Rejection

end FilterQuery
