import FilterQuery.Predicate.Basic

/-!
# The texts of a predicate

A predicate has a text in the manner of SQL and a JSON form. In the text, strings stand in single
quotes and a quote inside a string is written twice.

Groups are in parentheses with the connective between their members, a negation is in parentheses as
well, and an entry is a quantifier with the path and the predicate behind it. Paths are written as
they are, without quotes. Constants of an enumeration are written like strings, so the text does not
tell them apart; the JSON form does not either.
-/

namespace FilterQuery

/-- A string in single quotes, its own quotes doubled. -/
def writeLiteral (s : String) : List Char :=
  '\'' :: (s.toList.flatMap (fun c => if c = '\'' then ['\'', '\''] else [c]) ++ ['\''])

namespace Value

/-- A value as it stands in the text of a predicate. -/
def write : Value → List Char
  | string s => writeLiteral s
  | constant s => writeLiteral s
  | value => value.text.toList

end Value

namespace Predicate

/-- The text of a comparison with one value. -/
def writeComparison (path : Path) (symbol : String) (value : Value) : List Char :=
  path.text.toList ++ ' ' :: symbol.toList ++ ' ' :: value.write

/-- Values with commas between them. -/
def writeValues : List Value → List Char
  | [] => []
  | [value] => value.write
  | value :: values => value.write ++ [',', ' '] ++ writeValues values

mutual

/-- The characters of a predicate. -/
def write : Predicate → List Char
  | always => "TRUE".toList
  | equal path value => writeComparison path "=" value
  | notEqual path value => writeComparison path "<>" value
  | like path pattern =>
    "UPPER(".toList ++ path.text.toList ++ ") LIKE ".toList ++ writeLiteral pattern
  | greater path value => writeComparison path ">" value
  | greaterOrEqual path value => writeComparison path ">=" value
  | less path value => writeComparison path "<" value
  | lessOrEqual path value => writeComparison path "<=" value
  | isIn path values => path.text.toList ++ " IN (".toList ++ writeValues values ++ [')']
  | not predicate => "NOT (".toList ++ write predicate ++ [')']
  | and [] => ['(', ')']
  | and (predicate :: predicates) =>
    '(' :: (write predicate ++ writeRest " AND ".toList predicates ++ [')'])
  | or [] => ['(', ')']
  | or (predicate :: predicates) =>
    '(' :: (write predicate ++ writeRest " OR ".toList predicates ++ [')'])
  | entry path predicate => "ANY ".toList ++ path.text.toList ++ ' ' :: write predicate

/-- The predicates after the first, each behind the separator. -/
def writeRest (separator : List Char) : List Predicate → List Char
  | [] => []
  | predicate :: predicates =>
    separator ++ write predicate ++ writeRest separator predicates

end

/-- The text of a predicate in the manner of SQL. -/
def text (predicate : Predicate) : String := String.ofList predicate.write

/-! ### JSON -/

/-- An object with one member. -/
def tagged (tag : String) (content : Json) : Json := .object [(tag, content)]

/-- The JSON form of a comparison with one value. -/
def comparisonJson (tag : String) (path : Path) (value : Value) : Json :=
  tagged tag (.object [("path", .string path.text), ("value", value.toJson)])

mutual

/-- The JSON form of a predicate: its kind in lower case, with its parts below. -/
def toJson : Predicate → Json
  | always => .string "conjunction"
  | equal path value => comparisonJson "equal" path value
  | notEqual path value => comparisonJson "not_equal" path value
  | like path pattern =>
    tagged "like" (.object [("path", .string path.text), ("pattern", .string pattern)])
  | greater path value => comparisonJson "greater_than" path value
  | greaterOrEqual path value => comparisonJson "greater_than_or_equal" path value
  | less path value => comparisonJson "less_than" path value
  | lessOrEqual path value => comparisonJson "less_than_or_equal" path value
  | isIn path values =>
    tagged "in"
      (.object [("path", .string path.text), ("values", .array (values.map Value.toJson))])
  | not predicate => tagged "not" (toJson predicate)
  | and predicates => tagged "and" (.array (toJsons predicates))
  | or predicates => tagged "or" (.array (toJsons predicates))
  | entry path predicate =>
    tagged "entry" (.object [("path", .string path.text), ("predicate", toJson predicate)])

/-- The JSON forms of some predicates. -/
def toJsons : List Predicate → List Json
  | [] => []
  | predicate :: predicates => toJson predicate :: toJsons predicates

end

end Predicate

end FilterQuery
