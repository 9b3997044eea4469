import FilterQuery.Predicate.Basic
import FilterQuery.Predicate.Pattern

/-!
# Backends

A **backend** is a target of compilation: a type of conditions with an operation for each kind of
comparison and connective. The compiler uses nothing else of its target. Two operations have
defaults. The standard backend builds predicates; the **tracing** backend writes down each operation
that is asked of it and keeps the defaults.

The defaults say what a backend does that knows nothing better: a membership in a complement is the
negation of the membership, and the two conditions on an entry of a map are combined by a
conjunction. The standard backend replaces the second one, since a conjunction would let the key and
the value come from different entries. It keeps the first one.

A backend has its own character for any run of characters, which goes into the patterns that it is
asked to match.
-/

namespace FilterQuery

/-- A type of conditions that queries are compiled to. -/
structure Backend (π : Type) where
  /-- The character that stands for any run of characters in patterns. -/
  wildcard : Char
  equal : Path → Value → π
  notEqual : Path → Value → π
  /-- A match of a pattern in upper case, whatever the case of the letters. -/
  like : Path → String → π
  greater : Path → Value → π
  greaterOrEqual : Path → Value → π
  less : Path → Value → π
  lessOrEqual : Path → Value → π
  isIn : Path → List Value → π
  not : π → π
  and : List π → π
  or : List π → π
  /-- The condition that always holds. -/
  always : π
  notIn : Path → List Value → π := fun path values => not (isIn path values)
  /-- The conditions on the key and on the value of one entry of the map at the path. -/
  mapEntry : Path → π → π → π := fun _ key value => and [key, value]

namespace Backend

/-- The backend that builds predicates. -/
def standard : Backend Predicate where
  wildcard := Pattern.wildcard
  equal := .equal
  notEqual := .notEqual
  like := .like
  greater := .greater
  greaterOrEqual := .greaterOrEqual
  less := .less
  lessOrEqual := .lessOrEqual
  isIn := .isIn
  not := .not
  and := .and
  or := .or
  always := .always
  mapEntry := fun path key value => .entry path (.and [key, value])

/-! ### Tracing -/

/-- A text in brackets behind a name. -/
def call (name content : String) : String := name ++ "[" ++ content ++ "]"

/-- A value with the name of its type. -/
def traceValue (value : Value) : String :=
  (match value with
    | .boolean _ => "boolean:"
    | .int32 _ => "int32:"
    | .int64 _ => "int64:"
    | .float64 _ => "float64:"
    | .string _ => "string:"
    | .constant _ => "enum:") ++ value.text

/-- A comparison of a path with one value. -/
def traceComparison (name : String) (path : Path) (value : Value) : String :=
  call name (path.text ++ "|" ++ traceValue value)

/-- The backend that writes the operations down, with the given wildcard. -/
def tracing (wildcard : Char) : Backend String where
  wildcard := wildcard
  equal := traceComparison "eq"
  notEqual := traceComparison "ne"
  like := fun path pattern => call "like" (path.text ++ "|" ++ pattern)
  greater := traceComparison "gt"
  greaterOrEqual := traceComparison "ge"
  less := traceComparison "lt"
  lessOrEqual := traceComparison "le"
  isIn := fun path values =>
    call "in" (path.text ++ "|" ++ Text.join "|" (values.map traceValue))
  not := call "not"
  and := fun conditions => call "and" (Text.join "|" conditions)
  or := fun conditions => call "or" (Text.join "|" conditions)
  always := "true"

end Backend

end FilterQuery
