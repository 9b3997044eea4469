import FilterQuery.Path
import FilterQuery.Value

/-!
# Predicates

A **predicate** is a condition on documents. A leaf compares the values that a path leads to; an
**entry** binds one element of a collection, and the paths inside it that start with the path of the
entry lead on from that element.

The compiler builds only some of the predicates: it negates memberships alone, and puts the
condition on a key and one comparison into an entry. The type is free of such restrictions, and the
meaning, the text and the JSON form are given for all of it.
-/

namespace FilterQuery

/-- A condition on documents. -/
inductive Predicate where
  /-- Holds of every document. -/
  | always
  | equal (path : Path) (value : Value)
  | notEqual (path : Path) (value : Value)
  /-- A match of the text in upper case against a pattern in which `%` stands for any run. -/
  | like (path : Path) (pattern : String)
  | greater (path : Path) (value : Value)
  | greaterOrEqual (path : Path) (value : Value)
  | less (path : Path) (value : Value)
  | lessOrEqual (path : Path) (value : Value)
  | isIn (path : Path) (values : List Value)
  | not (predicate : Predicate)
  | and (predicates : List Predicate)
  | or (predicates : List Predicate)
  /-- Holds if one element at the path satisfies the predicate. -/
  | entry (path : Path) (predicate : Predicate)
  deriving Repr

end FilterQuery
