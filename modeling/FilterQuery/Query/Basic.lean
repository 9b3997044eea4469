import FilterQuery.Query.Comparison

/-!
# Queries

A **query** combines comparisons by conjunction and disjunction. A group is **joined** from its
members without trivial nesting: a single member stands for itself, and a member with the connective
of the group is spliced into it. The parser builds every group in this way.

So the parentheses that a text has for its own sake leave no trace in the query, while those that
make a disjunction a member of a conjunction are seen in its shape. The type itself allows more:
groups of one member or of none, and groups in groups of the same connective. A query that is given
as such keeps them, and the compiler has a meaning for each.
-/

namespace FilterQuery

/-- A query: a comparison, or a group of queries of which all or any have to hold. -/
inductive Query where
  | comparison (c : Comparison)
  | and (members : List Query)
  | or (members : List Query)
  deriving Repr

namespace Query

/-- Whether the query is a disjunction. -/
def isOr : Query → Bool
  | or _ => true
  | _ => false

/-- The members that a query contributes to a conjunction. -/
def conjuncts : Query → List Query
  | and members => members
  | query => [query]

/-- The members that a query contributes to a disjunction. -/
def disjuncts : Query → List Query
  | or members => members
  | query => [query]

/-- The conjunction of some queries. -/
def joinAnd : List Query → Query
  | [query] => query
  | members => and (members.flatMap conjuncts)

/-- The disjunction of some queries. -/
def joinOr : List Query → Query
  | [query] => query
  | members => or (members.flatMap disjuncts)

end Query

end FilterQuery
