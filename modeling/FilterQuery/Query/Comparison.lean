import FilterQuery.Text.Case

/-!
# Comparisons

A **comparison** sets a selector against one or more arguments by an **operator**. An operator has a
canonical symbol; the short spellings `>`, `>=`, `<` and `<=` and capital letters are other
spellings of it. A symbol of no known operator is kept, in lower case, and carries no meaning.

Which operators take several arguments is a check of the parser (`Operator.isMultiValue`). What the
check decides is stated beside it in plain terms (`Operator.TakesMany`): the operator is one of the
two memberships, or it is unknown. An unknown operator takes as many arguments as are given, because
nothing is known of it that could refuse them.
-/

namespace FilterQuery

/-- How a selected value is compared with the arguments. -/
inductive Operator where
  | equal
  | notEqual
  | greater
  | greaterOrEqual
  | less
  | lessOrEqual
  | isIn
  | notIn
  /-- A match against a pattern, whatever the case of the letters. -/
  | like
  /-- A well-formed symbol that names no operator. -/
  | other (symbol : String)
  deriving DecidableEq, Repr

namespace Operator

/-- The operator with the given symbol in any letter case. -/
def ofSymbol (symbol : String) : Operator :=
  match Text.asciiLower symbol with
  | "==" => equal
  | "!=" => notEqual
  | "=gt=" | ">" => greater
  | "=ge=" | ">=" => greaterOrEqual
  | "=lt=" | "<" => less
  | "=le=" | "<=" => lessOrEqual
  | "=in=" => isIn
  | "=out=" => notIn
  | "=li=" => like
  | lower => other lower

/-- The canonical symbol. -/
def symbol : Operator → String
  | equal => "=="
  | notEqual => "!="
  | greater => "=gt="
  | greaterOrEqual => "=ge="
  | less => "=lt="
  | lessOrEqual => "=le="
  | isIn => "=in="
  | notIn => "=out="
  | like => "=li="
  | other symbol => symbol

/-- Whether more than one argument may follow. -/
def isMultiValue : Operator → Bool
  | isIn | notIn | other _ => true
  | _ => false

/-- The operators that take any number of arguments: the two memberships, and every symbol that
names no operator. -/
def TakesMany (op : Operator) : Prop :=
  op = isIn ∨ op = notIn ∨ ∃ symbol, op = other symbol

/-- The check decides which operators take any number of arguments. -/
theorem isMultiValue_iff {op : Operator} : op.isMultiValue = true ↔ op.TakesMany := by
  cases op <;> simp [isMultiValue, TakesMany]

/-- Whether the operator is none of the known ones. -/
def isOther : Operator → Bool
  | other _ => true
  | _ => false

end Operator

/-- A selector, an operator and the arguments. -/
structure Comparison where
  selector : String
  operator : Operator
  arguments : List String
  deriving DecidableEq, Repr

end FilterQuery
