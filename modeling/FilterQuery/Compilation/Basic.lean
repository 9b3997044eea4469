import FilterQuery.Compilation.Argument
import FilterQuery.Predicate.Backend
import FilterQuery.Query.Basic

/-!
# Compiling queries

A query is compiled against a schema into a condition of a backend. Comparisons are compiled in the
order of the text, and the first rejection ends the compilation. A comparison with an unknown
operator contributes no condition; a group to which nothing is contributed always holds.

Text is compared for equality by pattern, with `*` in the argument as the wildcard. In a map field
the condition on the value and the condition on the key are bound to one entry of the map.

The compiler is in stages, each a definition of its own:

* `Selection.coerceAll` reads the arguments of a membership, `Comparison.condition` builds the
  condition on the selected values, and `Comparison.compile` puts the two behind the choice of the
  selection, so that the selector is rejected before any argument.
* `Query.conditions` collects the conditions that a query contributes to the group around it. It has
  at most one, but a list lets members without a condition disappear from the group.
* `Query.compile` makes one condition of what is contributed, and `Query.compileText` starts from
  the text.

All stages are over any type of conditions; nothing is known of a backend but its operations.
-/

namespace FilterQuery

/-- The character of an argument that stands for any run of characters. -/
def queryWildcard : Char := '*'

namespace Backend

variable {π : Type} (b : Backend π)

/-- The pattern of an argument, with the wildcard of the backend and in upper case. -/
def pattern (argument : String) : String :=
  Text.upper (Text.replace queryWildcard [b.wildcard] argument)

/-- The condition that a path reaches a text that matches an argument. -/
def matching (path : Path) (value : Value) : π := b.like path (b.pattern value.text)

/-- The condition that a path reaches a value that an argument names. -/
def same (path : Path) (value : Value) : π :=
  if value.isTextual then b.matching path value else b.equal path value

/-- The condition of a selection, bound to the entry with its key if the field is a map. -/
def bindEntry (selection : Selection) (condition : π) : π :=
  match selection.key? with
  | some key => b.mapEntry selection.path (b.equal key.path (.string key.key)) condition
  | none => condition

/-- A group of conditions; without conditions it always holds. -/
def group (combine : List π → π) (conditions : List π) : π :=
  if conditions.isEmpty then b.always else combine conditions

end Backend

namespace Selection

/-- The values of all arguments, or the first rejection. -/
def coerceAll (selection : Selection) (selector : String) :
    List String → Except Rejection (List Value)
  | [] => .ok []
  | argument :: arguments => do
    return (← selection.coerce selector argument) :: (← selection.coerceAll selector arguments)

end Selection

namespace Comparison

variable {π : Type} (b : Backend π)

/-- The condition on the selected values, where `first` is the first argument. An unknown operator
has none. -/
def condition (selection : Selection) (c : Comparison) (first : String) :
    Except Rejection (Option π) :=
  let path := selection.valuePath
  let value := selection.coerce c.selector first
  let ordered := selection.coerceOrdered c.selector first
  match c.operator with
  | .equal => value.map (some <| b.same path ·)
  | .notEqual => value.map (some <| b.notEqual path ·)
  | .like => value.map (some <| b.matching path ·)
  | .greater => ordered.map (some <| b.greater path ·)
  | .greaterOrEqual => ordered.map (some <| b.greaterOrEqual path ·)
  | .less => ordered.map (some <| b.less path ·)
  | .lessOrEqual => ordered.map (some <| b.lessOrEqual path ·)
  | .isIn => (selection.coerceAll c.selector c.arguments).map (some <| b.isIn path ·)
  | .notIn => (selection.coerceAll c.selector c.arguments).map (some <| b.notIn path ·)
  | .other _ => .ok none

/-- The condition of a comparison. The selector is checked before the arguments. -/
def compile (schema : Schema) (c : Comparison) : Except Rejection (Option π) := do
  let selection ← schema.select c.selector
  match c.arguments with
  | [] => .error (.missingArgument c.selector)
  | first :: _ => return (← c.condition b selection first).map (b.bindEntry selection)

end Comparison

namespace Query

variable {π : Type} (b : Backend π)

mutual

/-- The conditions that a query contributes to the group around it. -/
def conditions (schema : Schema) : Query → Except Rejection (List π)
  | comparison c => return (← c.compile b schema).toList
  | and members => return [b.group b.and (← conditionsOf schema members)]
  | or members => return [b.group b.or (← conditionsOf schema members)]

/-- The conditions that some queries contribute, in their order. -/
def conditionsOf (schema : Schema) : List Query → Except Rejection (List π)
  | [] => return []
  | member :: members => return (← conditions schema member) ++ (← conditionsOf schema members)

end

/-- The condition of a query. -/
def compile (schema : Schema) (query : Query) : Except Rejection π := do
  match ← query.conditions b schema with
  | [condition] => return condition
  | conditions => return b.group b.and conditions

/-- The condition of a query text. -/
def compileText (schema : Schema) (text : String) : Except Rejection π :=
  match ofText text with
  | .ok query => query.compile b schema
  | .error e => .error (.malformed e)

end Query

end FilterQuery
