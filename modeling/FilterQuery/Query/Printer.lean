import FilterQuery.Query.Basic
import FilterQuery.Query.Scanner

/-!
# Query text

A query is written with canonical operator symbols, `;` between conjuncts and `,` between disjuncts.
A disjunction inside a conjunction is put in parentheses. An argument is quoted if it is empty or
has a character that would end a word.

Nothing else is put in parentheses: a conjunction binds its members more tightly anyway, and a group
in a group of the same connective reads the same without them. In a quoted argument the quote and
the backslash have a backslash in front. Selectors are written as they are, so only a query whose
selectors are words has a text that is read back.
-/

namespace FilterQuery

/-- One character inside single quotes. -/
def escapeQuoted (c : Char) : List Char :=
  if c = '\\' || c = '\'' then ['\\', c] else [c]

/-- An argument, in quotes where a word would not do. -/
def writeArgument (argument : String) : List Char :=
  if argument.toList.isEmpty || argument.toList.any Query.isReserved then
    '\'' :: (argument.toList.flatMap escapeQuoted ++ ['\''])
  else argument.toList

/-- The arguments after the first, each behind a comma. -/
def writeArguments (arguments : List String) : List Char :=
  arguments.flatMap fun argument => ',' :: writeArgument argument

namespace Comparison

/-- The text of a comparison; one argument stands alone, any other number in parentheses. -/
def write (c : Comparison) : List Char :=
  c.selector.toList ++ c.operator.symbol.toList ++
    match c.arguments with
    | [argument] => writeArgument argument
    | [] => ['(', ')']
    | argument :: rest => '(' :: (writeArgument argument ++ writeArguments rest ++ [')'])

end Comparison

namespace Query

/-- The text in parentheses if the condition holds. -/
def enclose (condition : Bool) (text : List Char) : List Char :=
  if condition then '(' :: (text ++ [')']) else text

mutual

/-- The characters of a query. -/
def write : Query → List Char
  | comparison c => c.write
  | and [] => []
  | and (member :: members) => enclose member.isOr (write member) ++ writeConjuncts members
  | or [] => []
  | or (member :: members) => write member ++ writeDisjuncts members

/-- The conjuncts after the first, each behind a semicolon. -/
def writeConjuncts : List Query → List Char
  | [] => []
  | member :: members =>
    ';' :: (enclose member.isOr (write member) ++ writeConjuncts members)

/-- The disjuncts after the first, each behind a comma. -/
def writeDisjuncts : List Query → List Char
  | [] => []
  | member :: members => ',' :: (write member ++ writeDisjuncts members)

end

/-- The text of a query. -/
def text (query : Query) : String := String.ofList query.write

end Query

end FilterQuery
