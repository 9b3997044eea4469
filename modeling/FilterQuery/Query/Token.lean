import FilterQuery.Text.Case

/-!
# Tokens of a query

A query text is a sequence of **tokens**: words, quoted strings, comparison operators and
punctuation, closed by the end of input. A **word** that spells `and` or `or` in any letter case
connects constraints where a connective may stand, and is an ordinary word everywhere else.

Error messages name a token by a **description** (`Token.describe`). A word and a punctuation mark
stand in quotes, the text of a quoted string and the symbol of an operator have their kind in front,
and the end of input goes by its name. Which text describes which token is a relation beside the
function (`Token.IsDescribedBy`), and the two agree (`Token.isDescribedBy_iff`).
-/

namespace FilterQuery

/-- How two constraints are connected. -/
inductive Connective where
  | and
  | or
  deriving DecidableEq, Repr

/-- A token of a query. -/
inductive Token where
  | word (text : String)
  | quoted (text : String)
  | operator (symbol : String)
  | semicolon
  | comma
  | leftParen
  | rightParen
  | endOfInput
  deriving DecidableEq, Repr

namespace Connective

/-- The connective that a word spells. -/
def ofWord? (word : String) : Option Connective :=
  let upper := Text.upper word
  if upper = "AND" then some and
  else if upper = "OR" then some or
  else none

end Connective

namespace Token

/-- The connective that the token spells as a word. -/
def keyword? : Token → Option Connective
  | word text => Connective.ofWord? text
  | _ => none

/-- The connective that the token stands for between constraints. -/
def connective? : Token → Option Connective
  | semicolon => some .and
  | comma => some .or
  | token => token.keyword?

/-- What an error message calls the token. -/
def describe : Token → String
  | word text => "'" ++ text ++ "'"
  | quoted text => "quoted string '" ++ text ++ "'"
  | operator symbol => "operator '" ++ symbol ++ "'"
  | semicolon => "';'"
  | comma => "','"
  | leftParen => "'('"
  | rightParen => "')'"
  | endOfInput => "end of input"

/-- The character is the punctuation mark of the token. -/
inductive IsMark : Char → Token → Prop where
  | semicolon : IsMark ';' semicolon
  | comma : IsMark ',' comma
  | leftParen : IsMark '(' leftParen
  | rightParen : IsMark ')' rightParen

/-- The description says which token it is: words and punctuation marks stand between quotes, the
other tokens with a text have their kind in front of it, and the end of input goes by its name. -/
inductive IsDescribedBy : Token → String → Prop where
  | word (text : String) : IsDescribedBy (word text) ("'" ++ text ++ "'")
  | mark {c : Char} {token : Token} (h : IsMark c token) :
      IsDescribedBy token ("'" ++ String.singleton c ++ "'")
  | quoted (text : String) : IsDescribedBy (quoted text) ("quoted string '" ++ text ++ "'")
  | operator (symbol : String) : IsDescribedBy (operator symbol) ("operator '" ++ symbol ++ "'")
  | endOfInput : IsDescribedBy endOfInput "end of input"

/-- An error message calls a token by its description, of which it has one. -/
theorem isDescribedBy_iff {token : Token} {description : String} :
    token.IsDescribedBy description ↔ token.describe = description := by
  constructor
  · intro h
    cases h with
    | mark h => cases h <;> rfl
    | _ => rfl
  · rintro rfl
    cases token with
    | word text => exact .word text
    | quoted text => exact .quoted text
    | operator symbol => exact .operator symbol
    | semicolon => exact .mark .semicolon
    | comma => exact .mark .comma
    | leftParen => exact .mark .leftParen
    | rightParen => exact .mark .rightParen
    | endOfInput => exact .endOfInput

end Token

end FilterQuery
