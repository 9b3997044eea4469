import FilterQuery.Query.Basic
import FilterQuery.Query.Scanner

/-!
# Parsing a query

The grammar of queries is

    alternatives := conjunction ((',' | or) conjunction)*
    conjunction  := constraint ((';' | and) constraint)*
    constraint   := '(' alternatives ')' | word operator arguments
    arguments    := value | '(' value (',' value)* ')'
    value        := word | quoted string

with one more rule: only operators that take several values may have several arguments. The parser
is a machine that reads one token at a time and keeps the groups that are still open, so it stops at
the first token that cannot continue a query and says what could have.

* **The state** is a stage of the grammar, the group that is being read, and the groups around it
  (`ParseState`). A group keeps its members the latest first, and is joined when it is closed
  (`OpenGroup.close`).
* **A step** looks at the stage and at one token (`ParseState.step`). It reads the token, accepts
  the query, stops, or refuses an argument list that is too long. This is the one place where the
  grammar is written down in the parser; all its properties follow from it.
* **A run** is the steps along the list of tokens (`Parser.run`), by recursion on the list, so it
  ends. The parser is left where the run ended: calls may go on from there.
-/

namespace FilterQuery

/-- What a parser is waiting for when it stops. -/
inductive Awaited where
  | selector
  | operator
  | argument
  | closing
  | connective
  deriving DecidableEq, Repr

/-- Why a list of tokens is no query. -/
inductive ParseError where
  /-- There is no token but the end of input. -/
  | empty
  /-- The token with this index is none of those awaited. -/
  | unexpected (awaited : Awaited) (found : Token) (index : Nat)
  /-- The operator takes one argument and has several. -/
  | extraArguments (operator : Operator) (selector : String)
  deriving DecidableEq, Repr

namespace Awaited

/-- What an error message calls the tokens awaited. -/
def describe : Awaited → String
  | selector => "selector"
  | operator => "comparison operator"
  | argument => "argument"
  | closing => "')'"
  | connective => "';', ',' or end of input"

end Awaited

namespace ParseError

/-- What is reported about the error. -/
def detail : ParseError → String
  | empty => "empty expression"
  | unexpected awaited found index =>
    "expected " ++ awaited.describe ++ " but found " ++ found.describe ++ " at token "
      ++ String.ofList (digitsOf index)
  | extraArguments operator selector =>
    "operator " ++ operator.symbol ++ " of selector " ++ selector ++ " expects a single argument"

end ParseError

/-! ### The machine -/

/-- A group that is still open, the latest members first. -/
structure OpenGroup where
  /-- The alternatives before the current one. -/
  alternatives : List Query
  /-- The constraints of the current alternative. -/
  constraints : List Query

namespace OpenGroup

/-- The group at its start. -/
def start : OpenGroup := ⟨[], []⟩

/-- The group with one more constraint. -/
def add (group : OpenGroup) (query : Query) : OpenGroup :=
  ⟨group.alternatives, query :: group.constraints⟩

/-- The group at the start of its next alternative. -/
def nextAlternative (group : OpenGroup) : OpenGroup :=
  ⟨.joinAnd group.constraints.reverse :: group.alternatives, []⟩

/-- The query of the group. -/
def close (group : OpenGroup) : Query := .joinOr group.nextAlternative.alternatives.reverse

end OpenGroup

/-- Where the parser stands in the grammar. -/
inductive ParseStage where
  /-- Before a constraint. -/
  | constraint
  /-- After a selector. -/
  | selected (selector : String)
  /-- After an operator. -/
  | compared (selector : String) (operator : Operator)
  /-- Before a value in parentheses; the values before it, the latest first. -/
  | value (selector : String) (operator : Operator) (values : List String)
  /-- After a value in parentheses; the values so far, the latest first. -/
  | listed (selector : String) (operator : Operator) (values : List String)
  /-- After a constraint. -/
  | constrained

/-- The state of the parser: its place in the grammar, the group it is in, and the groups around
that one, innermost first. -/
structure ParseState where
  stage : ParseStage
  group : OpenGroup
  outer : List OpenGroup

/-- What a token does to the parser. -/
inductive ParseStep where
  /-- The token is read. -/
  | next (state : ParseState)
  /-- The token is the end of input behind a complete query. -/
  | accept (query : Query)
  /-- The token is none of those awaited. -/
  | stop (awaited : Awaited)
  /-- The token closes an argument list that is too long. -/
  | refuse (operator : Operator) (selector : String)

namespace ParseState

/-- The state before the first token. -/
def start : ParseState := ⟨.constraint, .start, []⟩

/-- The state after a complete constraint. -/
def constrained (state : ParseState) (query : Query) : ParseStep :=
  .next ⟨.constrained, state.group.add query, state.outer⟩

/-- Reads a token after a complete constraint. -/
def connect (state : ParseState) (token : Token) : ParseStep :=
  match token.connective? with
  | some .and => .next ⟨.constraint, state.group, state.outer⟩
  | some .or => .next ⟨.constraint, state.group.nextAlternative, state.outer⟩
  | none =>
    match state.outer, token with
    | [], .endOfInput => .accept state.group.close
    | [], _ => .stop .connective
    | group :: outer, .rightParen => .next ⟨.constrained, group.add state.group.close, outer⟩
    | _ :: _, _ => .stop .closing

/-- Reads one token. -/
def step (state : ParseState) (token : Token) : ParseStep :=
  match state.stage, token with
  | .constraint, .leftParen => .next ⟨.constraint, .start, state.group :: state.outer⟩
  | .constraint, .word text => .next ⟨.selected text, state.group, state.outer⟩
  | .constraint, _ => .stop .selector
  | .selected selector, .operator symbol =>
    .next ⟨.compared selector (.ofSymbol symbol), state.group, state.outer⟩
  | .selected _, _ => .stop .operator
  | .compared selector operator, .leftParen =>
    .next ⟨.value selector operator [], state.group, state.outer⟩
  | .compared selector operator, .word text
  | .compared selector operator, .quoted text =>
    state.constrained (.comparison ⟨selector, operator, [text]⟩)
  | .compared _ _, _ => .stop .argument
  | .value selector operator values, .word text
  | .value selector operator values, .quoted text =>
    .next ⟨.listed selector operator (text :: values), state.group, state.outer⟩
  | .value _ _ _, _ => .stop .argument
  | .listed selector operator values, .comma =>
    .next ⟨.value selector operator values, state.group, state.outer⟩
  | .listed selector operator values, .rightParen =>
    if 1 < values.length && !operator.isMultiValue then .refuse operator selector
    else state.constrained (.comparison ⟨selector, operator, values.reverse⟩)
  | .listed _ _ _, _ => .stop .closing
  | .constrained, token => state.connect token

end ParseState

/-! ### Parsers -/

/-- A place in a list of tokens: the number of tokens before it, and those after it. -/
structure Parser where
  index : Nat
  rest : List Token
  deriving DecidableEq, Repr

namespace Parser

/-- The parser at the start of a list of tokens. -/
def ofTokens (tokens : List Token) : Parser := ⟨0, tokens⟩

/-- Reads the tokens that are left from a state of the machine on. -/
def run (state : ParseState) (index : Nat) : List Token → Except ParseError Query × Parser
  | [] => (.error (.unexpected .connective .endOfInput index), ⟨index, []⟩)
  | token :: rest =>
    match state.step token with
    | .next state => run state (index + 1) rest
    | .accept query => (.ok query, ⟨index, token :: rest⟩)
    | .stop awaited => (.error (.unexpected awaited token index), ⟨index, token :: rest⟩)
    | .refuse operator selector =>
      (.error (.extraArguments operator selector), ⟨index + 1, rest⟩)

/-- Reads a query up to the end of input. The parser stays at the end of input, at a token that
does not fit, or behind an argument list that is too long. -/
def parse (parser : Parser) : Except ParseError Query × Parser :=
  match parser.rest with
  | [] | .endOfInput :: _ => (.error .empty, parser)
  | rest => run .start parser.index rest

end Parser

/-! ### Query texts -/

/-- Why a text is no query. -/
inductive SyntaxError where
  | scan (e : ScanError)
  | parse (e : ParseError)
  deriving DecidableEq, Repr

namespace SyntaxError

/-- What is reported about the error. -/
def detail : SyntaxError → String
  | scan e => e.detail
  | parse e => e.detail

end SyntaxError

namespace Query

/-- The parser of a query text. -/
def parser (text : String) : Except SyntaxError Parser :=
  match tokenize text with
  | .ok tokens => .ok (.ofTokens tokens)
  | .error e => .error (.scan e)

/-- The query of a text. -/
def ofText (text : String) : Except SyntaxError Query :=
  match parser text with
  | .ok parser => parser.parse.1.mapError .parse
  | .error e => .error e

end Query

end FilterQuery
