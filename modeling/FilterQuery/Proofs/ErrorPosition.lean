import FilterQuery.Proofs.Parsing

/-!
# Where a parse error is

The tokens of a derivation are a **sentence**, whether or not the derivation fits its operators. An
error of the parser describes a token and gives its index. The tokens in front of that one can be
completed to a sentence, but not together with it (`parse_ofTokens_eq_unexpected`): the error is at
the first token that is impossible.

* **States.** A state of the parser is **continued** by the tokens that complete what it has read to
  a sentence (`ParseState.ContinuedBy`); only its stage and the number of its open groups matter for
  this. What follows a constraint inside of open groups is a notion of its own (`Grammar.Follows`),
  since a group that is closed is again a constraint of the group around it.
* **Completion.** Every state is continued by some tokens (`exists_continuedBy`): one argument, one
  comparison or a number of closing parentheses will do.
* **Steps.** Reading a token takes it off the front of the tokens that continue the state
  (`continuedBy_next_iff`), and no such tokens start with one at which the parser stops
  (`not_continuedBy_of_stop`). Each stage has its own lemma for each kind of token that it reads.
* **Runs.** Step by step, what continues the start behind the tokens that were read is what
  continues the state in which the parser stops (`exists_of_run_eq_unexpected`).

A description names one token of a text (`Query.Spells.eq_of_describe_eq`), so the error can be told
from its message.
-/

namespace FilterQuery

namespace Grammar

/-!
### Behind a constraint

Of the groups that are open behind a constraint only the number matters for what may follow: each of
them needs its parenthesis.
-/

/-- The tokens complete a sentence behind a constraint that stands in the given number of groups. -/
inductive Follows : Nat → List Token → Prop where
  | done : Follows 0 []
  | close {depth : Nat} {rest : List Token} (h : Follows depth rest) :
      Follows (depth + 1) (.rightParen :: rest)
  | connect {connective : Connective} {depth : Nat} {rest : List Token}
      (connector : Connector connective) (constraint : Constraint) (h : Follows depth rest) :
      Follows depth (connector.token :: (constraint.tokens ++ rest))

/-- The tokens complete a sentence behind alternatives that are complete themselves. -/
inductive Ends : Nat → List Token → Prop where
  | done : Ends 0 []
  | close {depth : Nat} {rest : List Token} (h : Follows depth rest) :
      Ends (depth + 1) (.rightParen :: rest)

variable {depth : Nat} {rest : List Token}

/-- The open groups can be closed at once. -/
theorem exists_follows (depth : Nat) : ∃ rest, Follows depth rest := by
  induction depth with
  | zero => exact ⟨[], .done⟩
  | succ depth ih =>
    obtain ⟨rest, hrest⟩ := ih
    exact ⟨_, .close hrest⟩

/-- A closing parenthesis closes the innermost group. -/
theorem follows_rightParen_iff :
    Follows (depth + 1) (.rightParen :: rest) ↔ Follows depth rest := by
  constructor
  · intro h
    generalize htoken : Token.rightParen = token at h
    cases h with
    | close h => exact h
    | connect connector constraint h =>
      have hconnective := connector.connective?_token
      rw [← htoken] at hconnective
      cases hconnective
  · exact .close

/-- Behind a connective a constraint stands, and what may follow it. -/
theorem follows_connector_iff {connective : Connective} (connector : Connector connective) :
    Follows depth (connector.token :: rest) ↔
      ∃ (constraint : Constraint) (behind : List Token),
        rest = constraint.tokens ++ behind ∧ Follows depth behind := by
  constructor
  · intro h
    generalize htoken : connector.token = token at h
    cases h with
    | close h =>
      have hconnective := connector.connective?_token
      rw [htoken] at hconnective
      cases hconnective
    | connect connector' constraint h => exact ⟨constraint, _, rfl, h⟩
  · rintro ⟨constraint, behind, rfl, hbehind⟩
    exact .connect connector constraint hbehind

/-- A conjunction starts with a constraint, behind which its other tokens follow. -/
theorem Conjunction.exists_constraint (conjunction : Conjunction) (h : Follows depth rest) :
    ∃ (constraint : Constraint) (behind : List Token),
      conjunction.tokens ++ rest = constraint.tokens ++ behind ∧ Follows depth behind := by
  cases conjunction with
  | one constraint => exact ⟨constraint, rest, rfl, h⟩
  | more constraint connector others =>
    obtain ⟨next, behind, htokens, hbehind⟩ := others.exists_constraint h
    refine ⟨constraint, connector.token :: (next.tokens ++ behind), ?_, .connect _ _ hbehind⟩
    rw [Conjunction.tokens, List.append_assoc, List.cons_append, htokens]

/-- Alternatives start with a constraint, behind which their other tokens follow. -/
theorem Alternatives.exists_constraint (alternatives : Alternatives) (h : Follows depth rest) :
    ∃ (constraint : Constraint) (behind : List Token),
      alternatives.tokens ++ rest = constraint.tokens ++ behind ∧ Follows depth behind := by
  cases alternatives with
  | one conjunction => exact conjunction.exists_constraint h
  | more conjunction connector others =>
    obtain ⟨next, behind, htokens, hbehind⟩ := others.exists_constraint h
    obtain ⟨constraint, after, htokens', hafter⟩ :=
      conjunction.exists_constraint (.connect connector next hbehind)
    refine ⟨constraint, after, ?_, hafter⟩
    rw [Alternatives.tokens, List.append_assoc, List.cons_append, htokens, htokens']

/-- What follows a constraint makes alternatives of it, up to where their group ends. -/
theorem Follows.exists_alternatives (h : Follows depth rest) (constraint : Constraint) :
    ∃ (alternatives : Alternatives) (behind : List Token),
      constraint.tokens ++ rest = alternatives.tokens ++ behind ∧ Ends depth behind := by
  induction h generalizing constraint with
  | done => exact ⟨.one (.one constraint), [], rfl, .done⟩
  | close h => exact ⟨.one (.one constraint), _, rfl, .close h⟩
  | @connect connective _ _ connector next _ ih =>
    obtain ⟨alternatives, behind, htokens, hbehind⟩ := ih next
    rw [htokens]
    cases connective with
    | and =>
      refine ⟨alternatives.prepend constraint connector, behind, ?_, hbehind⟩
      rw [Alternatives.tokens_prepend, List.append_assoc, List.cons_append]
    | or =>
      refine ⟨.more (.one constraint) connector alternatives, behind, ?_, hbehind⟩
      rw [Alternatives.tokens, Conjunction.tokens, List.append_assoc, List.cons_append]

end Grammar

open Grammar

/-!
### What continues a state

A state is taken for the lists of tokens that complete it to a sentence of the grammar. How many
arguments an operator takes has no part in this, because the parser asks for it when the list is
closed, and its answer is another error.
-/

namespace ParseState

/-- The tokens complete what was read up to the state to a sentence. -/
def ContinuedBy (state : ParseState) (tokens : List Token) : Prop :=
  match state.stage with
  | .constraint => ∃ (constraint : Constraint) (rest : List Token),
      tokens = constraint.tokens ++ rest ∧ Follows state.outer.length rest
  | .selected _ => ∃ (symbol : String) (operands : Operands) (rest : List Token),
      tokens = .operator symbol :: (operands.tokens ++ rest) ∧ Follows state.outer.length rest
  | .compared _ _ => ∃ (operands : Operands) (rest : List Token),
      tokens = operands.tokens ++ rest ∧ Follows state.outer.length rest
  | .value _ _ _ => ∃ (operand : Operand) (operands : List Operand) (rest : List Token),
      tokens = operand.token :: (Operands.restTokens operands ++ .rightParen :: rest) ∧
        Follows state.outer.length rest
  | .listed _ _ _ => ∃ (operands : List Operand) (rest : List Token),
      tokens = Operands.restTokens operands ++ .rightParen :: rest ∧
        Follows state.outer.length rest
  | .constrained => Follows state.outer.length tokens

variable {state next : ParseState} {token : Token} {tokens : List Token}

/-- The start is continued by the sentences. -/
theorem continuedBy_start_iff :
    start.ContinuedBy tokens ↔ ∃ alternatives : Alternatives, alternatives.tokens = tokens := by
  constructor
  · rintro ⟨constraint, rest, rfl, hrest⟩
    obtain ⟨alternatives, behind, htokens, hbehind⟩ := hrest.exists_alternatives constraint
    cases hbehind
    exact ⟨alternatives, by rw [htokens, List.append_nil]⟩
  · rintro ⟨alternatives, rfl⟩
    obtain ⟨constraint, behind, htokens, hbehind⟩ := alternatives.exists_constraint .done
    rw [List.append_nil] at htokens
    exact ⟨constraint, behind, htokens, hbehind⟩

/-- Every state can be completed. -/
theorem exists_continuedBy (state : ParseState) : ∃ tokens, state.ContinuedBy tokens := by
  obtain ⟨stage, group, outer⟩ := state
  obtain ⟨rest, hrest⟩ := exists_follows outer.length
  have operand : Operand := .word "x"
  cases stage with
  | constraint => exact ⟨_, .comparison "x" "==" (.single operand), rest, rfl, hrest⟩
  | selected => exact ⟨_, "==", .single operand, rest, rfl, hrest⟩
  | compared => exact ⟨_, .single operand, rest, rfl, hrest⟩
  | value => exact ⟨_, operand, [], rest, rfl, hrest⟩
  | listed => exact ⟨_, [], rest, rfl, hrest⟩
  | constrained => exact ⟨rest, hrest⟩

/-!
### Reading a token

Each stage reads few kinds of tokens, and for each of them it is known what continues the state
before it in terms of what continues the state behind it. A token of any other kind is in front of
nothing that continues the state.
-/

variable {group : OpenGroup} {outer : List OpenGroup} {selector : String} {op : Operator}
  {values : List String} {awaited : Awaited}

/-- A word before a constraint is its selector. -/
theorem continuedBy_word_iff {text : String} :
    ContinuedBy ⟨.constraint, group, outer⟩ (.word text :: tokens) ↔
      ContinuedBy ⟨.selected text, group, outer⟩ tokens := by
  constructor
  · rintro ⟨constraint, rest, htokens, hrest⟩
    cases constraint with
    | comparison selector symbol operands =>
      obtain ⟨-, rfl⟩ := List.cons.inj htokens
      exact ⟨symbol, operands, rest, rfl, hrest⟩
    | group alternatives => simp [Constraint.tokens] at htokens
  · rintro ⟨symbol, operands, rest, rfl, hrest⟩
    exact ⟨.comparison text symbol operands, rest, rfl, hrest⟩

/-- The alternatives of a group start with a constraint, and end where the group is closed. -/
theorem continuedBy_leftParen_iff :
    ContinuedBy ⟨.constraint, group, outer⟩ (.leftParen :: tokens) ↔
      ContinuedBy ⟨.constraint, .start, group :: outer⟩ tokens := by
  constructor
  · -- the constraint is the group itself, and its alternatives start with a constraint
    rintro ⟨constraint, rest, htokens, hrest⟩
    cases constraint with
    | comparison selector symbol operands => cases htokens
    | group alternatives =>
      obtain ⟨constraint, behind, hinner, hbehind⟩ := alternatives.exists_constraint hrest.close
      refine ⟨constraint, behind, ?_, hbehind⟩
      simpa [Constraint.tokens, ← hinner] using htokens
  · rintro ⟨constraint, rest, rfl, hrest⟩
    obtain ⟨alternatives, behind, htokens, hbehind⟩ := hrest.exists_alternatives constraint
    cases hbehind with
    | close hbehind =>
      refine ⟨.group alternatives, _, ?_, hbehind⟩
      simp [Constraint.tokens, htokens]

/-- Behind a selector an operator is read. -/
theorem continuedBy_operator_iff {symbol : String} :
    ContinuedBy ⟨.selected selector, group, outer⟩ (.operator symbol :: tokens) ↔
      ContinuedBy ⟨.compared selector op, group, outer⟩ tokens := by
  constructor
  · rintro ⟨_, operands, rest, htokens, hrest⟩
    obtain ⟨-, rfl⟩ := List.cons.inj htokens
    exact ⟨operands, rest, rfl, hrest⟩
  · rintro ⟨operands, rest, rfl, hrest⟩
    exact ⟨symbol, operands, rest, rfl, hrest⟩

/-- An argument without parentheses ends the constraint. -/
theorem continuedBy_operand_iff (operand : Operand) {others : OpenGroup} :
    ContinuedBy ⟨.compared selector op, group, outer⟩ (operand.token :: tokens) ↔
      ContinuedBy ⟨.constrained, others, outer⟩ tokens := by
  constructor
  · rintro ⟨operands, rest, htokens, hrest⟩
    have hsingle : (Operands.single operand).tokens ++ tokens = operands.tokens ++ rest := htokens
    obtain ⟨rfl, rfl⟩ := Operands.tokens_append_inj hsingle
    exact hrest
  · intro hrest
    exact ⟨.single operand, tokens, rfl, hrest⟩

/-- A parenthesis behind an operator opens the list of its arguments. -/
theorem continuedBy_listStart_iff :
    ContinuedBy ⟨.compared selector op, group, outer⟩ (.leftParen :: tokens) ↔
      ContinuedBy ⟨.value selector op [], group, outer⟩ tokens := by
  constructor
  · rintro ⟨operands, rest, htokens, hrest⟩
    cases operands with
    | single operand => cases operand <;> cases htokens
    | listed first others =>
      refine ⟨first, others, rest, ?_, hrest⟩
      simpa [Operands.tokens] using htokens
  · rintro ⟨first, others, rest, rfl, hrest⟩
    refine ⟨.listed first others, rest, ?_, hrest⟩
    simp [Operands.tokens]

/-- An argument of a list is read. -/
theorem continuedBy_value_iff (operand : Operand) {next : List String} :
    ContinuedBy ⟨.value selector op values, group, outer⟩ (operand.token :: tokens) ↔
      ContinuedBy ⟨.listed selector op next, group, outer⟩ tokens := by
  constructor
  · rintro ⟨_, operands, rest, htokens, hrest⟩
    obtain ⟨-, rfl⟩ := List.cons.inj htokens
    exact ⟨operands, rest, rfl, hrest⟩
  · rintro ⟨operands, rest, rfl, hrest⟩
    exact ⟨operand, operands, rest, rfl, hrest⟩

/-- A comma in a list leads to its next argument. -/
theorem continuedBy_listed_comma_iff :
    ContinuedBy ⟨.listed selector op values, group, outer⟩ (.comma :: tokens) ↔
      ContinuedBy ⟨.value selector op values, group, outer⟩ tokens := by
  constructor
  · rintro ⟨operands, rest, htokens, hrest⟩
    cases operands with
    | nil => cases htokens
    | cons operand operands =>
      obtain ⟨-, rfl⟩ := List.cons.inj htokens
      exact ⟨operand, operands, rest, rfl, hrest⟩
  · rintro ⟨operand, operands, rest, rfl, hrest⟩
    exact ⟨operand :: operands, rest, rfl, hrest⟩

/-- A closing parenthesis ends the list, however many arguments it has. -/
theorem continuedBy_listed_rightParen_iff {others : OpenGroup} :
    ContinuedBy ⟨.listed selector op values, group, outer⟩ (.rightParen :: tokens) ↔
      ContinuedBy ⟨.constrained, others, outer⟩ tokens := by
  constructor
  · rintro ⟨operands, rest, htokens, hrest⟩
    cases operands with
    | nil =>
      obtain ⟨-, rfl⟩ := List.cons.inj htokens
      exact hrest
    | cons operand operands => cases htokens
  · intro hrest
    exact ⟨[], tokens, rfl, hrest⟩

/-- **A step.** A token that is read is taken off the front of what continues the state. -/
theorem continuedBy_next_iff (h : state.step token = .next next) :
    state.ContinuedBy (token :: tokens) ↔ next.ContinuedBy tokens := by
  -- the cases are the stages; at each of them only the tokens that are read give a next state
  obtain ⟨stage, group, outer⟩ := state
  cases stage with
  | constraint =>
    cases token with
    | word text =>
      cases h
      exact continuedBy_word_iff
    | leftParen =>
      cases h
      exact continuedBy_leftParen_iff
    | _ => cases h
  | selected selector =>
    cases token with
    | operator symbol =>
      cases h
      exact continuedBy_operator_iff
    | _ => cases h
  | compared selector op =>
    cases token with
    | word text =>
      cases h
      exact continuedBy_operand_iff (.word text)
    | quoted text =>
      cases h
      exact continuedBy_operand_iff (.quoted text)
    | leftParen =>
      cases h
      exact continuedBy_listStart_iff
    | _ => cases h
  | value selector op values =>
    cases token with
    | word text =>
      cases h
      exact continuedBy_value_iff (.word text)
    | quoted text =>
      cases h
      exact continuedBy_value_iff (.quoted text)
    | _ => cases h
  | listed selector op values =>
    cases token with
    | comma =>
      cases h
      exact continuedBy_listed_comma_iff
    | rightParen =>
      simp only [step] at h
      split at h <;> cases h
      exact continuedBy_listed_rightParen_iff
    | _ => cases h
  -- behind a constraint comes a connective or the parenthesis that closes the group
  | constrained =>
    simp only [step, connect] at h
    split at h
    · next hand =>
      obtain ⟨connector, rfl⟩ := Connector.exists_of_connective? hand
      cases h
      exact follows_connector_iff connector
    · next hor =>
      obtain ⟨connector, rfl⟩ := Connector.exists_of_connective? hor
      cases h
      exact follows_connector_iff connector
    · split at h <;> cases h
      exact follows_rightParen_iff

/-- **Stopping.** Nothing that continues the state starts with a token at which the parser stops,
be it the end of input. -/
theorem not_continuedBy_of_stop (h : state.step token = .stop awaited)
    {continuation rest : List Token} (hfront : continuation ++ [.endOfInput] = token :: rest) :
    ¬ state.ContinuedBy continuation := by
  obtain ⟨stage, group, outer⟩ := state
  -- what continues the state starts with a token that its stage reads, so no case is left
  intro hcontinued
  cases stage with
  | constraint =>
    obtain ⟨constraint, behind, rfl, -⟩ := hcontinued
    cases constraint <;> cases hfront <;> cases h
  | selected selector =>
    obtain ⟨symbol, operands, behind, rfl, -⟩ := hcontinued
    cases hfront
    cases h
  | compared selector op =>
    obtain ⟨operands, behind, rfl, -⟩ := hcontinued
    cases operands with
    | single operand => cases operand <;> cases hfront <;> cases h
    | listed first others =>
      cases hfront
      cases h
  | value selector op values =>
    obtain ⟨operand, operands, behind, rfl, -⟩ := hcontinued
    cases operand <;> cases hfront <;> cases h
  | listed selector op values =>
    obtain ⟨operands, behind, rfl, -⟩ := hcontinued
    cases operands with
    | nil =>
      cases hfront
      simp only [step] at h
      split at h <;> cases h
    | cons operand operands =>
      cases hfront
      cases h
  | constrained =>
    -- the depth is a number here, so that the cases of `Follows` can be taken
    change Follows outer.length continuation at hcontinued
    generalize hdepth : outer.length = depth at hcontinued
    cases hcontinued with
    | done =>
      obtain rfl := List.length_eq_zero_iff.mp hdepth
      cases hfront
      cases h
    | close _ =>
      obtain ⟨around, others, rfl⟩ := List.exists_cons_of_length_eq_add_one hdepth
      cases hfront
      cases h
    | connect connector constraint _ =>
      cases hfront
      rw [Parser.step_connector] at h
      cases h

/-- The end of input is never read. -/
theorem step_endOfInput_ne_next : state.step .endOfInput ≠ .next next := by
  obtain ⟨stage, group, outer⟩ := state
  intro h
  cases stage with
  | constrained => cases outer <;> cases h
  | _ => cases h

end ParseState

/-! ### The token of an error -/

namespace Parser

variable {state : ParseState} {tokens : List Token} {awaited : Awaited}
  {token found : Token} {start index : Nat}

/-- An error is at the first token if the parser stops there, and otherwise behind it. -/
theorem run_cons_eq_unexpected
    (h : (run state start (token :: tokens)).1 = .error (.unexpected awaited found index)) :
    (∃ next, state.step token = .next next ∧
      (run next (start + 1) tokens).1 = .error (.unexpected awaited found index)) ∨
    (state.step token = .stop awaited ∧ found = token ∧ index = start) := by
  rw [run] at h
  cases hstep : state.step token with
  | next next =>
    rw [hstep] at h
    exact .inl ⟨next, rfl, h⟩
  | accept query =>
    rw [hstep] at h
    cases h
  | stop awaited =>
    rw [hstep] at h
    cases h
    exact .inr ⟨rfl, rfl, rfl⟩
  | refuse op selector =>
    rw [hstep] at h
    cases h

/-- **A run.** The parser stops at the token that the error names, and what continues the state it
stops in, behind the tokens that were read, is what continues the first state. -/
theorem exists_of_run_eq_unexpected
    (h : (run state start (tokens ++ [.endOfInput])).1 =
      .error (.unexpected awaited found index)) :
    ∃ (read rest : List Token) (stopped : ParseState),
      tokens ++ [.endOfInput] = read ++ found :: rest ∧ index = start + read.length ∧
      stopped.step found = .stop awaited ∧
      ∀ continuation,
        state.ContinuedBy (read ++ continuation) ↔ stopped.ContinuedBy continuation := by
  -- each token that is read leaves fewer tokens behind it
  induction tokens generalizing state start with
  | nil =>
    obtain ⟨next, hstep, -⟩ | ⟨hstop, rfl, rfl⟩ := run_cons_eq_unexpected h
    · exact absurd hstep ParseState.step_endOfInput_ne_next
    · exact ⟨[], [], state, rfl, rfl, hstop, fun _ => Iff.rfl⟩
  | cons token tokens ih =>
    obtain ⟨next, hstep, hnext⟩ | ⟨hstop, rfl, rfl⟩ := run_cons_eq_unexpected h
    · obtain ⟨read, rest, stopped, htokens, rfl, hstop, hcontinued⟩ := ih hnext
      refine ⟨token :: read, rest, stopped, by simp [htokens], ?_, hstop, fun continuation => ?_⟩
      · rw [List.length_cons]
        omega
      · rw [← hcontinued, List.cons_append, ParseState.continuedBy_next_iff hstep]
    · exact ⟨[], tokens ++ [.endOfInput], state, rfl, rfl, hstop, fun _ => Iff.rfl⟩

/-- **Errors are at the first impossible token.** An error describes a token and gives its index.
The tokens in front of this one start a sentence of the grammar, whether it fits its operators or
not; together with it they start none. -/
theorem parse_ofTokens_eq_unexpected
    (h : (ofTokens (tokens ++ [.endOfInput])).parse.1 =
      .error (.unexpected awaited found index)) :
    (∃ description, found.IsDescribedBy description ∧
      (ParseError.unexpected awaited found index).detail = "expected " ++ awaited.describe ++
        " but found " ++ description ++ " at token " ++ String.ofList (digitsOf index)) ∧
    (tokens ++ [Token.endOfInput])[index]? = some found ∧
    (∃ alternatives : Alternatives,
      (tokens ++ [Token.endOfInput]).take index <+: alternatives.tokens) ∧
    ∀ alternatives : Alternatives,
      ¬ (tokens ++ [Token.endOfInput]).take (index + 1) <+:
        alternatives.tokens ++ [.endOfInput] := by
  have hrun : (run .start 0 (tokens ++ [.endOfInput])).1 =
      .error (.unexpected awaited found index) := by
    unfold parse at h
    split at h
    · cases h
    · cases h
    · exact h
  obtain ⟨read, rest, stopped, htokens, hindex, hstop, hcontinued⟩ :=
    exists_of_run_eq_unexpected hrun
  rw [Nat.zero_add] at hindex
  subst hindex
  rw [htokens]
  refine ⟨⟨found.describe, Token.isDescribedBy_iff.mpr rfl, rfl⟩, by simp, ?_,
    fun alternatives => ?_⟩
  · obtain ⟨continuation, hstopped⟩ := stopped.exists_continuedBy
    obtain ⟨alternatives, halternatives⟩ :=
      ParseState.continuedBy_start_iff.mp ((hcontinued continuation).mpr hstopped)
    refine ⟨alternatives, continuation, ?_⟩
    rw [halternatives, List.take_left]
  · rintro ⟨behind, hbehind⟩
    have hsplit : alternatives.tokens ++ [Token.endOfInput] = read ++ found :: behind := by
      rw [← hbehind, List.take_length_add_append]
      simp
    -- the sentence is at least as long as what was read
    obtain ⟨continuation, halternatives, hfront⟩ : ∃ continuation,
        alternatives.tokens = read ++ continuation ∧
        continuation ++ [Token.endOfInput] = found :: behind := by
      rcases List.append_eq_append_iff.mp hsplit with
        ⟨between, hread, hend⟩ | ⟨between, hread, hend⟩
      · cases between with
        | nil => exact ⟨[], by simpa using hread.symm, by simpa using hend⟩
        | cons token between => simp at hend
      · exact ⟨between, hread, hend.symm⟩
    have hstart := ParseState.continuedBy_start_iff.mpr ⟨alternatives, rfl⟩
    rw [halternatives, hcontinued] at hstart
    exact ParseState.not_continuedBy_of_stop hstop hfront hstart

/-- A word behind an argument in parentheses is impossible, though a second argument was read in
front of it and the operator takes one. -/
theorem parse_ofTokens_eq_unexpected_listed :
    (ofTokens ([.leftParen, .word "a", .operator "==", .leftParen, .word "b", .comma, .quoted "c",
        .word "d", .rightParen] ++ [.endOfInput])).parse.1 =
      .error (.unexpected .closing (.word "d") 7) ∧
    (∃ alternatives : Alternatives,
      [.leftParen, .word "a", .operator "==", .leftParen, .word "b", .comma, .quoted "c"] <+:
        alternatives.tokens) ∧
    ∀ alternatives : Alternatives,
      ¬ [.leftParen, .word "a", .operator "==", .leftParen, .word "b", .comma, .quoted "c",
        .word "d"] <+: alternatives.tokens ++ [.endOfInput] := by
  have herror : (ofTokens ([.leftParen, .word "a", .operator "==", .leftParen, .word "b", .comma,
      .quoted "c", .word "d", .rightParen] ++ [.endOfInput])).parse.1 =
        .error (.unexpected .closing (.word "d") 7) := rfl
  exact ⟨herror, (parse_ofTokens_eq_unexpected herror).2.2⟩

end Parser

end FilterQuery
