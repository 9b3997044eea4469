import FilterQuery.Proofs.Grammar
import FilterQuery.Query.Parser

/-!
# The parser accepts the grammar

The parser is a machine that takes one token at a time and has a stack of open groups. It accepts
the tokens of derivations and nothing else, and its result is the normal form of the tree
(`parse_ofTokens_eq_ok_iff`).

* **Groups.** An open group has the constraints of its current alternative and the alternatives in
  front of it. Reading a derivation adds the normal forms of its parts to the group, and a group
  that is closed is the normal form of all that it has read (`OpenGroup.close_read`).
* **Derivations are read.** From a state of the parser, the tokens of a derivation lead to the state
  after the query of the derivation, whatever follows them (`run_alternatives`). There is a lemma
  for each kind of derivation, by one induction over all of them.
* **What is accepted is a derivation.** Conversely, tokens that are accepted from a state before a
  constraint start with the tokens of a derivation (`exists_alternatives`). This goes by the length
  of the tokens: a derivation inside of a group is read from fewer tokens than the group.
* **Operators.** That an operator takes the arguments that follow it is checked when a list of them
  is closed. So it is the closing parenthesis whose step needs `Operator.TakesMany`.

The machine has a single result on any list of tokens, so the derivation is unique as far as its
tokens are, which is shown with the grammar.
-/

namespace FilterQuery

open Grammar

/-!
### Groups of derivations

An open group has its members in the order in which they can be taken off again, the latest first,
while a derivation has them in the order of the text. What a group becomes behind a part of a
derivation is therefore a definition, and its closing gives the normal form of the tree.
-/

namespace OpenGroup

/-- The group behind a conjunction. -/
def readConjunction (group : OpenGroup) (conjunction : Conjunction) : OpenGroup :=
  ⟨group.alternatives, (conjunction.members.map Query.normalize).reverse ++ group.constraints⟩

/-- The group behind some alternatives, of which the first continues the current one. -/
def read (group : OpenGroup) : Alternatives → OpenGroup
  | .one conjunction => group.readConjunction conjunction
  | .more conjunction _ rest => (group.readConjunction conjunction).nextAlternative.read rest

theorem readConjunction_more (group : OpenGroup) (constraint : Constraint)
    (connector : Connector .and) (rest : Conjunction) :
    group.readConjunction (.more constraint connector rest) =
      (group.add constraint.tree.normalize).readConjunction rest := by
  simp [readConjunction, add, Conjunction.members]

theorem read_prepend (group : OpenGroup) (constraint : Constraint) (connector : Connector .and)
    (alternatives : Alternatives) : group.read (alternatives.prepend constraint connector) =
      (group.add constraint.tree.normalize).read alternatives := by
  cases alternatives <;> simp [Alternatives.prepend, read, readConjunction_more]

/-- Behind a conjunction, its normal form is an alternative of the group. -/
theorem nextAlternative_readConjunction (before : List Query) (conjunction : Conjunction) :
    ((OpenGroup.mk before []).readConjunction conjunction).nextAlternative =
      ⟨conjunction.tree.normalize :: before, []⟩ := by
  have hjoin : Query.join .and (conjunction.members.map Query.normalize) =
      (Query.group .and conjunction.members).normalize :=
    Query.join_map_normalize conjunction.isNormal_normalize
  have hand : Query.joinAnd (conjunction.members.map Query.normalize) =
      conjunction.tree.normalize := hjoin
  simp [nextAlternative, readConjunction, hand]

/-- Behind alternatives, their normal forms are those of the group, the latest first. -/
theorem nextAlternative_read (before : List Query) (alternatives : Alternatives) :
    ((OpenGroup.mk before []).read alternatives).nextAlternative =
      ⟨(alternatives.members.map Query.normalize).reverse ++ before, []⟩ := by
  cases alternatives with
  | one conjunction => exact nextAlternative_readConjunction before conjunction
  | more conjunction connector rest =>
    rw [read, nextAlternative_readConjunction, nextAlternative_read _ rest, Alternatives.members,
      List.map_cons, List.reverse_cons, List.append_assoc, List.singleton_append]
    rfl

/-- The query of a closed group is the normal form of what it read. -/
theorem close_read (alternatives : Alternatives) :
    (start.read alternatives).close = alternatives.tree.normalize := by
  have hjoin : Query.join .or (alternatives.members.map Query.normalize) =
      (Query.group .or alternatives.members).normalize :=
    Query.join_map_normalize alternatives.isNormal_normalize
  rw [close, start, nextAlternative_read, List.append_nil, List.reverse_reverse]
  exact hjoin

end OpenGroup

/-!
### Derivations are read

Here the tokens are given by a derivation, and the induction is over it: each part is read in any
open group and with any tokens behind it.
-/

namespace Parser

variable {group : OpenGroup} {outer : List OpenGroup} {index : Nat} {rest : List Token}

theorem run_next {state next : ParseState} {token : Token} (h : state.step token = .next next) :
    run state index (token :: rest) = run next (index + 1) rest := by
  rw [run, h]

/-- An operator that takes one value has no list of several behind it. -/
theorem run_restTokens {selector : String} {op : Operator} {values : List String}
    {operands : List Operand}
    (hfits : op.TakesMany ∨ values.length + operands.length = 1) :
    run ⟨.listed selector op values, group, outer⟩ index
        (Operands.restTokens operands ++ .rightParen :: rest) =
      run ⟨.constrained, group.add (.comparison ⟨selector, op,
          values.reverse ++ operands.map Operand.text⟩), outer⟩
        (index + (Operands.restTokens operands).length + 1) rest := by
  -- the values of the state grow by what the operands that are left lose
  induction operands generalizing values index with
  | nil =>
    have hlength : (decide (1 < values.length) && !op.isMultiValue) = false := by
      rcases hfits with hmany | hone
      · rw [Operator.isMultiValue_iff.mpr hmany, Bool.not_true, Bool.and_false]
      · rw [List.length_nil, Nat.add_zero] at hone
        rw [hone]
        rfl
    have hclose : ParseState.step ⟨.listed selector op values, group, outer⟩ .rightParen =
        .next ⟨.constrained, group.add (.comparison ⟨selector, op, values.reverse⟩), outer⟩ := by
      simp [ParseState.step, ParseState.constrained, hlength]
    rw [Operands.restTokens, List.flatMap_nil, List.nil_append, run_next hclose]
    simp
  | cons operand operands ih =>
    have hoperand : ParseState.step ⟨.value selector op values, group, outer⟩ operand.token =
        .next ⟨.listed selector op (operand.text :: values), group, outer⟩ := by
      cases operand <;> rfl
    have hrest : Operands.restTokens (operand :: operands) ++ .rightParen :: rest =
        .comma :: operand.token :: (Operands.restTokens operands ++ .rightParen :: rest) := rfl
    have hone : op.TakesMany ∨ (operand.text :: values).length + operands.length = 1 :=
      hfits.imp_right fun h => by simp only [List.length_cons] at h ⊢; omega
    have hlength : (Operands.restTokens (operand :: operands)).length =
        (Operands.restTokens operands).length + 2 := rfl
    rw [hrest, run_next rfl, run_next hoperand, ih hone, hlength, List.reverse_cons,
      List.append_assoc, List.map_cons, List.singleton_append]
    congr 1
    omega

/-- The arguments of an operator that takes them are read into a comparison. -/
theorem run_operands {selector : String} {op : Operator} {operands : Operands}
    (hfits : op.TakesMany ∨ operands.texts.length = 1) :
    run ⟨.compared selector op, group, outer⟩ index (operands.tokens ++ rest) =
      run ⟨.constrained, group.add (.comparison ⟨selector, op, operands.texts⟩), outer⟩
        (index + operands.tokens.length) rest := by
  cases operands with
  | single operand =>
    refine run_next ?_
    cases operand <;> rfl
  | listed first others =>
    have hfirst : ParseState.step ⟨.value selector op [], group, outer⟩ first.token =
        .next ⟨.listed selector op [first.text], group, outer⟩ := by
      cases first <;> rfl
    have htokens : (Operands.listed first others).tokens ++ rest =
        .leftParen :: first.token :: (Operands.restTokens others ++ .rightParen :: rest) := by
      simp [Operands.tokens]
    have hlength : (Operands.listed first others).tokens.length =
        (Operands.restTokens others).length + 3 := by
      simp [Operands.tokens]
    have hone : op.TakesMany ∨ [first.text].length + others.length = 1 :=
      hfits.imp_right fun h => by simpa [Operands.texts] using h
    rw [htokens, run_next rfl, run_next hfirst, run_restTokens hone, hlength]
    congr 1
    omega

theorem step_connector {connective : Connective} (connector : Connector connective) :
    ParseState.step ⟨.constrained, group, outer⟩ connector.token =
      .next ⟨.constraint, match connective with
        | .and => group
        | .or => group.nextAlternative, outer⟩ := by
  simp only [ParseState.step, ParseState.connect, connector.connective?_token]
  cases connective <;> rfl

mutual

/-- The tokens of a constraint add its normal form to the group. -/
theorem run_constraint (constraint : Constraint) (hfits : constraint.Fits) (group : OpenGroup)
    (outer : List OpenGroup) (index : Nat) (rest : List Token) :
    run ⟨.constraint, group, outer⟩ index (constraint.tokens ++ rest) =
      run ⟨.constrained, group.add constraint.tree.normalize, outer⟩
        (index + constraint.tokens.length) rest := by
  match constraint with
  | .comparison selector symbol operands =>
    rw [Constraint.tokens, List.cons_append, List.cons_append, run_next rfl, run_next rfl,
      run_operands hfits, List.length_cons, List.length_cons]
    congr 1
    omega
  | .group alternatives =>
    -- the alternatives are read into a group of their own, which the closing parenthesis adds
    have htokens : (Constraint.group alternatives).tokens ++ rest =
        .leftParen :: (alternatives.tokens ++ .rightParen :: rest) := by
      simp [Constraint.tokens]
    have hlength : (Constraint.group alternatives).tokens.length =
        alternatives.tokens.length + 2 := by
      simp [Constraint.tokens]
    rw [htokens, run_next rfl, run_alternatives alternatives hfits, run_next rfl,
      OpenGroup.close_read, hlength]
    congr 1
    omega

/-- The tokens of a conjunction add its members to the group. -/
theorem run_conjunction (conjunction : Conjunction) (hfits : conjunction.Fits)
    (group : OpenGroup) (outer : List OpenGroup) (index : Nat) (rest : List Token) :
    run ⟨.constraint, group, outer⟩ index (conjunction.tokens ++ rest) =
      run ⟨.constrained, group.readConjunction conjunction, outer⟩
        (index + conjunction.tokens.length) rest := by
  match conjunction with
  | .one constraint => exact run_constraint constraint hfits group outer index rest
  | .more constraint connector others =>
    rw [Conjunction.tokens, List.append_assoc, List.cons_append,
      run_constraint constraint hfits.1, run_next (step_connector connector),
      run_conjunction others hfits.2, OpenGroup.readConjunction_more, List.length_append,
      List.length_cons]
    congr 1
    omega

/-- The tokens of alternatives are read into the group. -/
theorem run_alternatives (alternatives : Alternatives) (hfits : alternatives.Fits)
    (group : OpenGroup) (outer : List OpenGroup) (index : Nat) (rest : List Token) :
    run ⟨.constraint, group, outer⟩ index (alternatives.tokens ++ rest) =
      run ⟨.constrained, group.read alternatives, outer⟩
        (index + alternatives.tokens.length) rest := by
  match alternatives with
  | .one conjunction => exact run_conjunction conjunction hfits group outer index rest
  | .more conjunction connector others =>
    rw [Alternatives.tokens, List.append_assoc, List.cons_append,
      run_conjunction conjunction hfits.1, run_next (step_connector connector),
      run_alternatives others hfits.2, List.length_append, List.length_cons]
    congr 1
    omega

end

/-!
### What is accepted is a derivation

Here the tokens are given by a run that succeeds, and the derivation is found. The induction is on
the number of tokens, because a stage comes back to itself in the inner groups and behind the
connectors, but with fewer tokens.
-/

/-- The parser accepts the tokens from a state on, and its result is the query. -/
inductive Accepts (query : Query) : ParseState → List Token → Prop where
  | accept {state : ParseState} {token : Token} {tokens : List Token}
      (hstep : state.step token = .accept query) : Accepts query state (token :: tokens)
  | next {state next : ParseState} {token : Token} {tokens : List Token}
      (hstep : state.step token = .next next) (h : Accepts query next tokens) :
      Accepts query state (token :: tokens)

variable {tokens : List Token} {query : Query} {selector : String} {op : Operator}
  {values : List String}

/-- A run that succeeds accepts its tokens. -/
theorem accepts_of_run {state : ParseState} (h : (run state index tokens).1 = .ok query) :
    Accepts query state tokens := by
  induction tokens generalizing state index with
  | nil => cases h
  -- only a token that is read, or the end, keeps the run going
  | cons token tokens ih =>
    rw [run] at h
    cases hstep : state.step token with
    | next next =>
      rw [hstep] at h
      exact .next hstep (ih h)
    | accept accepted =>
      rw [hstep] at h
      cases h
      exact .accept hstep
    | stop awaited =>
      rw [hstep] at h
      cases h
    | refuse op selector =>
      rw [hstep] at h
      cases h

/-- A query is accepted at the end of input, behind a constraint and in no group. -/
theorem of_step_eq_accept {state : ParseState} {token : Token}
    (h : state.step token = .accept query) : state.stage = .constrained ∧ state.outer = [] ∧
      token.connective? = none ∧ token = .endOfInput ∧ query = state.group.close := by
  obtain ⟨stage, group, outer⟩ := state
  -- behind a constraint there are four tokens to tell apart; in no other stage is a query given
  cases stage
  case constrained =>
    simp only [ParseState.step, ParseState.connect] at h
    split at h
    · cases h
    · cases h
    · next hnone =>
      split at h
      · cases h
        exact ⟨rfl, rfl, hnone, rfl, rfl⟩
      · cases h
      · cases h
      · cases h
  case listed =>
    cases token <;> simp only [ParseState.step, reduceCtorEq] at h
    split at h <;> cases h
  all_goals cases token <;> cases h

/-- Inside a constraint or a group, parsing goes on with the next token. -/
theorem Accepts.exists_next {state : ParseState} (h : Accepts query state tokens)
    (hinside : state.stage ≠ .constrained ∨ state.outer ≠ []) :
    ∃ token rest next, tokens = token :: rest ∧ state.step token = .next next ∧
      Accepts query next rest := by
  cases h with
  | accept hstep =>
    obtain ⟨hstage, houter, -⟩ := of_step_eq_accept hstep
    rcases hinside with hinside | hinside
    · exact absurd hstage hinside
    · exact absurd houter hinside
  | next hstep h => exact ⟨_, _, _, rfl, hstep, h⟩

/-- Before a value in parentheses, an argument is read. -/
theorem exists_operand (h : Accepts query ⟨.value selector op values, group, outer⟩ tokens) :
    ∃ operand rest, tokens = Operand.token operand :: rest ∧
      Accepts query ⟨.listed selector op (operand.text :: values), group, outer⟩ rest := by
  obtain ⟨token, rest, next, rfl, hstep, h⟩ := h.exists_next (.inl (by simp))
  cases token with
  | word text =>
    cases hstep
    exact ⟨.word text, _, rfl, h⟩
  | quoted text =>
    cases hstep
    exact ⟨.quoted text, _, rfl, h⟩
  | _ => cases hstep

/-- Behind a value in parentheses, a list of arguments is read up to its end. -/
theorem exists_restTokens (hvalues : values ≠ [])
    (h : Accepts query ⟨.listed selector op values, group, outer⟩ tokens) :
    ∃ operands rest, (op.TakesMany ∨ values.length + operands.length = 1) ∧
      tokens = Operands.restTokens operands ++ .rightParen :: rest ∧
      Accepts query ⟨.constrained, group.add (.comparison ⟨selector, op,
        values.reverse ++ operands.map Operand.text⟩), outer⟩ rest := by
  -- each round takes a comma and an argument off the tokens
  induction hlength : tokens.length using Nat.strongRecOn generalizing tokens values with
  | ind n ih =>
    obtain ⟨token, rest, next, rfl, hstep, h⟩ := h.exists_next (.inl (by simp))
    cases token with
    | comma =>
      cases hstep
      obtain ⟨operand, others, rfl, hlisted⟩ := exists_operand h
      have hlt : others.length < n := by
        rw [← hlength]
        simp only [List.length_cons]
        omega
      obtain ⟨operands, behind, hfits, rfl, hbehind⟩ :=
        ih _ hlt (List.cons_ne_nil _ _) hlisted rfl
      refine ⟨operand :: operands, behind, hfits.imp_right fun hone => ?_, rfl,
        by simpa using hbehind⟩
      simp only [List.length_cons] at hone ⊢
      omega
    | rightParen =>
      simp only [ParseState.step] at hstep
      split at hstep
      · cases hstep
      · next hfits =>
        cases hstep
        have hpos := List.length_pos_iff.mpr hvalues
        refine ⟨[], rest, ?_, rfl, by simpa using h⟩
        simp only [Bool.and_eq_true, decide_eq_true_eq, Bool.not_eq_true', not_and,
          Bool.not_eq_false] at hfits
        by_cases hone : 1 < values.length
        · exact .inl (Operator.isMultiValue_iff.mp (hfits hone))
        · exact .inr (by rw [List.length_nil]; omega)
    | _ => cases hstep

/-- Behind an operator, the arguments are read. -/
theorem exists_operands (h : Accepts query ⟨.compared selector op, group, outer⟩ tokens) :
    ∃ operands rest, (op.TakesMany ∨ (Operands.texts operands).length = 1) ∧
      tokens = operands.tokens ++ rest ∧
      Accepts query ⟨.constrained, group.add (.comparison ⟨selector, op, operands.texts⟩), outer⟩
        rest := by
  obtain ⟨token, rest, next, rfl, hstep, h⟩ := h.exists_next (.inl (by simp))
  cases token with
  | word text =>
    cases hstep
    exact ⟨.single (.word text), rest, .inr rfl, rfl, h⟩
  | quoted text =>
    cases hstep
    exact ⟨.single (.quoted text), rest, .inr rfl, rfl, h⟩
  | leftParen =>
    cases hstep
    obtain ⟨first, listed, rfl, hlisted⟩ := exists_operand h
    obtain ⟨others, behind, hfits, rfl, hbehind⟩ :=
      exists_restTokens (List.cons_ne_nil _ _) hlisted
    -- the values of the list are the first one and the others, so one value means no others
    refine ⟨.listed first others, behind, hfits.imp_right fun hone => ?_, ?_, hbehind⟩
    · simpa [Operands.texts] using hone
    · simp [Operands.tokens]
  | _ => cases hstep

/-- Before a constraint, a comparison is read, or a group if alternatives are read in it. -/
theorem exists_constraint
    (hgroup : ∀ {tokens' : List Token}, tokens'.length < tokens.length →
      Accepts query ⟨.constraint, .start, group :: outer⟩ tokens' →
      ∃ alternatives rest, Alternatives.Fits alternatives ∧ tokens' = alternatives.tokens ++ rest ∧
        (∀ connective, NotBefore connective rest) ∧
        Accepts query ⟨.constrained, OpenGroup.start.read alternatives, group :: outer⟩ rest)
    (h : Accepts query ⟨.constraint, group, outer⟩ tokens) :
    ∃ constraint rest, Constraint.Fits constraint ∧ tokens = constraint.tokens ++ rest ∧
      Accepts query ⟨.constrained, group.add constraint.tree.normalize, outer⟩ rest := by
  obtain ⟨token, rest, next, rfl, hstep, h⟩ := h.exists_next (.inl (by simp))
  cases token with
  | word text =>
    cases hstep
    obtain ⟨token, rest, next, rfl, hstep, h⟩ := h.exists_next (.inl (by simp))
    cases token with
    | operator symbol =>
      cases hstep
      obtain ⟨operands, behind, hfits, rfl, hbehind⟩ := exists_operands h
      exact ⟨.comparison text symbol operands, behind, hfits, rfl, hbehind⟩
    | _ => cases hstep
  | leftParen =>
    cases hstep
    obtain ⟨alternatives, behind, hfits, rfl, hnot, hbehind⟩ := hgroup (by simp) h
    obtain ⟨token, behind, next, rfl, hstep, hnext⟩ := hbehind.exists_next (.inr (by simp))
    -- no connector is left, so the next token has to close the group
    simp only [ParseState.step, ParseState.connect, connective?_eq_none hnot] at hstep
    cases token with
    | rightParen =>
      cases hstep
      refine ⟨.group alternatives, behind, hfits, by simp [Constraint.tokens], ?_⟩
      exact OpenGroup.close_read alternatives ▸ hnext
    | _ => cases hstep
  | _ => cases hstep

/-- Before a constraint, alternatives are read as far as there are connectors. -/
theorem exists_alternatives (h : Accepts query ⟨.constraint, group, outer⟩ tokens) :
    ∃ alternatives rest, Alternatives.Fits alternatives ∧ tokens = alternatives.tokens ++ rest ∧
      (∀ connective, NotBefore connective rest) ∧
      Accepts query ⟨.constrained, group.read alternatives, outer⟩ rest := by
  -- the same statement is needed behind a parenthesis and behind a connector, for fewer tokens
  induction hlength : tokens.length using Nat.strongRecOn generalizing tokens group outer with
  | ind n ih =>
    obtain ⟨constraint, rest, hfits, rfl, hrest⟩ :=
      exists_constraint (fun hlt hinner => ih _ (hlength ▸ hlt) hinner rfl) h
    have hshorter : ∀ {token : Token} {behind : List Token}, rest = token :: behind →
        behind.length < n := by
      rintro token behind rfl
      rw [← hlength, List.length_append, List.length_cons]
      omega
    cases hrest with
    | @accept _ token behind hstep =>
      refine ⟨.one (.one constraint), token :: behind, hfits, rfl, ?_, .accept hstep⟩
      intro connective found hfound
      cases hfound
      simp [(of_step_eq_accept hstep).2.2.1]
    | @next _ _ token behind hstep hnext =>
      cases hconnective : token.connective? with
      | none =>
        refine ⟨.one (.one constraint), token :: behind, hfits, rfl, ?_, .next hstep hnext⟩
        intro connective found hfound
        cases hfound
        simp [hconnective]
      | some connective =>
        obtain ⟨connector, rfl⟩ := Connector.exists_of_connective? hconnective
        rw [step_connector] at hstep
        cases hstep
        obtain ⟨alternatives, after, hfits', rfl, hnot, hafter⟩ := ih _ (hshorter rfl) hnext rfl
        cases connective with
        | and =>
          -- the constraint belongs to the first of the alternatives that follow
          refine ⟨alternatives.prepend constraint connector, after, ?_, ?_, hnot, ?_⟩
          · exact Alternatives.fits_prepend hfits hfits'
          · simp [Alternatives.tokens_prepend]
          · rwa [OpenGroup.read_prepend]
        | or =>
          refine ⟨.more (.one constraint) connector alternatives, after, ⟨hfits, hfits'⟩, ?_, hnot,
            hafter⟩
          simp [Alternatives.tokens, Conjunction.tokens]

/-! ### The language of the parser -/

/-- The end of input is where it was found. -/
theorem eq_of_append_endOfInput {first rest : List Token} (hend : Token.endOfInput ∉ tokens)
    (h : tokens ++ [.endOfInput] = first ++ .endOfInput :: rest) : first = tokens := by
  obtain ⟨between, rfl, hbetween⟩ | ⟨between, rfl, hbetween⟩ := List.append_eq_append_iff.mp h
  · cases between with
    | nil => exact List.append_nil tokens
    | cons token between => simp at hbetween
  · cases between with
    | nil => exact (List.append_nil first).symm
    | cons token between =>
      obtain ⟨rfl, -⟩ := List.cons.inj hbetween
      exact absurd (List.mem_append_right first List.mem_cons_self) hend

/-- Parsing is a run of the machine unless there are no tokens. -/
theorem parse_ofTokens_of_ne_nil (hne : tokens ≠ []) (hend : Token.endOfInput ∉ tokens) :
    (Parser.ofTokens (tokens ++ [.endOfInput])).parse =
      run .start 0 (tokens ++ [.endOfInput]) := by
  obtain ⟨token, rest, rfl⟩ := List.exists_cons_of_ne_nil hne
  cases token with
  | endOfInput => exact absurd List.mem_cons_self hend
  | _ => rfl

/-- The tokens of a derivation that fits its operators are parsed as its normal form. -/
theorem parse_tokens {alternatives : Alternatives} (hfits : alternatives.Fits)
    (hend : Token.endOfInput ∉ alternatives.tokens) :
    (Parser.ofTokens (alternatives.tokens ++ [.endOfInput])).parse.1 =
      .ok alternatives.tree.normalize := by
  rw [parse_ofTokens_of_ne_nil alternatives.tokens_ne_nil hend, ParseState.start,
    run_alternatives alternatives hfits, run]
  simp only [ParseState.step, ParseState.connect]
  exact congrArg Except.ok (OpenGroup.close_read alternatives)

/-- Tokens that are parsed are those of a derivation, and its normal form is what is returned. -/
theorem exists_of_parse (hend : Token.endOfInput ∉ tokens)
    (h : (Parser.ofTokens (tokens ++ [.endOfInput])).parse.1 = .ok query) :
    ∃ alternatives : Alternatives, alternatives.tokens = tokens ∧ alternatives.Fits ∧
      query = alternatives.tree.normalize := by
  have hne : tokens ≠ [] := by
    rintro rfl
    cases h
  rw [parse_ofTokens_of_ne_nil hne hend] at h
  obtain ⟨alternatives, rest, hfits, htokens, hnot, hrest⟩ :=
    exists_alternatives (accepts_of_run h)
  cases hrest with
  | accept hstep =>
    obtain ⟨-, -, -, rfl, rfl⟩ := of_step_eq_accept hstep
    exact ⟨alternatives, eq_of_append_endOfInput hend htokens, hfits,
      OpenGroup.close_read alternatives⟩
  | @next _ _ token _ hstep _ =>
    -- no token but the end of input is read behind a constraint outside of all groups
    simp only [ParseState.step, ParseState.connect, connective?_eq_none hnot] at hstep
    cases token <;> cases hstep

/-- **The grammar of the parser.** The parser accepts the tokens of the derivations that fit their
operators and no others. Tokens have one derivation at most, and what is returned is its tree in
normal form, with the leaves as they follow each other among the tokens. -/
theorem parse_ofTokens_eq_ok_iff (hend : Token.endOfInput ∉ tokens) :
    (∀ query, (Parser.ofTokens (tokens ++ [.endOfInput])).parse.1 = .ok query ↔
      ∃ alternatives : Alternatives, alternatives.tokens = tokens ∧ alternatives.Fits ∧
        query = alternatives.tree.normalize) ∧
    (∀ first second : Alternatives, first.tokens = tokens → second.tokens = tokens →
      first = second) ∧
    ∀ alternatives : Alternatives, alternatives.tokens = tokens →
      alternatives.tree.normalize.IsNormal ∧
      alternatives.tree.normalize.leaves = alternatives.tree.leaves := by
  refine ⟨fun query => ⟨exists_of_parse hend, ?_⟩, ?_, ?_⟩
  · rintro ⟨alternatives, rfl, hfits, rfl⟩
    exact parse_tokens hfits hend
  · rintro first second hfirst hsecond
    exact Alternatives.tokens_injective (hfirst.trans hsecond.symm)
  · intro alternatives _
    exact ⟨alternatives.isNormal_tree, Query.leaves_normalize _⟩

/-- Words that spell connectives are a selector, an argument and a connector. -/
theorem parse_ofTokens_eq_ok_iff_or :
    Token.endOfInput ∉ [.word "or", .operator "==", .word "and", .word "OR", .leftParen, .word "a",
      .operator "=IN=", .leftParen, .word "b", .comma, .quoted "c", .rightParen, .rightParen] ∧
    ∃ alternatives : Alternatives,
      alternatives.tokens = [.word "or", .operator "==", .word "and", .word "OR", .leftParen,
        .word "a", .operator "=IN=", .leftParen, .word "b", .comma, .quoted "c", .rightParen,
        .rightParen] ∧
      alternatives.Fits ∧
      Query.or [.comparison ⟨"or", .equal, ["and"]⟩, .comparison ⟨"a", .isIn, ["b", "c"]⟩] =
        alternatives.tree.normalize :=
  ⟨by decide, ((parse_ofTokens_eq_ok_iff (by decide)).1 _).mp rfl⟩

end Parser

end FilterQuery
