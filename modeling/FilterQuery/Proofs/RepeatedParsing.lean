import FilterQuery.Proofs.ErrorPosition
import FilterQuery.Proofs.Lexing
import Mathlib.Logic.Function.Iterate
import Mathlib.Order.Monotone.Basic

/-!
# Parsing on behind a query or an error

A parser can be asked for a query again and again. Each call starts a query at the token where the
call before it stopped, and **reads** tokens one after the other (`ParseState.Reads`).

* **Places.** The end of input is never read, so a parser of a text always stands at one of its
  tokens or at the end of input behind them (`Parser.IsAmong`). No call leads away from there.
* **A call** reads the tokens from its place up to the place where it stops, each of them once. That
  it goes through the steps of the machine is all that is needed of it, so what is shown of a run is
  shown of the call.
* **Calls one after the other.** A call that succeeds stops at the end of input, and there every
  later call stays. A call that fails may stop anywhere, but it goes on by a token at least unless
  no query starts with the token there (`Parser.after_calls`).
-/

namespace FilterQuery

namespace ParseState

variable {state next : ParseState} {token : Token} {tokens : List Token}

/-- The tokens are read one after the other from the state on. The last one may be what makes an
argument list too long, which is read as well. -/
inductive Reads : ParseState → List Token → Prop where
  | nil {state : ParseState} : Reads state []
  | next {state next : ParseState} {token : Token} {tokens : List Token}
      (hstep : state.step token = .next next) (h : Reads next tokens) :
      Reads state (token :: tokens)
  | refuse {state : ParseState} {token : Token} {operator : Operator} {selector : String}
      (hstep : state.step token = .refuse operator selector) : Reads state [token]

/-- Arguments are refused where their list is closed. -/
theorem eq_rightParen_of_refuse {operator : Operator} {selector : String}
    (h : state.step token = .refuse operator selector) : token = .rightParen := by
  obtain ⟨stage, group, outer⟩ := state
  cases stage
  case listed =>
    cases token <;> simp only [step, reduceCtorEq] at h
    rfl
  case constrained =>
    simp only [step, connect] at h
    split at h
    · cases h
    · cases h
    · split at h <;> cases h
  all_goals cases token <;> cases h

/-- A query starts with the token. -/
def Starts (token : Token) : Prop := (∃ text, token = .word text) ∨ token = .leftParen

theorem exists_step_start_of_starts (h : Starts token) : ∃ next, start.step token = .next next := by
  rcases h with ⟨text, rfl⟩ | rfl <;> exact ⟨_, rfl⟩

/-- At any other token the parser stops at once, and waits for a selector. -/
theorem step_start_of_not_starts (h : ¬ Starts token) : start.step token = .stop .selector := by
  cases token with
  | word text => exact absurd (.inl ⟨text, rfl⟩) h
  | leftParen => exact absurd (.inr rfl) h
  | _ => rfl

end ParseState

namespace Parser

open ParseState

variable {parser : Parser} {tokens : List Token} {state : ParseState}

/-! ### A call -/

/-- **A run.** The tokens in front of where a run stops are read one after the other, and a run that
succeeds stops at the end of input. -/
theorem exists_reads (state : ParseState) (index : ℕ) (hend : Token.endOfInput ∉ tokens) :
    ∃ read rest, tokens = read ++ rest ∧ state.Reads read ∧
      (run state index (tokens ++ [.endOfInput])).2 =
        ⟨index + read.length, rest ++ [.endOfInput]⟩ ∧
      ∀ query, (run state index (tokens ++ [.endOfInput])).1 = .ok query → rest = [] := by
  induction tokens generalizing state index with
  | nil =>
    refine ⟨[], [], rfl, .nil, ?_, fun _ _ => rfl⟩
    rw [List.nil_append, run]
    -- at the end nothing is read: the run stops there, with a query or without one
    cases hstep : state.step .endOfInput with
    | next next => exact absurd hstep step_endOfInput_ne_next
    | accept query => rfl
    | stop awaited => rfl
    | refuse operator selector => cases eq_rightParen_of_refuse hstep
  | cons token tokens ih =>
    obtain ⟨htoken, hend⟩ := not_or.mp (mt List.mem_cons.mpr hend)
    rw [List.cons_append]
    cases hstep : state.step token with
    | next next =>
      obtain ⟨read, rest, rfl, hreads, hrun, hok⟩ := ih next (index + 1) hend
      rw [run_next hstep]
      refine ⟨token :: read, rest, rfl, .next hstep hreads, ?_, hok⟩
      rw [hrun, List.length_cons, Nat.add_assoc, Nat.add_comm 1]
    | accept query => exact absurd (of_step_eq_accept hstep).2.2.2.1.symm htoken
    -- a token that is not awaited stays where it is
    | stop awaited =>
      rw [run, hstep]
      refine ⟨[], token :: tokens, rfl, .nil, rfl, fun query hquery => ?_⟩
      cases hquery
    -- the arguments of an operator are refused behind their parenthesis, which has been read
    | refuse operator selector =>
      rw [run, hstep]
      refine ⟨[token], tokens, rfl, .refuse hstep, rfl, fun query hquery => ?_⟩
      cases hquery

/-- The parser stands at one of the tokens, or at the end of input behind them. -/
structure IsAmong (tokens : List Token) (parser : Parser) : Prop where
  index_le : parser.index ≤ tokens.length
  rest_eq : parser.rest = tokens.drop parser.index ++ [.endOfInput]

theorem isAmong_ofTokens (tokens : List Token) :
    (ofTokens (tokens ++ [.endOfInput])).IsAmong tokens :=
  ⟨Nat.zero_le _, rfl⟩

namespace IsAmong

variable (hend : Token.endOfInput ∉ tokens) (h : parser.IsAmong tokens)

include h

theorem parse_of_eq_length (hindex : parser.index = tokens.length) :
    parser.parse = (.error .empty, parser) := by
  have hrest : parser.rest = [.endOfInput] := by
    rw [h.rest_eq, hindex, List.drop_length, List.nil_append]
  rw [parse, hrest]

include hend

/-- In front of the end, parsing is a run of the machine on the tokens that are left. -/
theorem parse_of_lt (hindex : parser.index < tokens.length) :
    parser.parse = run .start parser.index (tokens.drop parser.index ++ [.endOfInput]) := by
  have htoken : tokens[parser.index] ≠ .endOfInput := fun heq => hend (heq ▸ List.getElem_mem _)
  rw [parse, h.rest_eq, List.drop_eq_getElem_cons hindex, List.cons_append]
  split
  · next hnil => cases hnil
  · next hcons => exact absurd (List.cons.inj hcons).1 htoken
  · rfl

/-- **A call.** The tokens from where a call starts to where it stops are read one after the other.
If it succeeds it stops at the end of input. -/
theorem parse_snd : parser.parse.2.IsAmong tokens ∧ parser.index ≤ parser.parse.2.index ∧
    start.Reads ((tokens.take parser.parse.2.index).drop parser.index) ∧
    ∀ query, parser.parse.1 = .ok query → parser.parse.2.index = tokens.length := by
  rcases Nat.lt_or_eq_of_le h.index_le with hlt | heq
  · -- a call that starts in front of the end is a run over the tokens that are left
    have hdrop : Token.endOfInput ∉ tokens.drop parser.index := fun hmem =>
      hend (List.mem_of_mem_drop hmem)
    obtain ⟨read, rest, hsplit, hreads, hrun, hok⟩ := exists_reads .start parser.index hdrop
    rw [h.parse_of_lt hend hlt, hrun]
    have hread : (tokens.take (parser.index + read.length)).drop parser.index = read := by
      rw [List.drop_take, Nat.add_sub_cancel_left, hsplit, List.take_left]
    have hrest : tokens.drop (parser.index + read.length) = rest := by
      rw [← List.drop_drop, hsplit, List.drop_left]
    have hlength : tokens.length - parser.index = read.length + rest.length := by
      rw [← List.length_drop, hsplit, List.length_append]
    refine ⟨⟨?_, congrArg (· ++ _) hrest.symm⟩, Nat.le_add_right _ _, hread.symm ▸ hreads,
      fun query hquery => ?_⟩
    · change parser.index + read.length ≤ tokens.length
      omega
    · rw [hok query hquery, List.length_nil] at hlength
      change parser.index + read.length = tokens.length
      omega
  · -- a call that starts behind the end stays there
    rw [h.parse_of_eq_length heq]
    refine ⟨h, Nat.le_refl _, ?_, nofun⟩
    have hnil : (tokens.take parser.index).drop parser.index = [] := by simp
    rw [hnil]
    exact .nil

/-- A call goes on by a token at least if a query starts with the one where the parser stands. -/
theorem index_lt_iff : parser.index < parser.parse.2.index ↔
    ∃ token, tokens[parser.index]? = some token ∧ Starts token := by
  rcases Nat.lt_or_eq_of_le h.index_le with hlt | heq
  · rw [h.parse_of_lt hend hlt, List.drop_eq_getElem_cons hlt, List.cons_append,
      List.getElem?_eq_getElem hlt]
    simp only [Option.some.injEq, exists_eq_left']
    by_cases hstarts : Starts tokens[parser.index]
    · obtain ⟨next, hstep⟩ := exists_step_start_of_starts hstarts
      have hdrop : Token.endOfInput ∉ tokens.drop (parser.index + 1) := fun hmem =>
        hend (List.mem_of_mem_drop hmem)
      obtain ⟨read, rest, -, -, hrun, -⟩ := exists_reads next (parser.index + 1) hdrop
      rw [run_next hstep, hrun]
      refine iff_of_true ?_ hstarts
      change parser.index < parser.index + 1 + read.length
      omega
    · rw [run, step_start_of_not_starts hstarts]
      exact iff_of_false (Nat.lt_irrefl _) hstarts
  · rw [h.parse_of_eq_length heq, heq]
    simp

end IsAmong

/-! ### Calls one after the other -/

/-- The parser after a number of calls, whatever they gave. -/
def after (parser : Parser) (calls : ℕ) : Parser := (fun parser => parser.parse.2)^[calls] parser

theorem after_succ (parser : Parser) (calls : ℕ) :
    parser.after (calls + 1) = (parser.after calls).parse.2 :=
  Function.iterate_succ_apply' _ _ _

/-- The parser stands among its tokens after any number of calls. -/
theorem IsAmong.after (hend : Token.endOfInput ∉ tokens) (h : parser.IsAmong tokens) (calls : ℕ) :
    (parser.after calls).IsAmong tokens := by
  induction calls with
  | zero => exact h
  | succ calls ih =>
    rw [after_succ]
    exact (ih.parse_snd hend).1

/-- At the end of input every call stays. -/
theorem IsAmong.after_eq (hend : Token.endOfInput ∉ tokens) (h : parser.IsAmong tokens)
    {calls later : ℕ} (hindex : (parser.after calls).index = tokens.length) (hle : calls ≤ later) :
    parser.after later = parser.after calls := by
  induction later, hle using Nat.le_induction with
  | base => rfl
  | succ later _ ih =>
    rw [after_succ, ih, (h.after hend calls).parse_of_eq_length hindex]

/-- The parser of a text has the tokens of the text, with the end of input at their end alone. -/
theorem exists_tokens {text : String} (h : Query.parser text = .ok parser) :
    ∃ tokens, Query.tokenize text = .ok (tokens ++ [.endOfInput]) ∧ Token.endOfInput ∉ tokens ∧
      parser = ofTokens (tokens ++ [.endOfInput]) := by
  unfold Query.parser at h
  split at h
  · next scanned hscan =>
    cases h
    obtain ⟨tokens, rfl, hlexes⟩ := Scanner.tokens_eq_ok_iff.mp hscan
    exact ⟨tokens, hscan, Query.endOfInput_not_mem_of_lexes hlexes, rfl⟩
  · cases h

/-- **Repeated calls.** The tokens of a text end with the end of input, which is not among the
others. Through any number of calls the parser of the text stands at one of these tokens or at the
end of input. The position never decreases, and the tokens between two positions are read one after
the other. A call leaves the position where it is unless a query starts with the token there, and
one that succeeds leaves it at the end of input. There every later call finds no query and stays. -/
theorem after_calls {text : String} (h : Query.parser text = .ok parser) :
    ParseError.empty.detail = "empty expression" ∧
    ∃ tokens, Query.tokenize text = .ok (tokens ++ [.endOfInput]) ∧ Token.endOfInput ∉ tokens ∧
      (parser.after 0).index = 0 ∧ (Monotone fun calls => (parser.after calls).index) ∧
      ∀ calls, (parser.after calls).IsAmong tokens ∧
        start.Reads ((tokens.take (parser.after (calls + 1)).index).drop
          (parser.after calls).index) ∧
        ((parser.after calls).index < (parser.after (calls + 1)).index ↔
          ∃ token, tokens[(parser.after calls).index]? = some token ∧ Starts token) ∧
        (∀ query, (parser.after calls).parse.1 = .ok query →
          (parser.after (calls + 1)).index = tokens.length) ∧
        ((parser.after calls).index = tokens.length → ∀ later, calls ≤ later →
          (parser.after later).parse = (.error .empty, parser.after calls)) := by
  obtain ⟨tokens, hscan, hend, rfl⟩ := exists_tokens h
  have hamong := (isAmong_ofTokens tokens).after hend
  refine ⟨rfl, tokens, hscan, hend, rfl, monotone_nat_of_le_succ fun calls => ?_, fun calls => ?_⟩
  · rw [after_succ]
    exact ((hamong calls).parse_snd hend).2.1
  · obtain ⟨-, -, hreads, hok⟩ := (hamong calls).parse_snd hend
    rw [after_succ]
    refine ⟨hamong calls, hreads, (hamong calls).index_lt_iff hend, hok, ?_⟩
    intro hindex later hle
    rw [(isAmong_ofTokens tokens).after_eq hend hindex hle]
    exact (hamong calls).parse_of_eq_length hindex

/-- Behind an argument list that is refused, the next call reads a query. -/
theorem after_calls_refused : ∃ parser, Query.parser "a=gt=(1,2)b==c" = .ok parser ∧
    parser.parse.1 = .error (.extraArguments .greater "a") ∧ (parser.after 1).index = 7 ∧
    (parser.after 1).parse.1 = .ok (.comparison ⟨"b", .equal, ["c"]⟩) ∧
    ∀ later, 2 ≤ later → (parser.after later).parse.1 = .error .empty := by
  have h : Query.parser "a=gt=(1,2)b==c" = .ok (ofTokens [.word "a", .operator "=gt=", .leftParen,
      .word "1", .comma, .word "2", .rightParen, .word "b", .operator "==", .word "c",
      .endOfInput]) := by
    decide +kernel
  obtain ⟨-, tokens, -, -, -, -, hcalls⟩ := after_calls h
  have hend := (hcalls 1).2.2.2.1 (.comparison ⟨"b", .equal, ["c"]⟩) rfl
  exact ⟨_, h, rfl, rfl, rfl, fun later hle =>
    congrArg Prod.fst ((hcalls 2).2.2.2.2 hend later hle)⟩

end Parser

end FilterQuery
