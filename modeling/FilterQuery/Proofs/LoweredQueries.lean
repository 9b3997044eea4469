import FilterQuery.Proofs.AsciiCase
import FilterQuery.Proofs.Lexing
import FilterQuery.Proofs.Normal
import FilterQuery.Query.Parser

/-!
# Queries whose letters differ in case

Scanning and parsing commute with **lowering**, which puts the ASCII letters of a text, of its
tokens and of the selectors and arguments of a query into lower case (`tokenize_asciiLower`,
`ofText_asciiLower`). Operators and connectives are the same in both cases, so texts that differ in
the case of ASCII letters are read as queries that do so, or are no queries.

* **Lexemes.** The characters that end a lexeme are no letters, so the lower case of a text is cut
  where the text is. The pieces are in lower case, and errors have the same places.
* **Scanning.** The scanner of the lower case makes the moves of the scanner, one by one
  (`next_lower`), hence finds the tokens in lower case.
* **Queries.** Lowering maps the comparisons and keeps the shape (`map_group`), so joining members
  and normal forms commute with it.
* **Parsing.** The machine on lowered tokens is in the lowered state (`step_lower`). Its errors
  quote the tokens, so runs are compared without their errors.
-/

namespace FilterQuery

open Text

/-! ### Tokens -/

namespace Token

/-- The token with its ASCII letters in lower case. -/
def lower : Token → Token
  | word text => word (asciiLower text)
  | quoted text => quoted (asciiLower text)
  | operator symbol => operator (asciiLower symbol)
  | token => token

theorem lower_eq_endOfInput_iff {token : Token} :
    token.lower = endOfInput ↔ token = endOfInput := by
  cases token <;> simp [lower]

/-- Lowering keeps connectives. -/
theorem connective?_lower (token : Token) : token.lower.connective? = token.connective? := by
  cases token with
  | word text => simp only [lower, connective?, keyword?, Connective.ofWord?, upper_asciiLower]
  | _ => rfl

end Token

theorem Operator.ofSymbol_asciiLower (symbol : String) :
    ofSymbol (asciiLower symbol) = ofSymbol symbol := by
  unfold ofSymbol
  rw [asciiLower_asciiLower]

/-!
### Lexemes

The signs at which a lexeme starts and ends are no letters, and neither are blanks, so a lowered
text is cut at the same places.
-/

namespace Query

@[simp] theorem isReserved_toLower (c : Char) : isReserved c.toLower = isReserved c :=
  apply_toLower (by decide) c

@[simp] theorem punctuation?_toLower (c : Char) : punctuation? c.toLower = punctuation? c :=
  apply_toLower (by decide) c

theorem lower_of_punctuation? {c : Char} {token : Token} (h : punctuation? c = some token) :
    token.lower = token := by
  cases punctuation?_eq_some_iff.mp h <;> rfl

/-- What is cut off, and what is left, with their ASCII letters in lower case. -/
def Cut.lower (cut : Cut) : Cut := (cut.1.map Token.lower, cut.2.map Char.toLower)

theorem lower_operatorToken (symbol : List Char) :
    (operatorToken symbol).lower = operatorToken (symbol.map Char.toLower) := by
  rw [operatorToken, Token.lower, asciiLower_ofList]
  rfl

/-- The body of a quoted string in lower case, escapes included. -/
theorem quotedBody_map_toLower {quote : Char} (hquote : quote.isAlpha = false) (cs : List Char) :
    quotedBody quote (cs.map Char.toLower) = (quotedBody quote cs).map fun found =>
      (found.1.map Char.toLower, found.2.map Char.toLower) := by
  have hescape : '\\'.toLower = '\\' := by decide
  fun_induction quotedBody quote cs with
  | case1 => rfl
  | case2 => rfl
  | case3 c cs ih =>
    rw [List.map_cons, List.map_cons, hescape, quotedBody, ih, Option.map_map, Option.map_map]
    rfl
  -- the quotation ends here, and the quote is no letter
  | case4 cs hlast hnot =>
    have hne : quote ≠ '\\' := by
      rintro rfl
      obtain ⟨next, others, hcons⟩ := List.exists_cons_of_ne_nil (hlast rfl)
      exact hnot next others rfl hcons
    rw [List.map_cons, toLower_of_isAlpha_eq_false hquote]
    simp [quotedBody, hne]
  -- a character like any other is lowered and becomes neither the quote nor an escape
  | case5 c cs hlast hnot hquote' ih =>
    have hne : c ≠ '\\' := by
      rintro rfl
      obtain ⟨next, others, hcons⟩ := List.exists_cons_of_ne_nil (hlast rfl)
      exact hnot next others rfl hcons
    have hne' : c.toLower ≠ '\\' := mt (toLower_eq_iff (by decide)).mp hne
    have hquote'' : c.toLower ≠ quote := mt (toLower_eq_iff hquote).mp hquote'
    simp [quotedBody, hne', hquote'', ih, Function.comp_def]

/-- A quoted string is cut off in lower case. -/
theorem cutQuoted_map_toLower {quote : Char} (hquote : quote.isAlpha = false) (cs : List Char) :
    cutQuoted quote (cs.map Char.toLower) = (cutQuoted quote cs).lower := by
  unfold cutQuoted
  rw [quotedBody_map_toLower hquote]
  cases quotedBody quote cs with
  | none => rfl
  | some found =>
    obtain ⟨body, left⟩ := found
    have htoken : Token.quoted (String.ofList (body.map Char.toLower)) =
        (Token.quoted (String.ofList body)).lower := congrArg _ (asciiLower_ofList body).symm
    simp only [Option.map_some, htoken]
    rfl

/-- A named operator is cut off in lower case. -/
theorem cutNamed_map_toLower (cs : List Char) :
    cutNamed (cs.map Char.toLower) = (cutNamed cs).lower := by
  unfold cutNamed
  rw [takeWhile_map_toLower Char.isAlpha_toLower_eq_isAlpha,
    dropWhile_map_toLower Char.isAlpha_toLower_eq_isAlpha]
  have hequal : '='.toLower = '=' := by decide
  split
  · next left hleft =>
    obtain ⟨rest, hrest⟩ := exists_of_map_toLower_eq_cons (by decide) hleft
    rw [hrest, List.map_cons, hequal] at hleft
    rw [hrest, ← (List.cons.inj hleft).2]
    simp only [Cut.lower, Except.map, lower_operatorToken, List.map_cons, List.map_append, hequal,
      List.map_nil]
  · next hnot =>
    split
    · next left hleft =>
      refine absurd ?_ (hnot (left.map Char.toLower))
      rw [hleft, List.map_cons, hequal]
    · rfl

/-- A short operator is cut off in lower case. -/
theorem cutShort_map_toLower {c : Char} (hc : c.isAlpha = false) (cs : List Char) :
    cutShort c (cs.map Char.toLower) = (cutShort c cs).lower := by
  have hlower : c.toLower = c := toLower_of_isAlpha_eq_false hc
  have hequal : '='.toLower = '=' := by decide
  by_cases hcs : ∃ left, cs = '=' :: left
  · obtain ⟨left, rfl⟩ := hcs
    simp only [cutShort, Cut.lower, Except.map, lower_operatorToken, List.map_cons, hequal, hlower,
      List.map_nil]
  · have hnot : ∀ left, cs ≠ '=' :: left := fun left hleft => hcs ⟨left, hleft⟩
    have hnot' : ∀ left, cs.map Char.toLower ≠ '=' :: left := fun left hleft =>
      hcs (exists_of_map_toLower_eq_cons (by decide) hleft)
    rw [cutShort, cutShort, Cut.lower]
    · split <;> simp only [Except.map, lower_operatorToken, List.map_cons, hlower, List.map_nil]
    · exact hnot
    · exact hnot'

/-- A word is cut off in lower case. -/
theorem cutWord_map_toLower (c : Char) (cs : List Char) :
    cutWord c.toLower (cs.map Char.toLower) = (cutWord c cs).lower := by
  have hreserved : ∀ d : Char, (!isReserved d.toLower) = !isReserved d := fun d => by
    rw [isReserved_toLower]
  unfold cutWord
  rw [takeWhile_map_toLower hreserved, dropWhile_map_toLower hreserved, ← List.map_cons,
    ← asciiLower_ofList]
  rfl

/-- Any lexeme is cut off in lower case. -/
theorem cutLexeme_map_toLower (cs : List Char) :
    cutLexeme (cs.map Char.toLower) = (cutLexeme cs).lower := by
  cases cs with
  | nil => rfl
  | cons c cs =>
    rw [List.map_cons, cutLexeme, cutLexeme, punctuation?_toLower]
    cases hmark : punctuation? c with
    | some token =>
      have htoken := lower_of_punctuation? hmark
      simp [Cut.lower, Except.map, htoken]
    | none =>
      -- none of the signs that the scanner looks for is a letter, so they are found in either case
      have hsigns : (['\'', '"', '=', '!', '<', '>', '~'].all fun d => !d.isAlpha) = true := by
        decide
      have hsign : ∀ d ∈ ['\'', '"', '=', '!', '<', '>', '~'], (c.toLower = d ↔ c = d) :=
        fun d hd => toLower_eq_iff (by simpa using List.all_eq_true.mp hsigns d hd)
      simp only [List.mem_cons, List.not_mem_nil, or_false, forall_eq_or_imp, forall_eq] at hsign
      obtain ⟨hsingle, hdouble, hequal, hbang, hlt, hgt, htilde⟩ := hsign
      simp only [hsingle, hdouble, hequal, hbang, hlt, hgt, htilde, apply_ite Cut.lower]
      refine ite_congr rfl (fun hquote => ?_) fun _ =>
        ite_congr rfl (fun _ => cutNamed_map_toLower cs) fun _ =>
          ite_congr rfl (fun hshort => ?_) fun _ =>
            ite_congr rfl (fun _ => rfl) fun _ => cutWord_map_toLower c cs
      · have hc : c.isAlpha = false := by
          simp only [Bool.or_eq_true, decide_eq_true_eq] at hquote
          rcases hquote with rfl | rfl <;> decide
        rw [toLower_of_isAlpha_eq_false hc, cutQuoted_map_toLower hc]
      · have hc : c.isAlpha = false := by
          simp only [Bool.or_eq_true, decide_eq_true_eq] at hshort
          rcases hshort with (rfl | rfl) | rfl <;> decide
        rw [toLower_of_isAlpha_eq_false hc, cutShort_map_toLower hc]

end Query

/-! ### Scanning -/

namespace Scanner

/-- The position in the text with its ASCII letters in lower case. -/
def lower (s : Scanner) : Scanner := ⟨s.position, s.rest.map Char.toLower⟩

theorem lower_ofText (text : String) : (ofText text).lower = ofText (asciiLower text) := by
  rw [ofText, ofText, toList_asciiLower]
  rfl

theorem moveTo_lower (s : Scanner) (rest : List Char) :
    s.lower.moveTo (rest.map Char.toLower) = (s.moveTo rest).lower := by
  simp only [lower, moveTo, List.length_map]

/-- The scanner skips the same blank characters. -/
theorem skipBlanks_lower (s : Scanner) : s.lower.skipBlanks = s.skipBlanks.lower := by
  have hdrop : s.lower.rest.dropWhile isBlank = (s.rest.dropWhile isBlank).map Char.toLower :=
    dropWhile_map_toLower isBlank_toLower s.rest
  rw [skipBlanks, hdrop, moveTo_lower]
  rfl

/-- The next token of the lower case is the next token in lower case, or the same error. -/
theorem next_lower (s : Scanner) : s.lower.next = (s.next.1.map Token.lower, s.next.2.lower) := by
  have hcut : Query.cutLexeme s.skipBlanks.lower.rest = (Query.cutLexeme s.skipBlanks.rest).lower :=
    Query.cutLexeme_map_toLower _
  rw [next, next, skipBlanks_lower, hcut]
  cases Query.cutLexeme s.skipBlanks.rest with
  | mk result rest =>
    cases result with
    | ok token =>
      simp only [Query.Cut.lower, Except.map, moveTo_lower]
    | error fault =>
      simp only [Query.Cut.lower, Except.map, moveTo_lower]
      rfl

/-- An error is the end of scanning. -/
theorem tokens_of_next_error {s s' : Scanner} {e : ScanError} (h : s.next = (.error e, s')) :
    s.tokens = .error e := by
  rw [tokens]
  split
  · next hnext =>
    cases h.symm.trans hnext
    rfl
  · next hnext => cases h.symm.trans hnext

/-- The tokens of a lowered text are the lowered tokens of the text. -/
theorem tokens_lower (s : Scanner) : s.lower.tokens = s.tokens.map (List.map Token.lower) := by
  have hlower := next_lower s
  fun_induction tokens s with
  | case1 s e s' hnext =>
    rw [hnext] at hlower
    exact tokens_of_next_error hlower
  | case2 s s' hnext =>
    rw [hnext] at hlower
    rw [tokens_of_next hlower]
    rfl
  | case3 s token s' hnext hend ih =>
    rw [hnext] at hlower
    rw [tokens_of_next hlower, if_neg (mt Token.lower_eq_endOfInput_iff.mp hend),
      ih (next_lower s')]
    cases s'.tokens <;> rfl

end Scanner

/-- **Scanning** commutes with lowering. -/
theorem Query.tokenize_asciiLower (text : String) :
    tokenize (asciiLower text) = (tokenize text).map (List.map Token.lower) := by
  rw [tokenize, tokenize, ← Scanner.lower_ofText, Scanner.tokens_lower]

/-! ### Queries -/

/-- The comparison with the ASCII letters of its selector and its arguments in lower case. -/
def Comparison.lower (c : Comparison) : Comparison :=
  ⟨asciiLower c.selector, c.operator, c.arguments.map asciiLower⟩

namespace Query

/-- The query with the ASCII letters of its selectors and arguments in lower case. -/
def lower (query : Query) : Query := query.map Comparison.lower

/-- The parts of a mapped query are its mapped parts. -/
theorem parts_map (f : Comparison → Comparison) (connective : Connective) (query : Query) :
    parts connective (query.map f) = (parts connective query).map (map f) := by
  cases query with
  | comparison c => cases connective <;> rfl
  | and members => cases connective with
    | and => exact mapAll_eq_map f members
    | or => rfl
  | or members => cases connective with
    | and => rfl
    | or => exact mapAll_eq_map f members

theorem map_group (f : Comparison → Comparison) (connective : Connective) (members : List Query) :
    (group connective members).map f = group connective (members.map (map f)) := by
  cases connective <;> rw [group, map, mapAll_eq_map, group]

/-- Queries are joined without regard to their comparisons. -/
theorem map_join (f : Comparison → Comparison) (connective : Connective) (members : List Query) :
    (join connective members).map f = join connective (members.map (map f)) := by
  match members with
  | [] => cases connective <;> rfl
  | [query] => cases connective <;> rfl
  | first :: second :: rest =>
    have hparts : ∀ query : Query, (parts connective query).map (map f) =
        parts connective (query.map f) := fun query => (parts_map f connective query).symm
    have htwo : 2 ≤ (first :: second :: rest).length := by simp
    have htwo' : 2 ≤ ((first :: second :: rest).map (map f)).length := by simp
    rw [join_of_two_le htwo, join_of_two_le htwo', map_group, List.map_flatMap, List.flatMap_map]
    simp only [hparts]

end Query

/-!
### Parsing

The machine looks into no word but to ask whether it is a connective, and this does not depend on
letter case. Selectors and arguments are carried along in the state, so the states of the two runs
differ in their letters only.
-/

/-- The group with its members lowered. -/
def OpenGroup.lower (group : OpenGroup) : OpenGroup :=
  ⟨group.alternatives.map Query.lower, group.constraints.map Query.lower⟩

/-- The stage with its selector and values lowered. -/
def ParseStage.lower : ParseStage → ParseStage
  | constraint => constraint
  | selected selector => selected (asciiLower selector)
  | compared selector operator => compared (asciiLower selector) operator
  | value selector operator values => value (asciiLower selector) operator (values.map asciiLower)
  | listed selector operator values => listed (asciiLower selector) operator (values.map asciiLower)
  | constrained => constrained

/-- The state with all its texts lowered. -/
def ParseState.lower (state : ParseState) : ParseState :=
  ⟨state.stage.lower, state.group.lower, state.outer.map OpenGroup.lower⟩

/-- The step with all its texts lowered. -/
def ParseStep.lower : ParseStep → ParseStep
  | next state => next state.lower
  | accept query => accept query.lower
  | stop awaited => stop awaited
  | refuse operator selector => refuse operator (asciiLower selector)

namespace OpenGroup

/-- The next alternative of a group is begun in lower case. -/
theorem nextAlternative_lower (group : OpenGroup) :
    group.lower.nextAlternative = group.nextAlternative.lower := by
  have hjoin : Query.joinAnd (group.constraints.reverse.map Query.lower) =
      (Query.joinAnd group.constraints.reverse).lower :=
    (Query.map_join Comparison.lower .and _).symm
  simp only [nextAlternative, lower, ← List.map_reverse, hjoin, List.map_cons, List.map_nil]

/-- A group is closed in lower case. -/
theorem close_lower (group : OpenGroup) : group.lower.close = group.close.lower := by
  have hjoin : Query.joinOr (group.nextAlternative.alternatives.reverse.map Query.lower) =
      (Query.joinOr group.nextAlternative.alternatives.reverse).lower :=
    (Query.map_join Comparison.lower .or _).symm
  rw [close, nextAlternative_lower, close, ← hjoin, List.map_reverse]
  rfl

end OpenGroup

namespace ParseState

/-- Behind a constraint the same is done in lower case. -/
theorem connect_lower (state : ParseState) (token : Token) :
    state.lower.connect token.lower = (state.connect token).lower := by
  obtain ⟨stage, group, outer⟩ := state
  unfold connect
  rw [token.connective?_lower]
  cases token.connective? with
  | some connective =>
    cases connective with
    | and => rfl
    | or => simp only [lower, OpenGroup.nextAlternative_lower, ParseStep.lower, ParseStage.lower]
  | none =>
    -- only the end of input and a closing parenthesis can follow without a connective
    cases outer with
    | nil =>
      cases token with
      | endOfInput => exact congrArg ParseStep.accept group.close_lower
      | _ => rfl
    | cons next outer =>
      cases token with
      | rightParen =>
        simp only [lower, List.map_cons, Token.lower, ParseStep.lower, OpenGroup.close_lower]
        rfl
      | _ => rfl

/-- Reading a lowered token in a lowered state does what reading the token in the state does. -/
theorem step_lower (state : ParseState) (token : Token) :
    state.lower.step token.lower = (state.step token).lower := by
  obtain ⟨stage, group, outer⟩ := state
  cases stage with
  | constrained => exact connect_lower _ token
  | constraint => cases token <;> rfl
  | selected selector =>
    cases token with
    | operator symbol =>
      simp only [step, lower, ParseStage.lower, Token.lower, ParseStep.lower,
        Operator.ofSymbol_asciiLower]
    | _ => rfl
  | compared selector operator => cases token <;> rfl
  | value selector operator values => cases token <;> rfl
  | listed selector operator values =>
    cases token with
    | rightParen =>
      simp only [step, lower, ParseStage.lower, Token.lower, List.length_map, ← List.map_reverse,
        apply_ite ParseStep.lower]
      rfl
    | _ => rfl

end ParseState

namespace Parser

/-- But for its error, a run on lowered tokens gives the lowered query. -/
theorem run_lower (state : ParseState) (index : Nat) (tokens : List Token) :
    (run state.lower index (tokens.map Token.lower)).1.toOption =
      (run state index tokens).1.toOption.map Query.lower := by
  induction tokens generalizing state index with
  | nil => rfl
  | cons token tokens ih =>
    have hstep := state.step_lower token
    rw [List.map_cons, run, run, hstep]
    cases state.step token with
    | next next => exact ih next (index + 1)
    | _ => rfl

/-- **Parsing** commutes with lowering. -/
theorem parse_lower (tokens : List Token) :
    (ofTokens (tokens.map Token.lower)).parse.1.toOption =
      (ofTokens tokens).parse.1.toOption.map Query.lower := by
  cases tokens with
  | nil => rfl
  | cons token tokens =>
    by_cases hend : token = .endOfInput
    · rw [hend]
      rfl
    · have hend' : token.lower ≠ .endOfInput := mt Token.lower_eq_endOfInput_iff.mp hend
      have hparse : ∀ token tokens, token ≠ .endOfInput →
          (ofTokens (token :: tokens)).parse = run .start 0 (token :: tokens) := by
        intro token tokens hne
        cases token <;> first | rfl | exact absurd rfl hne
      rw [List.map_cons, hparse _ _ hend, hparse _ _ hend']
      exact run_lower .start 0 (token :: tokens)

end Parser

/-- A lowered text is read as the lowered query of the text, or both are no queries. -/
theorem Query.ofText_asciiLower (text : String) :
    (ofText (asciiLower text)).toOption = (ofText text).toOption.map lower := by
  unfold ofText parser
  rw [tokenize_asciiLower]
  cases tokenize text with
  | error e => rfl
  | ok tokens =>
    have hoption : ∀ result : Except ParseError Query,
        (result.mapError SyntaxError.parse).toOption = result.toOption := fun result => by
      cases result <;> rfl
    simp only [Except.map, hoption, Parser.parse_lower]

end FilterQuery
