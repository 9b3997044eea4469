import FilterQuery.Proofs.Parsing
import FilterQuery.Proofs.Symbols
import FilterQuery.Query.Printer

/-!
# Query texts are read back

A **well-formed** query is read back from its text up to normal form, and a query that is read from
any text, which is well-formed and normal, is read back as it is (`ofText_text_eq_ok`).

The text of a query is compared with the grammar: it lexes to the tokens of a derivation whose
normal form is that of the query, and parsing then does the rest.

* **Written tokens.** Tokens are written so that they are read back whatever follows them, as long
  as that starts with a reserved character (`Written`). All that a query writes behind a word is of
  this kind.
* **Arguments** are quoted where they need to be: an argument that is empty or has reserved
  characters is put between single quotes, with an escape in front of quotes and backslashes. A word
  that spells a connective may stand as it is, since an argument is awaited there.
* **Groups.** A disjunction inside a conjunction is in parentheses, while other groups inside groups
  are spliced by the text itself. So the derivation of a text is not that of the query, but it has
  the same parts.
* **Conversely,** a query that is read is made of what stands among its tokens, so it is
  well-formed.
-/

namespace FilterQuery

open Grammar

/-- A comparison that can be written: the selector is a word, the operator is well-formed, and
there is an argument, but no more than the operator takes. -/
structure Comparison.IsWritable (c : Comparison) : Prop where
  selector_ne_empty : c.selector ≠ ""
  selector_not_reserved : ∀ ch ∈ c.selector.toList, Query.isReserved ch = false
  operator_isWellFormed : c.operator.IsWellFormed
  arguments_ne_nil : c.arguments ≠ []
  fits : c.operator.TakesMany ∨ c.arguments.length = 1

namespace Query

/-- Every group has a member, and every comparison can be written. -/
def IsWellFormed (query : Query) : Prop := query.ComposedOf Comparison.IsWritable

/-!
### Written tokens

What is written of a part of a query is read back in front of anything that ends a word, together
with the tokens of what stands behind it. So parts can be put together with signs between them.
-/

/-- A word that is followed by the characters ends before them. -/
def Separated (cs : List Char) : Prop := ∀ c ∈ cs.head?, isReserved c = true

theorem separated_cons {c : Char} (h : isReserved c = true) (cs : List Char) :
    Separated (c :: cs) := by
  intro d hd
  cases hd
  exact h

/-- The characters lex to the tokens in front of anything that ends a word. -/
def Written (tokens : List Token) (cs : List Char) : Prop :=
  ∀ (others : List Token) (rest : List Char), Separated rest → Lexes others rest →
    Lexes (tokens ++ others) (cs ++ rest)

variable {tokens others : List Token} {cs rest : List Char}

theorem lexes_cons {lexeme : List Char} {token : Token} (hspells : Spells lexeme token)
    (hends : EndsBefore token rest) (h : Lexes tokens rest) :
    Lexes (token :: tokens) (lexeme ++ rest) := by
  have hblanks : ∀ c ∈ ([] : List Char), Text.isBlank c = true := List.forall_mem_nil _
  have hlexes := Lexes.cons hblanks hspells hends h
  exact hlexes

theorem lexes_punctuation {c : Char} {token : Token} (hc : punctuation? c = some token)
    (h : Lexes tokens rest) : Lexes (token :: tokens) (c :: rest) :=
  lexes_cons (.punctuation hc) (endsBefore_punctuation hc rest) h

/-- A word is read back in front of a reserved character. -/
theorem lexes_word {word : String} (hne : word ≠ "")
    (hword : ∀ c ∈ word.toList, isReserved c = false) (hrest : Separated rest)
    (h : Lexes tokens rest) : Lexes (.word word :: tokens) (word.toList ++ rest) := by
  have hspells : Spells word.toList (.word (String.ofList word.toList)) :=
    .word (by simpa using hne) hword
  rw [String.ofList_toList] at hspells
  exact lexes_cons hspells hrest h

/-- Written tokens stay written with a sign between them. -/
theorem Written.append_sign {c : Char} {token : Token} {first second : List Token}
    {ds : List Char} (hfirst : Written first cs) (hc : punctuation? c = some token)
    (hreserved : isReserved c = true) (hsecond : Written second ds) :
    Written (first ++ token :: second) (cs ++ c :: ds) := by
  intro others rest hrest h
  rw [List.append_assoc, List.append_assoc]
  exact hfirst _ _ (separated_cons hreserved _) (lexes_punctuation hc (hsecond others rest hrest h))

/-- Written tokens stay written in parentheses. -/
theorem Written.enclose (h : Written tokens cs) :
    Written (.leftParen :: (tokens ++ [.rightParen])) ('(' :: (cs ++ [')'])) := by
  intro others rest hrest hothers
  simp only [List.cons_append, List.append_assoc, List.nil_append]
  exact lexes_punctuation rfl (h _ _ (separated_cons (by decide) rest)
    (lexes_punctuation rfl hothers))

/-! ### Arguments -/

/-- The argument as it is written. -/
def operandOf (argument : String) : Operand :=
  if argument.toList.isEmpty || argument.toList.any isReserved then .quoted argument
  else .word argument

theorem text_operandOf (argument : String) : (operandOf argument).text = argument := by
  unfold operandOf
  split <;> rfl

/-- An escaped text stands between quotes. -/
theorem quotes_escapeQuoted (body : List Char) : Quotes '\'' (body.flatMap escapeQuoted) body := by
  induction body with
  | nil => exact .nil
  | cons c body ih =>
    rw [List.flatMap_cons, escapeQuoted]
    by_cases hescape : c = '\\' ∨ c = '\''
    · rw [if_pos (by simpa using hescape)]
      exact .escaped ih
    · rw [if_neg (by simpa using hescape)]
      exact .plain (fun h => hescape (.inr h)) (fun h => hescape (.inl h)) ih

/-- An argument is read back, quoted or not. -/
theorem lexes_argument (argument : String) (hrest : Separated rest) (h : Lexes tokens rest) :
    Lexes ((operandOf argument).token :: tokens) (writeArgument argument ++ rest) := by
  unfold operandOf writeArgument
  split
  · have hspells := Spells.quoted (.inl rfl) (quotes_escapeQuoted argument.toList)
    rw [String.ofList_toList] at hspells
    exact lexes_cons hspells trivial h
  · next hplain =>
    simp only [Bool.or_eq_true, List.isEmpty_iff, List.any_eq_true, not_or, not_exists, not_and,
      Bool.not_eq_true] at hplain
    exact lexes_word (by simpa using hplain.1) hplain.2 hrest h

theorem separated_writeArguments (arguments : List String) (hrest : Separated rest) :
    Separated (writeArguments arguments ++ rest) := by
  cases arguments with
  | nil => exact hrest
  | cons argument arguments => exact separated_cons (by decide) _

/-- Further arguments are read back with the commas in front of them. -/
theorem lexes_arguments (arguments : List String) (hrest : Separated rest)
    (h : Lexes tokens rest) :
    Lexes (Operands.restTokens (arguments.map operandOf) ++ tokens)
      (writeArguments arguments ++ rest) := by
  induction arguments with
  | nil => exact h
  | cons argument arguments ih =>
    have htext : writeArguments (argument :: arguments) ++ rest =
        ',' :: (writeArgument argument ++ (writeArguments arguments ++ rest)) := by
      simp [writeArguments]
    rw [htext]
    exact lexes_punctuation rfl
      (lexes_argument argument (separated_writeArguments arguments hrest) ih)

/-- The arguments of a comparison, one of them alone, any other number in parentheses. -/
def writeOperands : List String → List Char
  | [argument] => writeArgument argument
  | [] => ['(', ')']
  | argument :: rest => '(' :: (writeArgument argument ++ writeArguments rest ++ [')'])

theorem write_comparison (c : Comparison) :
    c.write = c.selector.toList ++ (c.operator.symbol.toList ++ writeOperands c.arguments) :=
  List.append_assoc _ _ _

/-- Arguments are written as a list if there are several, and by themselves if there is one. -/
theorem exists_written_operands {arguments : List String} (hne : arguments ≠ []) :
    ∃ operands : Operands, operands.texts = arguments ∧
      Written operands.tokens (writeOperands arguments) := by
  match arguments, hne with
  | [argument], _ =>
    refine ⟨.single (operandOf argument), ?_, ?_⟩
    · rw [Operands.texts, text_operandOf]
    · exact fun others rest hrest h => lexes_argument argument hrest h
  | argument :: second :: arguments, _ =>
    refine ⟨.listed (operandOf argument) ((second :: arguments).map operandOf), ?_, ?_⟩
    · simp [Operands.texts, text_operandOf, Function.comp_def]
    · intro others rest hrest h
      have hparen : Separated (')' :: rest) := separated_cons (by decide) rest
      simp only [writeOperands, Operands.tokens, List.cons_append, List.append_assoc,
        List.nil_append]
      exact lexes_punctuation rfl (lexes_argument argument (separated_writeArguments _ hparen)
        (lexes_arguments _ hparen (lexes_punctuation rfl h)))

/-- A comparison that can be written has a derivation that its text spells. -/
theorem exists_written_comparison {c : Comparison} (h : c.IsWritable) :
    ∃ constraint : Constraint, constraint.Fits ∧ constraint.tree = .comparison c ∧
      Written constraint.tokens c.write := by
  obtain ⟨selector, op, arguments⟩ := c
  obtain ⟨hselector, hword, hop, hne, hfits⟩ := h
  obtain ⟨operands, htexts, hwritten⟩ := exists_written_operands hne
  have hsymbol := Operator.ofSymbol_symbol hop
  refine ⟨.comparison selector op.symbol operands, ?_, ?_, ?_⟩
  · rw [Constraint.Fits, hsymbol, htexts]
    exact hfits
  · rw [Constraint.tree, hsymbol, htexts]
  · -- the text of the operator ends the selector, and is ended by what the arguments start with
    intro others rest hrest hothers
    obtain ⟨sign, symbol, hcons, hreserved⟩ :=
      Operator.exists_cons_of_isSymbol (Operator.isSymbol_symbol hop)
    have hsign : Separated (op.symbol.toList ++ (writeOperands arguments ++ rest)) := by
      rw [hcons]
      exact separated_cons hreserved _
    rw [write_comparison, List.append_assoc, List.append_assoc]
    exact lexes_word hselector hword hsign (lexes_cons (Operator.spells_symbol hop)
      (Operator.endsBefore_symbol hop _) (hwritten others rest hrest hothers))

/-!
### Groups

A text need not have a derivation of the shape of the query: a group of one member leaves no trace,
and a group in a group of the same connective loses its parentheses. What is claimed of the
derivation is that it has the same parts in normal form.
-/

/-- A conjunction that the text spells has the parts of the query. -/
def HasConjunction (query : Query) (text : List Char) : Prop :=
  ∃ conjunction : Conjunction, conjunction.Fits ∧
    normalizeParts .and conjunction.members = parts .and query.normalize ∧
    Written conjunction.tokens text

/-- Alternatives that the text spells have the parts of the query. -/
def HasAlternatives (query : Query) (text : List Char) : Prop :=
  ∃ alternatives : Alternatives, alternatives.Fits ∧
    normalizeParts .or alternatives.members = parts .or query.normalize ∧
    Written alternatives.tokens text

variable {query : Query} {text : List Char}

/-- The derivation of the alternatives of a query has its normal form. -/
theorem normalize_or_members {alternatives : Alternatives} (hnormal : query.normalize.IsNormal)
    (h : normalizeParts .or alternatives.members = parts .or query.normalize) :
    alternatives.tree.normalize = query.normalize := by
  rw [Alternatives.tree, normalize, h, hnormal.collapse_parts]

theorem normalize_and_members {conjunction : Conjunction} (hnormal : query.normalize.IsNormal)
    (h : normalizeParts .and conjunction.members = parts .and query.normalize) :
    conjunction.tree.normalize = query.normalize := by
  rw [Conjunction.tree, normalize, h, hnormal.collapse_parts]

/-- A conjunction is the only alternative. -/
theorem HasConjunction.hasAlternatives (hnormal : query.normalize.IsNormal)
    (h : HasConjunction query text) : HasAlternatives query text := by
  obtain ⟨conjunction, hfits, hparts, hwritten⟩ := h
  refine ⟨.one conjunction, hfits, ?_, hwritten⟩
  have htree : (and conjunction.members).normalize = query.normalize :=
    normalize_and_members hnormal hparts
  rw [Alternatives.members, normalizeParts, normalizeParts, List.append_nil, htree]

/-- Alternatives in parentheses are the only constraint of a conjunction. -/
theorem HasAlternatives.hasConjunction (hnormal : query.normalize.IsNormal)
    (h : HasAlternatives query text) : HasConjunction query ('(' :: (text ++ [')'])) := by
  obtain ⟨alternatives, hfits, hparts, hwritten⟩ := h
  refine ⟨.one (.group alternatives), hfits, ?_, hwritten.enclose⟩
  have htree : (or alternatives.members).normalize = query.normalize :=
    normalize_or_members hnormal hparts
  rw [Conjunction.members, normalizeParts, normalizeParts, List.append_nil, Constraint.tree, htree]

/-- A conjunction goes on with the conjuncts that are written behind it. -/
theorem exists_conjunction_append {members : List Query}
    (hmembers : ∀ member ∈ members, HasConjunction member (enclose member.isOr member.write))
    {first : Conjunction} (hfits : first.Fits) (hwritten : Written first.tokens text) :
    ∃ conjunction : Conjunction, conjunction.Fits ∧
      normalizeParts .and conjunction.members =
        normalizeParts .and first.members ++ normalizeParts .and members ∧
      Written conjunction.tokens (text ++ writeConjuncts members) := by
  induction members generalizing first text with
  | nil => exact ⟨first, hfits, by simp [normalizeParts], by simpa [writeConjuncts] using hwritten⟩
  | cons member members ih =>
    rw [List.forall_mem_cons] at hmembers
    obtain ⟨second, hfits', hparts, hwritten'⟩ := hmembers.1
    -- the separator is written as a sign, which joins the two conjunctions to one
    have hboth : Written (first.append .sign second).tokens
        (text ++ ';' :: enclose member.isOr member.write) := by
      rw [Conjunction.tokens_append]
      exact hwritten.append_sign rfl (by decide) hwritten'
    obtain ⟨conjunction, hconjunction, hmore, hall⟩ :=
      ih hmembers.2 (Conjunction.fits_append .sign hfits hfits') hboth
    refine ⟨conjunction, hconjunction, ?_, by simpa [writeConjuncts] using hall⟩
    rw [hmore, Conjunction.members_append, normalizeParts_append, hparts, normalizeParts,
      List.append_assoc]

/-- Alternatives go on with the disjuncts that are written behind them. -/
theorem exists_alternatives_append {members : List Query}
    (hmembers : ∀ member ∈ members, HasAlternatives member member.write)
    {first : Alternatives} (hfits : first.Fits) (hwritten : Written first.tokens text) :
    ∃ alternatives : Alternatives, alternatives.Fits ∧
      normalizeParts .or alternatives.members =
        normalizeParts .or first.members ++ normalizeParts .or members ∧
      Written alternatives.tokens (text ++ writeDisjuncts members) := by
  induction members generalizing first text with
  | nil => exact ⟨first, hfits, by simp [normalizeParts], by simpa [writeDisjuncts] using hwritten⟩
  | cons member members ih =>
    rw [List.forall_mem_cons] at hmembers
    obtain ⟨second, hfits', hparts, hwritten'⟩ := hmembers.1
    have hboth : Written (first.append .sign second).tokens (text ++ ',' :: member.write) := by
      rw [Alternatives.tokens_append]
      exact hwritten.append_sign rfl (by decide) hwritten'
    obtain ⟨alternatives, halternatives, hmore, hall⟩ :=
      ih hmembers.2 (Alternatives.fits_append .sign hfits hfits') hboth
    refine ⟨alternatives, halternatives, ?_, by simpa [writeDisjuncts] using hall⟩
    rw [hmore, Alternatives.members_append, normalizeParts_append, hparts, normalizeParts,
      List.append_assoc]

/-- The text of a well-formed query spells alternatives that stand for the query, and if the query
is no disjunction, a conjunction that does. -/
theorem IsWellFormed.hasAlternatives (h : query.IsWellFormed) :
    HasAlternatives query query.write ∧
      (query.isOr = false → HasConjunction query query.write) := by
  -- what a member says of itself is enough for it to stand in a conjunction, where a disjunction
  -- is written in parentheses
  have henclose : ∀ member : Query, member.normalize.IsNormal →
      HasAlternatives member member.write ∧
        (member.isOr = false → HasConjunction member member.write) →
      HasConjunction member (enclose member.isOr member.write) := by
    intro member hnormal hmember
    cases hor : member.isOr with
    | true => exact hmember.1.hasConjunction hnormal
    | false => exact hmember.2 hor
  induction h with
  | @comparison c hc =>
    have hconjunction : HasConjunction (comparison c) c.write := by
      obtain ⟨constraint, hfits, htree, hwritten⟩ := exists_written_comparison hc
      refine ⟨.one constraint, hfits, ?_, hwritten⟩
      rw [Conjunction.members, htree]
      rfl
    exact ⟨hconjunction.hasAlternatives (.comparison c), fun _ => hconjunction⟩
  | @and members hne hmembers ih =>
    have hnormal : ∀ member ∈ members, member.normalize.IsNormal := fun member hmember =>
      isNormal_normalize (hmembers member hmember)
    have hconjunctions : ∀ member ∈ members,
        HasConjunction member (enclose member.isOr member.write) := fun member hmember =>
      henclose member (hnormal member hmember) (ih member hmember)
    have hconjunction : HasConjunction (and members) (and members).write := by
      -- no conjunction is left among the parts, so collapsing can be taken back
      have hflat : ∀ part ∈ normalizeParts .and members, part.isGroup .and = false :=
        fun part hpart => (of_mem_normalizeParts hnormal hpart).2
      obtain ⟨first, rest, rfl⟩ := List.exists_cons_of_ne_nil hne
      obtain ⟨hfirst, hrest⟩ := List.forall_mem_cons.mp hconjunctions
      obtain ⟨start, hfits, hparts, hwritten⟩ := hfirst
      obtain ⟨conjunction, hconjunction, hall, hwhole⟩ :=
        exists_conjunction_append hrest hfits hwritten
      refine ⟨conjunction, hconjunction, ?_, hwhole⟩
      rw [normalize, parts_collapse hflat, hall, hparts, normalizeParts]
    exact ⟨hconjunction.hasAlternatives (isNormal_normalize (.and hne hmembers)),
      fun _ => hconjunction⟩
  | @or members hne hmembers ih =>
    have hflat : ∀ part ∈ normalizeParts .or members, part.isGroup .or = false :=
      fun part hpart => (of_mem_normalizeParts
        (fun member hmember => isNormal_normalize (hmembers member hmember)) hpart).2
    refine ⟨?_, fun hor => absurd hor (by simp [isOr])⟩
    obtain ⟨first, rest, rfl⟩ := List.exists_cons_of_ne_nil hne
    obtain ⟨hfirst, hrest⟩ := List.forall_mem_cons.mp fun member hmember => (ih member hmember).1
    obtain ⟨start, hfits, hparts, hwritten⟩ := hfirst
    obtain ⟨alternatives, halternatives, hall, hwhole⟩ :=
      exists_alternatives_append hrest hfits hwritten
    refine ⟨alternatives, halternatives, ?_, hwhole⟩
    rw [normalize, parts_collapse hflat, hall, hparts, normalizeParts]

/-! ### Reading texts -/

/-- The queries that are read from a text are the normal forms of derivations that it spells. -/
theorem ofText_eq_ok_iff {text : String} : ofText text = .ok query ↔
    ∃ alternatives : Alternatives, Lexes alternatives.tokens text.toList ∧ alternatives.Fits ∧
      query = alternatives.tree.normalize := by
  constructor
  · intro h
    unfold ofText parser at h
    cases htokens : tokenize text with
    | error e =>
      rw [htokens] at h
      cases h
    | ok tokens =>
      obtain ⟨before, rfl, hlexes⟩ := Scanner.exists_of_tokens htokens
      have hparse : (Parser.ofTokens (before ++ [.endOfInput])).parse.1 = .ok query := by
        simp only [htokens] at h
        cases hresult : (Parser.ofTokens (before ++ [.endOfInput])).parse.1 with
        | error e =>
          rw [hresult] at h
          cases h
        | ok parsed =>
          rw [hresult] at h
          cases h
          rfl
      -- the tokens come from a derivation, and the text lexes to them
      obtain ⟨alternatives, rfl, hfits, rfl⟩ :=
        Parser.exists_of_parse (endOfInput_not_mem_of_lexes hlexes) hparse
      exact ⟨alternatives, hlexes, hfits, rfl⟩
  · rintro ⟨alternatives, hlexes, hfits, rfl⟩
    have htokens : tokenize text = .ok (alternatives.tokens ++ [.endOfInput]) :=
      Scanner.tokens_of_lexes (s := .ofText text) hlexes
    simp only [ofText, parser, htokens,
      Parser.parse_tokens hfits (endOfInput_not_mem_of_lexes hlexes)]
    rfl

/-- A well-formed query is read from its text up to normal form. -/
theorem IsWellFormed.ofText_text (h : query.IsWellFormed) :
    ofText query.text = .ok query.normalize := by
  obtain ⟨alternatives, hfits, hparts, hwritten⟩ := h.hasAlternatives.1
  refine ofText_eq_ok_iff.mpr ⟨alternatives, ?_, hfits, ?_⟩
  · have hend : Separated [] := fun c hc => absurd hc (by simp)
    have hlexes := hwritten [] [] hend (.nil (List.forall_mem_nil _))
    rw [List.append_nil, List.append_nil] at hlexes
    rwa [Query.text, String.toList_ofList]
  · exact (normalize_or_members (isNormal_normalize h) hparts).symm

/-- A comparison whose tokens are spelt in a text can be written. -/
theorem isWritable_of_isLeaf {tokens : List Token} {cs : List Char} {c : Comparison}
    (hlexes : Lexes tokens cs) (h : IsLeaf tokens c) : c.IsWritable := by
  obtain ⟨selector, symbol, operands, rfl, hselector, hsymbol, hfits⟩ := h
  obtain ⟨word, hword⟩ := exists_spells_of_lexes hlexes hselector
  obtain ⟨hne, hplain⟩ := hword.of_word
  obtain ⟨lexeme, hspells⟩ := exists_spells_of_lexes hlexes hsymbol
  obtain ⟨rfl, his⟩ := hspells.of_operator
  have hoperator := Operator.isWellFormed_ofSymbol his
  exact ⟨hne, hplain, hoperator, operands.texts_ne_nil, hfits⟩

/-- **Reading what was written.** A well-formed query is read from its text up to normal form.
Every query that is read from any text is well-formed and normal, hence read from its own text. -/
theorem ofText_text_eq_ok (query : Query) :
    (query.IsWellFormed → ofText query.text = .ok query.normalize) ∧
    ∀ text : String, ofText text = .ok query →
      query.IsWellFormed ∧ query.IsNormal ∧ ofText query.text = .ok query := by
  refine ⟨IsWellFormed.ofText_text, fun text h => ?_⟩
  obtain ⟨alternatives, hlexes, hfits, rfl⟩ := ofText_eq_ok_iff.mp h
  have hnormal := alternatives.isNormal_tree
  have hwell : alternatives.tree.normalize.IsWellFormed := by
    refine hnormal.composedOf fun c hc => ?_
    rw [leaves_normalize] at hc
    exact isWritable_of_isLeaf hlexes (Alternatives.isLeaf_of_mem hfits hc)
  refine ⟨hwell, hnormal, ?_⟩
  rw [hwell.ofText_text, hnormal.normalize_eq]

/-- An apostrophe and an empty argument are read back, and the single member of a group takes the
place of the group. -/
theorem ofText_text_eq_ok_quoted :
    IsWellFormed (.and [.comparison ⟨"name", .equal, ["it's"]⟩,
      .or [.comparison ⟨"or", .other "=x=", ["", "or"]⟩]]) ∧
    ofText "name=='it\\'s';(or=x=('',or))" =
      .ok (.and [.comparison ⟨"name", .equal, ["it's"]⟩,
        .comparison ⟨"or", .other "=x=", ["", "or"]⟩]) := by
  have hname : Comparison.IsWritable ⟨"name", .equal, ["it's"]⟩ :=
    ⟨by decide, forall_isReserved_eq_false rfl, trivial, List.cons_ne_nil _ _, .inr rfl⟩
  have hother : Comparison.IsWritable ⟨"or", .other "=x=", ["", "or"]⟩ := by
    refine ⟨by decide, forall_isReserved_eq_false rfl,
      ⟨⟨['x'], List.all_eq_true.mp rfl, rfl⟩, ?_⟩, List.cons_ne_nil _ _,
      .inl (.inr (.inr ⟨_, rfl⟩))⟩
    intro known hknown
    cases known with
    | other symbol => cases hknown
    | _ => decide
  have hwell : IsWellFormed (.and [.comparison ⟨"name", .equal, ["it's"]⟩,
      .or [.comparison ⟨"or", .other "=x=", ["", "or"]⟩]]) := by
    refine .and (List.cons_ne_nil _ _) ?_
    simp only [List.forall_mem_cons, List.not_mem_nil, false_imp_iff, implies_true, and_true]
    refine ⟨.comparison hname, .or (List.cons_ne_nil _ _) ?_⟩
    simpa using .comparison hother
  have htext : Query.text (.and [.comparison ⟨"name", .equal, ["it's"]⟩,
      .or [.comparison ⟨"or", .other "=x=", ["", "or"]⟩]]) =
        "name=='it\\'s';(or=x=('',or))" := by
    decide
  refine ⟨hwell, ?_⟩
  rw [← htext]
  exact (ofText_text_eq_ok _).1 hwell

end Query

end FilterQuery
