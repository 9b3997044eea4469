import FilterQuery.Proofs.Normal
import FilterQuery.Proofs.UpperCase

/-!
# The grammar of queries

A **derivation** is a tree over the rules of the grammar that keeps every token: which connector
stands between two constraints, whether an argument is quoted, where parentheses are put. There are
three kinds of derivations, for the three levels at which constraints are put together: constraints,
conjunctions of them and alternatives of those.

* **Tokens and trees.** A derivation has a list of **tokens** and a **tree**, the query it spells
  with a group for each rule that makes one. The comparisons of the tree are found among the tokens
  (`Alternatives.isLeaf_of_mem`), and its normal form is normal.
* **Arguments.** An operator that takes a single value may have one argument only. This rule is no
  matter of the grammar; a derivation that keeps it **fits** its operators.
* **One after the other.** Conjunctions and alternatives are joined at a connector, and a constraint
  is put in front of alternatives. The tokens and the members of what is joined stand one after the
  other, which is what the text of a query and the steps of the parser are compared with.
* **Unambiguity.** No two derivations have the same tokens (`Alternatives.tokens_injective`): the
  tokens that follow a part of a derivation are cut off at one place only. So each cancellation
  lemma is about tokens with any others behind them that start with no connector of the level.
-/

namespace FilterQuery

namespace Connective

/-- The punctuation mark of the connective. -/
def sign : Connective → Token
  | and => .semicolon
  | or => .comma

/-- The word for the connective, in lower case. -/
def word : Connective → String
  | and => "and"
  | or => "or"

/-- The words for a connective are its word in any letter case. -/
theorem ofWord?_eq_some_iff {connective : Connective} {text : String} :
    ofWord? text = some connective ↔ Text.asciiLower text = connective.word := by
  have hand : Text.upper text = "AND" ↔ Text.asciiLower text = "and" :=
    Text.upper_eq_iff (by simp [Text.connectiveLetters])
  have hor : Text.upper text = "OR" ↔ Text.asciiLower text = "or" :=
    Text.upper_eq_iff (by simp [Text.connectiveLetters])
  unfold ofWord?
  simp only [hand, hor]
  by_cases hisAnd : Text.asciiLower text = "and"
  · rw [if_pos hisAnd, hisAnd]
    cases connective <;> decide
  · rw [if_neg hisAnd]
    by_cases hisOr : Text.asciiLower text = "or"
    · rw [if_pos hisOr, hisOr]
      cases connective <;> decide
    · rw [if_neg hisOr]
      cases connective <;> simp [word, hisAnd, hisOr]

end Connective

namespace Grammar

/-!
### Derivations

A derivation keeps what a query forgets: whether a connective was a sign or a word and how this was
spelled, which arguments were quoted, and all the parentheses. The three levels are those of the
grammar, so no derivation is ambiguous in how the connectives bind.
-/

/-- What stands between two constraints for a connective: its sign or its word. -/
inductive Connector (connective : Connective) where
  | sign
  | word (text : String) (h : Text.asciiLower text = connective.word)

/-- An argument as it stands among the tokens. -/
inductive Operand where
  | word (text : String)
  | quoted (text : String)

/-- The arguments of a comparison: one alone, or some in parentheses. -/
inductive Operands where
  | single (operand : Operand)
  | listed (first : Operand) (rest : List Operand)

mutual

/-- A comparison or a group in parentheses. -/
inductive Constraint where
  | comparison (selector symbol : String) (operands : Operands)
  | group (alternatives : Alternatives)

/-- Constraints with connectors between them. -/
inductive Conjunction where
  | one (constraint : Constraint)
  | more (constraint : Constraint) (connector : Connector .and) (rest : Conjunction)

/-- Conjunctions with connectors between them. -/
inductive Alternatives where
  | one (conjunction : Conjunction)
  | more (conjunction : Conjunction) (connector : Connector .or) (rest : Alternatives)

end

/-! ### Tokens -/

def Connector.token {connective : Connective} : Connector connective → Token
  | sign => connective.sign
  | word text _ => .word text

namespace Operand

def token : Operand → Token
  | word text => .word text
  | quoted text => .quoted text

def text : Operand → String
  | word text => text
  | quoted text => text

end Operand

namespace Operands

/-- The tokens of the arguments after the first. -/
def restTokens (rest : List Operand) : List Token :=
  rest.flatMap fun operand => [.comma, operand.token]

def tokens : Operands → List Token
  | single operand => [operand.token]
  | listed first rest => .leftParen :: first.token :: (restTokens rest ++ [.rightParen])

/-- The arguments without quotes. -/
def texts : Operands → List String
  | single operand => [operand.text]
  | listed first rest => first.text :: rest.map Operand.text

end Operands

mutual

def Constraint.tokens : Constraint → List Token
  | .comparison selector symbol operands => .word selector :: .operator symbol :: operands.tokens
  | .group alternatives => .leftParen :: (alternatives.tokens ++ [.rightParen])

def Conjunction.tokens : Conjunction → List Token
  | .one constraint => constraint.tokens
  | .more constraint connector rest => constraint.tokens ++ connector.token :: rest.tokens

def Alternatives.tokens : Alternatives → List Token
  | .one conjunction => conjunction.tokens
  | .more conjunction connector rest => conjunction.tokens ++ connector.token :: rest.tokens

end

theorem Constraint.tokens_ne_nil (constraint : Constraint) : constraint.tokens ≠ [] := by
  cases constraint <;> exact List.cons_ne_nil _ _

/-- A conjunction has tokens. -/
theorem Conjunction.tokens_ne_nil (conjunction : Conjunction) : conjunction.tokens ≠ [] := by
  cases conjunction with
  | one constraint => exact constraint.tokens_ne_nil
  | more constraint connector rest =>
    exact List.append_ne_nil_of_left_ne_nil constraint.tokens_ne_nil _

/-- Alternatives have tokens. -/
theorem Alternatives.tokens_ne_nil (alternatives : Alternatives) : alternatives.tokens ≠ [] := by
  cases alternatives with
  | one conjunction => exact conjunction.tokens_ne_nil
  | more conjunction connector rest =>
    exact List.append_ne_nil_of_left_ne_nil conjunction.tokens_ne_nil _

/-! ### Trees -/

mutual

/-- The query of a constraint. -/
def Constraint.tree : Constraint → Query
  | .comparison selector symbol operands => .comparison ⟨selector, .ofSymbol symbol, operands.texts⟩
  | .group alternatives => .or alternatives.members

/-- The queries of the constraints. -/
def Conjunction.members : Conjunction → List Query
  | .one constraint => [constraint.tree]
  | .more constraint _ rest => constraint.tree :: rest.members

/-- The queries of the conjunctions. -/
def Alternatives.members : Alternatives → List Query
  | .one conjunction => [.and conjunction.members]
  | .more conjunction _ rest => .and conjunction.members :: rest.members

end

/-- The query of a conjunction. -/
def Conjunction.tree (conjunction : Conjunction) : Query := .and conjunction.members

/-- The query of some alternatives. -/
def Alternatives.tree (alternatives : Alternatives) : Query := .or alternatives.members

mutual

/-- The operators have no more arguments than they take. -/
def Constraint.Fits : Constraint → Prop
  | .comparison _ symbol operands =>
    (Operator.ofSymbol symbol).TakesMany ∨ operands.texts.length = 1
  | .group alternatives => alternatives.Fits

def Conjunction.Fits : Conjunction → Prop
  | .one constraint => constraint.Fits
  | .more constraint _ rest => constraint.Fits ∧ rest.Fits

def Alternatives.Fits : Alternatives → Prop
  | .one conjunction => conjunction.Fits
  | .more conjunction _ rest => conjunction.Fits ∧ rest.Fits

end

theorem Conjunction.members_ne_nil (conjunction : Conjunction) : conjunction.members ≠ [] := by
  cases conjunction <;> exact List.cons_ne_nil _ _

theorem Alternatives.members_ne_nil (alternatives : Alternatives) : alternatives.members ≠ [] := by
  cases alternatives <;> exact List.cons_ne_nil _ _

mutual

/-- Every group in the tree of a derivation has a member. -/
theorem Constraint.composedOf_tree (constraint : Constraint) :
    constraint.tree.ComposedOf fun _ => True := by
  match constraint with
  | .comparison selector symbol operands => exact .comparison trivial
  | .group alternatives =>
    exact .or alternatives.members_ne_nil alternatives.composedOf_members

theorem Conjunction.composedOf_members (conjunction : Conjunction) :
    ∀ member ∈ conjunction.members, member.ComposedOf fun _ => True := by
  match conjunction with
  | .one constraint =>
    rw [Conjunction.members, List.forall_mem_singleton]
    exact constraint.composedOf_tree
  | .more constraint connector rest =>
    rw [Conjunction.members, List.forall_mem_cons]
    exact ⟨constraint.composedOf_tree, rest.composedOf_members⟩

theorem Alternatives.composedOf_members (alternatives : Alternatives) :
    ∀ member ∈ alternatives.members, member.ComposedOf fun _ => True := by
  match alternatives with
  | .one conjunction =>
    rw [Alternatives.members, List.forall_mem_singleton]
    exact .and conjunction.members_ne_nil conjunction.composedOf_members
  | .more conjunction connector rest =>
    rw [Alternatives.members, List.forall_mem_cons]
    exact ⟨.and conjunction.members_ne_nil conjunction.composedOf_members,
      rest.composedOf_members⟩

end

theorem Conjunction.isNormal_normalize (conjunction : Conjunction) :
    ∀ member ∈ conjunction.members, member.normalize.IsNormal := fun member hmember =>
  Query.isNormal_normalize (conjunction.composedOf_members member hmember)

theorem Alternatives.isNormal_normalize (alternatives : Alternatives) :
    ∀ member ∈ alternatives.members, member.normalize.IsNormal := fun member hmember =>
  Query.isNormal_normalize (alternatives.composedOf_members member hmember)

/-- The normal form of a derivation is normal. -/
theorem Alternatives.isNormal_tree (alternatives : Alternatives) :
    alternatives.tree.normalize.IsNormal :=
  Query.isNormal_normalize (.or alternatives.members_ne_nil alternatives.composedOf_members)

/-- A leaf stands among the tokens, with no more arguments than its operator takes. -/
def IsLeaf (tokens : List Token) (c : Comparison) : Prop :=
  ∃ (selector symbol : String) (operands : Operands),
    c = ⟨selector, .ofSymbol symbol, operands.texts⟩ ∧
    .word selector ∈ tokens ∧ .operator symbol ∈ tokens ∧
    ((Operator.ofSymbol symbol).TakesMany ∨ operands.texts.length = 1)

theorem IsLeaf.mono {tokens others : List Token} {c : Comparison} (h : IsLeaf tokens c)
    (hsub : tokens ⊆ others) : IsLeaf others c := by
  obtain ⟨selector, symbol, operands, rfl, hselector, hsymbol, hfits⟩ := h
  exact ⟨selector, symbol, operands, rfl, hsub hselector, hsub hsymbol, hfits⟩

mutual

theorem Constraint.isLeaf_of_mem {constraint : Constraint} (hfits : constraint.Fits)
    {c : Comparison} (hc : c ∈ constraint.tree.leaves) : IsLeaf constraint.tokens c := by
  match constraint with
  | .comparison selector symbol operands =>
    exact ⟨selector, symbol, operands, List.mem_singleton.mp hc, by simp [Constraint.tokens],
      by simp [Constraint.tokens], hfits⟩
  | .group alternatives =>
    refine (Alternatives.isLeaf_of_mem hfits hc).mono fun token htoken => ?_
    rw [Constraint.tokens]
    exact List.mem_cons_of_mem _ (List.mem_append_left _ htoken)

theorem Conjunction.isLeaf_of_mem {conjunction : Conjunction} (hfits : conjunction.Fits)
    {c : Comparison} (hc : c ∈ Query.leavesOf conjunction.members) :
    IsLeaf conjunction.tokens c := by
  match conjunction with
  | .one constraint =>
    simp only [Conjunction.members, Query.leavesOf, List.append_nil] at hc
    exact Constraint.isLeaf_of_mem hfits hc
  | .more constraint connector rest =>
    rw [Conjunction.members, Query.leavesOf] at hc
    rw [Conjunction.tokens]
    rcases List.mem_append.mp hc with hc | hc
    · exact (Constraint.isLeaf_of_mem hfits.1 hc).mono (List.subset_append_left _ _)
    · exact (Conjunction.isLeaf_of_mem hfits.2 hc).mono
        fun token htoken => List.mem_append_right _ (List.mem_cons_of_mem _ htoken)

/-- The comparisons of a derivation are found among its tokens. -/
theorem Alternatives.isLeaf_of_mem {alternatives : Alternatives} (hfits : alternatives.Fits)
    {c : Comparison} (hc : c ∈ Query.leavesOf alternatives.members) :
    IsLeaf alternatives.tokens c := by
  match alternatives with
  | .one conjunction =>
    simp only [Alternatives.members, Query.leavesOf, List.append_nil] at hc
    exact Conjunction.isLeaf_of_mem hfits hc
  | .more conjunction connector rest =>
    rw [Alternatives.members, Query.leavesOf] at hc
    rw [Alternatives.tokens]
    rcases List.mem_append.mp hc with hc | hc
    · exact (Conjunction.isLeaf_of_mem hfits.1 hc).mono (List.subset_append_left _ _)
    · exact (Alternatives.isLeaf_of_mem hfits.2 hc).mono
        fun token htoken => List.mem_append_right _ (List.mem_cons_of_mem _ htoken)

end

theorem Operands.texts_ne_nil (operands : Operands) : operands.texts ≠ [] := by
  cases operands <;> exact List.cons_ne_nil _ _

/-!
### Derivations one after the other

Texts are written from the left to the right, so derivations are put together at their ends: a
conjunction goes on with another one behind a connector, and so do alternatives.
-/

def Conjunction.append : Conjunction → Connector .and → Conjunction → Conjunction
  | .one constraint, connector, second => .more constraint connector second
  | .more constraint next rest, connector, second =>
    .more constraint next (rest.append connector second)

def Alternatives.append : Alternatives → Connector .or → Alternatives → Alternatives
  | .one conjunction, connector, second => .more conjunction connector second
  | .more conjunction next rest, connector, second =>
    .more conjunction next (rest.append connector second)

namespace Conjunction

theorem tokens_append (first : Conjunction) (connector : Connector .and) (second : Conjunction) :
    (first.append connector second).tokens = first.tokens ++ connector.token :: second.tokens := by
  match first with
  | .one constraint => rfl
  | .more constraint next rest => simp [append, tokens, tokens_append rest connector second]

theorem members_append (first : Conjunction) (connector : Connector .and)
    (second : Conjunction) :
    (first.append connector second).members = first.members ++ second.members := by
  match first with
  | .one constraint => rfl
  | .more constraint next rest => simp [append, members, members_append rest connector second]

theorem fits_append {first second : Conjunction} (connector : Connector .and)
    (hfirst : first.Fits) (hsecond : second.Fits) : (first.append connector second).Fits := by
  match first with
  | .one constraint => exact ⟨hfirst, hsecond⟩
  | .more constraint next rest => exact ⟨hfirst.1, fits_append connector hfirst.2 hsecond⟩

end Conjunction

namespace Alternatives

theorem tokens_append (first : Alternatives) (connector : Connector .or) (second : Alternatives) :
    (first.append connector second).tokens = first.tokens ++ connector.token :: second.tokens := by
  match first with
  | .one conjunction => rfl
  | .more conjunction next rest => simp [append, tokens, tokens_append rest connector second]

theorem members_append (first : Alternatives) (connector : Connector .or)
    (second : Alternatives) :
    (first.append connector second).members = first.members ++ second.members := by
  match first with
  | .one conjunction => rfl
  | .more conjunction next rest => simp [append, members, members_append rest connector second]

theorem fits_append {first second : Alternatives} (connector : Connector .or)
    (hfirst : first.Fits) (hsecond : second.Fits) : (first.append connector second).Fits := by
  match first with
  | .one conjunction => exact ⟨hfirst, hsecond⟩
  | .more conjunction next rest => exact ⟨hfirst.1, fits_append connector hfirst.2 hsecond⟩

end Alternatives

/-- The alternatives with one more constraint in front of the first conjunction. -/
def Alternatives.prepend (constraint : Constraint) (connector : Connector .and) :
    Alternatives → Alternatives
  | .one conjunction => .one (.more constraint connector conjunction)
  | .more conjunction next rest => .more (.more constraint connector conjunction) next rest

theorem Alternatives.tokens_prepend (constraint : Constraint) (connector : Connector .and)
    (alternatives : Alternatives) : (alternatives.prepend constraint connector).tokens =
      constraint.tokens ++ connector.token :: alternatives.tokens := by
  cases alternatives <;> simp [prepend, tokens, Conjunction.tokens]

theorem Alternatives.fits_prepend {constraint : Constraint} {connector : Connector .and}
    {alternatives : Alternatives} (hconstraint : constraint.Fits)
    (halternatives : alternatives.Fits) : (alternatives.prepend constraint connector).Fits := by
  cases alternatives with
  | one conjunction => exact ⟨hconstraint, halternatives⟩
  | more conjunction next rest => exact ⟨⟨hconstraint, halternatives.1⟩, halternatives.2⟩

/-! ### Connectors -/

namespace Connector

variable {connective : Connective}

@[simp] theorem connective?_token (connector : Connector connective) :
    connector.token.connective? = some connective := by
  cases connector with
  | sign => cases connective <;> rfl
  | word text h => exact Connective.ofWord?_eq_some_iff.mpr h

theorem token_injective {first second : Connector connective} (h : first.token = second.token) :
    first = second := by
  cases first <;> cases second <;> cases connective <;> simp_all [token, Connective.sign]

/-- The tokens that stand for a connective are its connectors. -/
theorem exists_of_connective? {token : Token} (h : token.connective? = some connective) :
    ∃ connector : Connector connective, connector.token = token := by
  cases token with
  | semicolon =>
    cases h
    exact ⟨.sign, rfl⟩
  | comma =>
    cases h
    exact ⟨.sign, rfl⟩
  | word text => exact ⟨.word text (Connective.ofWord?_eq_some_iff.mp h), rfl⟩
  | _ => cases h

end Connector

/-!
### Derivations are determined by their tokens

The statements are about tokens with others behind them, since each part of a derivation is read in
front of the rest. A constraint and its arguments show their own ends. Conjunctions and alternatives
end where no connector of theirs follows, which is a hypothesis on the rest.
-/

theorem Operand.token_injective {first second : Operand} (h : first.token = second.token) :
    first = second := by
  cases first <;> cases second <;> simp_all [token]

namespace Operands

/-- The end of a list of arguments is where the parenthesis closes. -/
theorem restTokens_append_inj {first second : List Operand} {r s : List Token}
    (h : restTokens first ++ .rightParen :: r = restTokens second ++ .rightParen :: s) :
    first = second ∧ r = s := by
  induction first generalizing second with
  | nil =>
    cases second with
    | nil => exact ⟨rfl, by simpa [restTokens] using h⟩
    | cons operand second => simp [restTokens] at h
  | cons operand first ih =>
    cases second with
    | nil => simp [restTokens] at h
    | cons operand' second =>
      simp only [restTokens, List.flatMap_cons, List.cons_append, List.nil_append,
        List.cons.injEq, true_and] at h
      obtain ⟨rfl, rfl⟩ := ih h.2
      rw [Operand.token_injective h.1]
      exact ⟨rfl, rfl⟩

/-- The end of the arguments is found whatever follows them. -/
theorem tokens_append_inj {first second : Operands} {r s : List Token}
    (h : first.tokens ++ r = second.tokens ++ s) : first = second ∧ r = s := by
  -- one argument or a list of them shows at the first token
  have hparen : ∀ operand : Operand, operand.token ≠ .leftParen := by
    intro operand
    cases operand <;> simp [Operand.token]
  cases first with
  | single operand =>
    cases second with
    | single operand' =>
      simp only [tokens, List.singleton_append, List.cons.injEq] at h
      rw [Operand.token_injective h.1]
      exact ⟨rfl, h.2⟩
    | listed first' rest' =>
      simp only [tokens, List.cons_append, List.cons.injEq] at h
      exact absurd h.1 (hparen operand)
  | listed first rest =>
    cases second with
    | single operand' =>
      simp only [tokens, List.cons_append, List.cons.injEq] at h
      exact absurd h.1.symm (hparen operand')
    | listed first' rest' =>
      simp only [tokens, List.cons_append, List.append_assoc, List.cons.injEq, true_and] at h
      obtain ⟨rfl, rfl⟩ := restTokens_append_inj h.2
      rw [Operand.token_injective h.1]
      exact ⟨rfl, rfl⟩

end Operands

/-- No token at the front stands for the connective. -/
def NotBefore (connective : Connective) (tokens : List Token) : Prop :=
  ∀ token ∈ tokens.head?, token.connective? ≠ some connective

theorem NotBefore.ne_connector {connective : Connective} {tokens rest : List Token}
    (h : NotBefore connective tokens) (connector : Connector connective) :
    tokens ≠ connector.token :: rest := by
  rintro rfl
  exact h connector.token rfl connector.connective?_token

theorem connective?_eq_none {token : Token} {rest : List Token}
    (h : ∀ connective, NotBefore connective (token :: rest)) : token.connective? = none :=
  Option.eq_none_iff_forall_ne_some.mpr fun connective => h connective token rfl

/-- A connector of one connective is none of the other. -/
theorem notBefore_connector {connective other : Connective} (hne : other ≠ connective)
    (connector : Connector other) (rest : List Token) :
    NotBefore connective (connector.token :: rest) := by
  intro token htoken
  cases htoken
  rw [connector.connective?_token]
  exact fun h => hne (Option.some.inj h)

mutual

/-- The tokens of a constraint end where they end, whatever follows. -/
theorem Constraint.tokens_append_inj {first second : Constraint} {r s : List Token}
    (h : first.tokens ++ r = second.tokens ++ s) : first = second ∧ r = s := by
  match first, second with
  | .comparison selector symbol operands, .comparison selector' symbol' operands' =>
    simp only [Constraint.tokens, List.cons_append, List.cons.injEq, Token.word.injEq,
      Token.operator.injEq] at h
    obtain ⟨rfl, rfl, h⟩ := h
    obtain ⟨rfl, rfl⟩ := Operands.tokens_append_inj h
    exact ⟨rfl, rfl⟩
  | .comparison selector symbol operands, .group alternatives => simp [Constraint.tokens] at h
  | .group alternatives, .comparison selector symbol operands => simp [Constraint.tokens] at h
  | .group alternatives, .group alternatives' =>
    simp only [Constraint.tokens, List.cons_append, List.append_assoc, List.cons.injEq,
      true_and] at h
    -- a closing parenthesis continues neither a conjunction nor alternatives
    have hclosed : ∀ connective (rest : List Token),
        NotBefore connective (.rightParen :: rest) := by
      intro connective rest token htoken
      cases htoken
      simp [Token.connective?, Token.keyword?]
    obtain ⟨rfl, hrest⟩ := Alternatives.tokens_append_inj h (fun c => hclosed c r)
      (fun c => hclosed c s)
    exact ⟨rfl, (List.cons.inj hrest).2⟩

/-- The tokens of a conjunction end before the first token that cannot continue it. -/
theorem Conjunction.tokens_append_inj {first second : Conjunction} {r s : List Token}
    (h : first.tokens ++ r = second.tokens ++ s) (hr : NotBefore .and r) (hs : NotBefore .and s) :
    first = second ∧ r = s := by
  match first, second with
  | .one constraint, .one constraint' =>
    obtain ⟨rfl, rfl⟩ := Constraint.tokens_append_inj h
    exact ⟨rfl, rfl⟩
  | .one constraint, .more constraint' connector' rest' =>
    simp only [Conjunction.tokens, List.append_assoc, List.cons_append] at h
    exact absurd (Constraint.tokens_append_inj h).2 (hr.ne_connector connector')
  | .more constraint connector rest, .one constraint' =>
    simp only [Conjunction.tokens, List.append_assoc, List.cons_append] at h
    exact absurd (Constraint.tokens_append_inj h).2.symm (hs.ne_connector connector)
  | .more constraint connector rest, .more constraint' connector' rest' =>
    simp only [Conjunction.tokens, List.append_assoc, List.cons_append] at h
    obtain ⟨rfl, hrest⟩ := Constraint.tokens_append_inj h
    obtain ⟨hconnector, hrest⟩ := List.cons.inj hrest
    obtain ⟨rfl, rfl⟩ := Conjunction.tokens_append_inj hrest hr hs
    rw [Connector.token_injective hconnector]
    exact ⟨rfl, rfl⟩

/-- The tokens of alternatives end before the first token that cannot continue them. -/
theorem Alternatives.tokens_append_inj {first second : Alternatives} {r s : List Token}
    (h : first.tokens ++ r = second.tokens ++ s) (hr : ∀ connective, NotBefore connective r)
    (hs : ∀ connective, NotBefore connective s) : first = second ∧ r = s := by
  match first, second with
  | .one conjunction, .one conjunction' =>
    obtain ⟨rfl, rfl⟩ := Conjunction.tokens_append_inj h (hr .and) (hs .and)
    exact ⟨rfl, rfl⟩
  | .one conjunction, .more conjunction' connector' rest' =>
    simp only [Alternatives.tokens, List.append_assoc, List.cons_append] at h
    -- the first would have to go on with the connector of the second
    have hnot : NotBefore .and (connector'.token :: (rest'.tokens ++ s)) :=
      notBefore_connector (by decide) connector' _
    exact absurd (Conjunction.tokens_append_inj h (hr .and) hnot).2
      ((hr .or).ne_connector connector')
  | .more conjunction connector rest, .one conjunction' =>
    simp only [Alternatives.tokens, List.append_assoc, List.cons_append] at h
    have hnot : NotBefore .and (connector.token :: (rest.tokens ++ r)) :=
      notBefore_connector (by decide) connector _
    exact absurd (Conjunction.tokens_append_inj h hnot (hs .and)).2.symm
      ((hs .or).ne_connector connector)
  | .more conjunction connector rest, .more conjunction' connector' rest' =>
    simp only [Alternatives.tokens, List.append_assoc, List.cons_append] at h
    obtain ⟨rfl, hrest⟩ := Conjunction.tokens_append_inj h
      (notBefore_connector (by decide) connector _) (notBefore_connector (by decide) connector' _)
    obtain ⟨hconnector, hrest⟩ := List.cons.inj hrest
    obtain ⟨rfl, rfl⟩ := Alternatives.tokens_append_inj hrest hr hs
    rw [Connector.token_injective hconnector]
    exact ⟨rfl, rfl⟩

end

/-- No two derivations have the same tokens. -/
theorem Alternatives.tokens_injective {first second : Alternatives}
    (h : first.tokens = second.tokens) : first = second := by
  have hnil : ∀ connective, NotBefore connective [] := fun _ _ htoken => nomatch htoken
  exact (tokens_append_inj (congrArg (· ++ []) h) hnil hnil).1

end Grammar

end FilterQuery
