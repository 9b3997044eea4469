import FilterQuery.Query.Scanner

/-!
# The spelling of tokens

A token is **spelt** by some characters, and it **ends before** what follows if the scanner does not
read on: a word has to be followed by a character that is no part of words, and `<` and `>` by
anything but `=`. A text **lexes** to some tokens if it is their spellings with blank characters
between them. The scanner succeeds on the texts that lex, with the tokens they lex to
(`tokens_eq_ok_iff`).

* **Spellings** do not mention the scanner: a word is made of characters that are not reserved, a
  quoted string of characters that are escaped or need not be, an operator of letters between two
  `=` or of one of the short signs.
* **Lexemes.** The scanner cuts one lexeme off the front of a text. It succeeds where the text
  starts with a spelling that ends there (`cutLexeme_append`, `exists_of_cutLexeme`), one kind of
  lexeme after the other, by the character that it starts with.
* **Descriptions.** What an error calls a token tells the tokens of a text apart
  (`Spells.eq_of_describe_eq`).
* **Texts.** The tokens of a text are those of its first lexeme and of the rest, so both directions
  are shown by going through the text.
-/

namespace FilterQuery

namespace Query

/-!
### Spellings

Spellings are written down as a text shows them. They do not say where a token ends, since this
depends on what stands behind it: a word ends before a character that is reserved, `<` and `>`
before anything but `=`, and all other tokens anywhere.
-/

/-- The characters between two quotes, and the text that they stand for. Each character is as it
is, or behind a backslash. -/
inductive Quotes (quote : Char) : List Char → List Char → Prop where
  | nil : Quotes quote [] []
  | plain {c : Char} {raw body : List Char} (hquote : c ≠ quote) (hescape : c ≠ '\\')
      (h : Quotes quote raw body) : Quotes quote (c :: raw) (c :: body)
  | escaped {c : Char} {raw body : List Char} (h : Quotes quote raw body) :
      Quotes quote ('\\' :: c :: raw) (c :: body)

/-- The characters spell an operator. -/
inductive IsSymbol : List Char → Prop where
  | named (letters : List Char) (h : ∀ c ∈ letters, c.isAlpha = true) :
      IsSymbol ('=' :: (letters ++ ['=']))
  | twofold {c : Char} (h : c = '!' ∨ c = '<' ∨ c = '>') : IsSymbol [c, '=']
  | single {c : Char} (h : c = '<' ∨ c = '>') : IsSymbol [c]

/-- The characters spell a token. -/
inductive Spells : List Char → Token → Prop where
  | word {cs : List Char} (hne : cs ≠ []) (h : ∀ c ∈ cs, isReserved c = false) :
      Spells cs (.word (String.ofList cs))
  | quoted {quote : Char} {raw body : List Char} (hquote : quote = '\'' ∨ quote = '"')
      (h : Quotes quote raw body) :
      Spells (quote :: (raw ++ [quote])) (.quoted (String.ofList body))
  | operator {symbol : List Char} (h : IsSymbol symbol) : Spells symbol (operatorToken symbol)
  | punctuation {c : Char} {token : Token} (h : punctuation? c = some token) : Spells [c] token

/-- The token ends before the characters. -/
def EndsBefore (token : Token) (rest : List Char) : Prop :=
  match token with
  | .word _ => ∀ c ∈ rest.head?, isReserved c = true
  | .operator symbol => symbol = "<" ∨ symbol = ">" → rest.head? ≠ some '='
  | _ => True

/-- The characters are the spellings of the tokens with blank characters between them. -/
inductive Lexes : List Token → List Char → Prop where
  | nil {blanks : List Char} (hblanks : ∀ c ∈ blanks, Text.isBlank c = true) : Lexes [] blanks
  | cons {blanks lexeme rest : List Char} {token : Token} {tokens : List Token}
      (hblanks : ∀ c ∈ blanks, Text.isBlank c = true) (hspells : Spells lexeme token)
      (hends : EndsBefore token rest) (h : Lexes tokens rest) :
      Lexes (token :: tokens) (blanks ++ (lexeme ++ rest))

/-! ### Quoted strings -/

/-- The body of a quoted string ends at its quote. -/
theorem Quotes.quotedBody_append {quote : Char} {raw body : List Char} (hquote : quote ≠ '\\')
    (h : Quotes quote raw body) (rest : List Char) :
    quotedBody quote (raw ++ quote :: rest) = some (body, rest) := by
  induction h with
  | nil => simp [quotedBody, hquote]
  | plain hne hescape _ ih => simp [quotedBody, hne, hescape, ih]
  | escaped _ ih => simp [quotedBody, ih]

/-- What is read between two quotes is the body of a quoted string. -/
theorem exists_of_quotedBody {quote : Char} {cs body rest : List Char}
    (h : quotedBody quote cs = some (body, rest)) :
    ∃ raw, Quotes quote raw body ∧ cs = raw ++ quote :: rest := by
  fun_induction quotedBody quote cs generalizing body rest with
  | case1 => cases h
  | case2 => cases h
  | case3 c cs ih =>
    obtain ⟨⟨inner, left⟩, hfound, heq⟩ := Option.map_eq_some_iff.mp h
    cases heq
    obtain ⟨raw, hraw, rfl⟩ := ih hfound
    exact ⟨'\\' :: c :: raw, .escaped hraw, rfl⟩
  | case4 cs =>
    cases h
    exact ⟨[], .nil, rfl⟩
  | case5 c cs hlast hescape hne ih =>
    obtain ⟨⟨inner, left⟩, hfound, heq⟩ := Option.map_eq_some_iff.mp h
    cases heq
    obtain ⟨raw, hraw, rfl⟩ := ih hfound
    -- a backslash before another character is read as an escape, and one at the end as an error
    have hplain : c ≠ '\\' := by
      rintro rfl
      obtain ⟨next, others, hcons⟩ := List.exists_cons_of_ne_nil (hlast rfl)
      exact hescape next others rfl hcons
    exact ⟨c :: raw, .plain hne hplain hraw, rfl⟩

/-! ### Lexemes -/

variable {cs rest : List Char} {c : Char} {token : Token}

/-- A run of characters is found if it ends where it should. -/
theorem takeWhile_append_of_ends {p : Char → Bool} (h : ∀ c ∈ cs, p c = true)
    (hends : ∀ c ∈ rest.head?, p c = false) :
    (cs ++ rest).takeWhile p = cs ∧ (cs ++ rest).dropWhile p = rest := by
  rw [List.takeWhile_append_of_pos h, List.dropWhile_append_of_pos h]
  cases rest with
  | nil => simp
  | cons c rest => simp [hends c rfl]

/-- Behind a run stands a character of another kind. -/
theorem head?_dropWhile_eq_false {p : Char → Bool} : ∀ c ∈ (cs.dropWhile p).head?, p c = false := by
  intro c hc
  have hnot := List.head?_dropWhile_not p cs
  rw [hc] at hnot
  exact hnot

/-- A character that is not reserved starts a word. -/
theorem cutLexeme_of_not_isReserved (h : isReserved c = false) :
    cutLexeme (c :: cs) = cutWord c cs := by
  -- all the characters that cutting asks for are reserved
  have hne : ∀ d ∈ ['"', '\'', '(', ')', ';', ',', '=', '!', '~', '<', '>'], c ≠ d := by
    rintro d hd rfl
    rw [isReserved, List.contains_iff_mem.mpr hd, Bool.or_true] at h
    cases h
  simp only [List.mem_cons, List.not_mem_nil, or_false, forall_eq_or_imp, forall_eq] at hne
  obtain ⟨hdouble, hsingle, hleft, hright, hsemicolon, hcomma, hequal, hbang, htilde, hlt, hgt⟩ :=
    hne
  have hpunctuation : punctuation? c = none := by
    unfold punctuation?
    split <;> simp_all
  simp [cutLexeme, *]

/-- A character that starts no other lexeme and is not blank is not reserved. -/
theorem isReserved_eq_false (hblank : Text.isBlank c = false) (hpunctuation : punctuation? c = none)
    (hquote : ¬(c = '\'' ∨ c = '"')) (hequal : c ≠ '=') (hshort : ¬(c = '!' ∨ c = '<' ∨ c = '>'))
    (htilde : c ≠ '~') : isReserved c = false := by
  have hpunctuation' : c ≠ '(' ∧ c ≠ ')' ∧ c ≠ ';' ∧ c ≠ ',' := by
    refine ⟨?_, ?_, ?_, ?_⟩ <;> (rintro rfl; cases hpunctuation)
  simp_all [isReserved]

/-- The characters that are read as punctuation are the marks of the tokens. -/
theorem punctuation?_eq_some_iff : punctuation? c = some token ↔ Token.IsMark c token := by
  constructor
  · intro h
    unfold punctuation? at h
    split at h <;> cases h <;> constructor
  · intro h
    cases h <;> rfl

theorem endsBefore_punctuation (h : punctuation? c = some token) (rest : List Char) :
    EndsBefore token rest := by
  cases punctuation?_eq_some_iff.mp h <;> trivial

theorem forall_isReserved_eq_false (h : cs.all (!isReserved ·) = true) :
    ∀ c ∈ cs, isReserved c = false := by
  simpa using h

/-- What is cut off as a word spells it and ends where the word does. -/
theorem exists_of_cutWord (hc : isReserved c = false) (h : cutWord c cs = (.ok token, rest)) :
    ∃ lexeme, Spells lexeme token ∧ EndsBefore token rest ∧ c :: cs = lexeme ++ rest := by
  obtain ⟨htoken, rfl⟩ := Prod.mk.inj h
  cases htoken
  refine ⟨c :: cs.takeWhile (!isReserved ·), .word (List.cons_ne_nil _ _) ?_, ?_, ?_⟩
  · exact List.forall_mem_cons.mpr ⟨hc, forall_isReserved_eq_false List.all_takeWhile⟩
  · intro d hd
    simpa using head?_dropWhile_eq_false d hd
  · rw [List.cons_append, List.takeWhile_append_dropWhile]

/-- What is cut off behind `=` is an operator with a name. -/
theorem exists_of_cutNamed (h : cutNamed cs = (.ok token, rest)) :
    ∃ lexeme, Spells lexeme token ∧ EndsBefore token rest ∧ '=' :: cs = lexeme ++ rest := by
  unfold cutNamed at h
  split at h
  · next left hleft =>
    cases h
    refine ⟨'=' :: (cs.takeWhile Char.isAlpha ++ ['=']), .operator (.named _ ?_), ?_, ?_⟩
    · exact List.all_eq_true.mp List.all_takeWhile
    · rintro (hsymbol | hsymbol) <;> simp [← String.toList_inj] at hsymbol
    · rw [List.cons_append, List.append_assoc, List.singleton_append, ← hleft,
        List.takeWhile_append_dropWhile]
  · cases h

/-- What is cut off behind another sign is a short operator. -/
theorem exists_of_cutShort (hc : c = '!' ∨ c = '<' ∨ c = '>')
    (h : cutShort c cs = (.ok token, rest)) :
    ∃ lexeme, Spells lexeme token ∧ EndsBefore token rest ∧ c :: cs = lexeme ++ rest := by
  unfold cutShort at h
  split at h
  · next left =>
    cases h
    refine ⟨[c, '='], .operator (.twofold hc), ?_, rfl⟩
    rintro (hsymbol | hsymbol) <;> simp [← String.toList_inj] at hsymbol
  · next hnot =>
    obtain ⟨htoken, rfl⟩ := Prod.mk.inj h
    split at htoken
    · cases htoken
    · next hbang =>
      cases htoken
      refine ⟨[c], .operator (.single (hc.resolve_left hbang)), fun _ hhead => ?_, rfl⟩
      cases cs with
      | nil => cases hhead
      | cons d ds =>
        cases hhead
        exact hnot ds rfl

/-- What is cut off a text spells a token that ends where it does. -/
theorem exists_of_cutLexeme (hblank : Text.isBlank c = false)
    (h : cutLexeme (c :: cs) = (.ok token, rest)) :
    ∃ lexeme, Spells lexeme token ∧ EndsBefore token rest ∧ c :: cs = lexeme ++ rest := by
  rw [cutLexeme] at h
  split at h
  · next hpunctuation =>
    cases h
    exact ⟨[c], .punctuation hpunctuation, endsBefore_punctuation hpunctuation _, rfl⟩
  · next hpunctuation =>
    simp only [Bool.or_eq_true, decide_eq_true_eq] at h
    split at h
    · next hquote =>
      unfold cutQuoted at h
      split at h
      · next hbody =>
        cases h
        obtain ⟨raw, hraw, rfl⟩ := exists_of_quotedBody hbody
        exact ⟨c :: (raw ++ [c]), .quoted hquote hraw, trivial, by simp⟩
      · cases h
    · next hquote =>
      split at h
      · next hequal =>
        subst hequal
        exact exists_of_cutNamed h
      · next hequal =>
        split at h
        · next hshort => exact exists_of_cutShort (or_assoc.mp hshort) h
        · next hshort =>
          split at h
          · cases h
          · next htilde =>
            refine exists_of_cutWord ?_ h
            exact isReserved_eq_false hblank hpunctuation hquote hequal
              (fun h => hshort (or_assoc.mpr h)) htilde

/-- The spelling of a token is cut off where the token ends. -/
theorem cutLexeme_append {lexeme : List Char} (hspells : Spells lexeme token)
    (hends : EndsBefore token rest) : cutLexeme (lexeme ++ rest) = (.ok token, rest) := by
  cases hspells with
  -- the characters of a word go on up to the end that is given
  | word hne h =>
    obtain ⟨c, cs, rfl⟩ := List.exists_cons_of_ne_nil hne
    rw [List.forall_mem_cons] at h
    have hall : ∀ d ∈ cs, (!isReserved d) = true := fun d hd => by rw [h.2 d hd, Bool.not_false]
    obtain ⟨htake, hdrop⟩ := takeWhile_append_of_ends hall fun d hd => by
      rw [hends d hd, Bool.not_true]
    rw [List.cons_append, cutLexeme_of_not_isReserved h.1, cutWord, htake, hdrop]
  | @quoted quote raw body hquote h =>
    have hcut : cutLexeme (quote :: (raw ++ quote :: rest)) =
        cutQuoted quote (raw ++ quote :: rest) := by
      rcases hquote with rfl | rfl <;> rfl
    have hbody : quotedBody quote (raw ++ quote :: rest) = some (body, rest) := by
      refine h.quotedBody_append ?_ rest
      rcases hquote with rfl | rfl <;> decide
    rw [List.cons_append, List.append_assoc, List.singleton_append, hcut, cutQuoted, hbody]
  | operator h =>
    -- the letters end at the second `=`, which is no letter
    cases h with
    | named letters hletters =>
      have hcut : cutLexeme ('=' :: (letters ++ '=' :: rest)) = cutNamed (letters ++ '=' :: rest) :=
        rfl
      have hequal : ∀ d ∈ ('=' :: rest).head?, d.isAlpha = false := fun d hd => by
        cases hd
        decide
      obtain ⟨htake, hdrop⟩ := takeWhile_append_of_ends hletters hequal
      rw [List.cons_append, List.append_assoc, List.singleton_append, hcut, cutNamed, hdrop, htake]
      rfl
    | twofold hc => rcases hc with rfl | rfl | rfl <;> rfl
    | @single c hc =>
      have hcut : cutLexeme (c :: rest) = cutShort c rest := by rcases hc with rfl | rfl <;> rfl
      have hbang : c ≠ '!' := by rcases hc with rfl | rfl <;> decide
      rw [List.singleton_append, hcut]
      unfold cutShort
      split
      · -- an `=` behind the sign would belong to it
        refine absurd rfl (hends ?_)
        rcases hc with rfl | rfl <;> decide
      · rw [if_neg hbang]
  | punctuation h =>
    cases punctuation?_eq_some_iff.mp h <;> rfl

/-- A spelling starts with a character that is not blank. -/
theorem Spells.exists_cons {lexeme : List Char} (h : Spells lexeme token) :
    ∃ c cs, lexeme = c :: cs ∧ Text.isBlank c = false := by
  cases h with
  | word hne h =>
    obtain ⟨c, cs, rfl⟩ := List.exists_cons_of_ne_nil hne
    exact ⟨c, cs, rfl, (Bool.or_eq_false_iff.mp (h c List.mem_cons_self)).1⟩
  | quoted hquote _ =>
    refine ⟨_, _, rfl, ?_⟩
    rcases hquote with rfl | rfl <;> decide
  | operator h =>
    cases h with
    | named _ _ => exact ⟨_, _, rfl, by decide⟩
    | twofold hc => rcases hc with rfl | rfl | rfl <;> exact ⟨_, _, rfl, by decide⟩
    | single hc => rcases hc with rfl | rfl <;> exact ⟨_, _, rfl, by decide⟩
  | punctuation h =>
    refine ⟨_, _, rfl, ?_⟩
    cases punctuation?_eq_some_iff.mp h <;> decide

theorem Spells.ne_endOfInput {lexeme : List Char} (h : Spells lexeme token) :
    token ≠ .endOfInput := by
  rintro rfl
  cases h with
  | punctuation h => cases punctuation?_eq_some_iff.mp h

/-- A word that is spelt is not empty and has no reserved characters. -/
theorem Spells.of_word {lexeme : List Char} {text : String} (h : Spells lexeme (.word text)) :
    text ≠ "" ∧ ∀ ch ∈ text.toList, isReserved ch = false := by
  cases h with
  | word hne hword =>
    rw [String.toList_ofList]
    exact ⟨by simpa using hne, hword⟩
  | punctuation h => cases punctuation?_eq_some_iff.mp h

/-- An operator that is spelt is spelt by its symbol. -/
theorem Spells.of_operator {lexeme : List Char} {symbol : String}
    (h : Spells lexeme (.operator symbol)) : symbol = String.ofList lexeme ∧ IsSymbol lexeme := by
  cases h with
  | operator his => exact ⟨rfl, his⟩
  | punctuation h => cases punctuation?_eq_some_iff.mp h

/-- The tokens of a text are spelt. -/
theorem exists_spells_of_lexes {tokens : List Token} (h : Lexes tokens cs)
    (htoken : token ∈ tokens) : ∃ lexeme, Spells lexeme token := by
  induction h with
  | nil _ => cases htoken
  | cons _ hspells _ _ ih =>
    rcases List.mem_cons.mp htoken with rfl | htoken
    · exact ⟨_, hspells⟩
    · exact ih htoken

theorem endOfInput_not_mem_of_lexes {tokens : List Token} (h : Lexes tokens cs) :
    Token.endOfInput ∉ tokens := by
  intro hend
  obtain ⟨lexeme, hspells⟩ := exists_spells_of_lexes h hend
  exact hspells.ne_endOfInput rfl

/-! ### Descriptions -/

/-- A word is not called as a punctuation mark is, for it has no reserved characters. -/
theorem Spells.describe_word_ne {lexeme : List Char} {text : String} {c : Char} {mark : Token}
    (h : Spells lexeme (.word text)) (hmark : Token.IsMark c mark) :
    (Token.word text).describe ≠ mark.describe := by
  have hreserved : isReserved c = true := by cases hmark <;> decide
  rw [Token.isDescribedBy_iff.mp (.mark hmark)]
  intro hdescribe
  obtain rfl : text = String.singleton c :=
    (String.append_right_inj _).mp ((String.append_left_inj _).mp hdescribe)
  rw [h.of_word.2 c (by simp)] at hreserved
  cases hreserved

/-- **Descriptions.** Tokens of a text that go by the same description are the same. -/
theorem Spells.eq_of_describe_eq {cs ds : List Char} {first second : Token}
    (hfirst : Spells cs first) (hsecond : Spells ds second)
    (h : first.describe = second.describe) : first = second := by
  have hchars := congrArg String.toList h
  cases first <;> cases second <;>
    simp only [Token.describe, String.toList_append, String.reduceToList] at hchars
  case word.word | quoted.quoted | operator.operator =>
    simpa only [Token.describe, String.append_left_inj, String.append_right_inj,
      Token.word.injEq, Token.quoted.injEq, Token.operator.injEq] using h
  -- but for words and marks, tokens of two kinds differ in the first character
  all_goals first
    | rfl
    | cases hchars
    | exact absurd h (hfirst.describe_word_ne (by constructor))
    | exact absurd h.symm (hsecond.describe_word_ne (by constructor))

end Query

/-!
### Texts

A scanner moves over the text in steps of one token each. What is left in front of it is all that
matters for the tokens; the position is carried along for the errors.
-/

namespace Scanner

open Query

variable {s : Scanner} {tokens : List Token}

theorem next_of_cutLexeme {token : Token} {rest : List Char}
    (h : cutLexeme (s.rest.dropWhile Text.isBlank) = (.ok token, rest)) :
    s.next = (.ok token, s.skipBlanks.moveTo rest) := by
  have hcut : cutLexeme s.skipBlanks.rest = (.ok token, rest) := h
  rw [next, hcut]

/-- The tokens are the next one and those behind it. -/
theorem tokens_of_next {token : Token} {s' : Scanner} (h : s.next = (.ok token, s')) :
    s.tokens = if token = .endOfInput then .ok [.endOfInput] else s'.tokens.map (token :: ·) := by
  rw [tokens]
  split
  · next hnext => cases h.symm.trans hnext
  · next hnext =>
    cases h.symm.trans hnext
    rfl

/-- A text that lexes is scanned as the tokens it lexes to. -/
theorem tokens_of_lexes (h : Lexes tokens s.rest) : s.tokens = .ok (tokens ++ [.endOfInput]) := by
  generalize hrest : s.rest = cs at h
  induction h generalizing s with
  | @nil blanks hblanks =>
    have hdrop : s.rest.dropWhile Text.isBlank = [] := by
      have happend : (blanks ++ []).dropWhile Text.isBlank = [] :=
        List.dropWhile_append_of_pos hblanks
      rwa [List.append_nil, ← hrest] at happend
    rw [tokens_of_next (next_of_cutLexeme (by rw [hdrop]; rfl))]
    rfl
  | @cons blanks lexeme rest token tokens hblanks hspells hends _ ih =>
    obtain ⟨c, cs, rfl, hblank⟩ := hspells.exists_cons
    have hdrop : s.rest.dropWhile Text.isBlank = c :: cs ++ rest := by
      rw [hrest, List.dropWhile_append_of_pos hblanks, List.cons_append,
        List.dropWhile_cons_of_neg (by simp [hblank])]
    have hnext := next_of_cutLexeme (hdrop ▸ cutLexeme_append hspells hends)
    rw [tokens_of_next hnext, if_neg hspells.ne_endOfInput, ih rfl]
    rfl

/-- The next token is cut off where the scanner moves to. -/
theorem cutLexeme_of_next {token : Token} {s' : Scanner} (h : s.next = (.ok token, s')) :
    cutLexeme (s.rest.dropWhile Text.isBlank) = (.ok token, s'.rest) := by
  unfold next at h
  split at h
  · next hcut =>
    cases h
    exact hcut
  · cases h

/-- A scan ends where nothing but blank characters is left. -/
theorem exists_of_next {token : Token} {s' : Scanner} (h : s.next = (.ok token, s')) :
    (token = .endOfInput ∧ ∀ c ∈ s.rest, Text.isBlank c = true) ∨
      ∃ lexeme, Spells lexeme token ∧ EndsBefore token s'.rest ∧
        s.rest = s.rest.takeWhile Text.isBlank ++ (lexeme ++ s'.rest) := by
  have hcut := cutLexeme_of_next h
  have hsplit := List.takeWhile_append_dropWhile (p := Text.isBlank) (l := s.rest)
  cases hdrop : s.rest.dropWhile Text.isBlank with
  | nil =>
    rw [hdrop] at hcut hsplit
    obtain ⟨htoken, -⟩ := Prod.mk.inj hcut
    refine .inl ⟨(Except.ok.inj htoken).symm, ?_⟩
    rw [← hsplit, List.append_nil]
    exact List.all_eq_true.mp List.all_takeWhile
  | cons c cs =>
    have hblank : Text.isBlank c = false := head?_dropWhile_eq_false c (by rw [hdrop]; rfl)
    rw [hdrop] at hcut
    obtain ⟨lexeme, hspells, hends, heq⟩ := exists_of_cutLexeme hblank hcut
    exact .inr ⟨lexeme, hspells, hends, by rw [← heq, ← hdrop, hsplit]⟩

/-- A text that is scanned lexes to its tokens. -/
theorem exists_of_tokens (h : s.tokens = .ok tokens) :
    ∃ before, tokens = before ++ [.endOfInput] ∧ Lexes before s.rest := by
  -- the induction is on the calls of the scanner, of which the last reports the end
  fun_induction Scanner.tokens s generalizing tokens with
  | case1 s e s' hnext => cases h
  | case2 s s' hnext =>
    cases h
    rcases exists_of_next hnext with ⟨-, hblanks⟩ | ⟨lexeme, hspells, -⟩
    · exact ⟨[], rfl, .nil hblanks⟩
    · exact absurd rfl hspells.ne_endOfInput
  | case3 s token s' hnext hend ih =>
    cases htail : s'.tokens with
    | error e =>
      rw [htail] at h
      cases h
    | ok tail =>
      rw [htail] at h
      cases h
      obtain ⟨before, rfl, hlexes⟩ := ih htail
      rcases exists_of_next hnext with ⟨htoken, -⟩ | ⟨lexeme, hspells, hends, heq⟩
      · exact absurd htoken hend
      · refine ⟨token :: before, rfl, ?_⟩
        rw [heq]
        exact .cons (List.all_eq_true.mp List.all_takeWhile) hspells hends hlexes

/-- A scan succeeds on the texts that lex, with their tokens and the end of input. -/
theorem tokens_eq_ok_iff :
    s.tokens = .ok tokens ↔ ∃ before, tokens = before ++ [.endOfInput] ∧ Lexes before s.rest := by
  constructor
  · exact exists_of_tokens
  · rintro ⟨before, rfl, hlexes⟩
    exact tokens_of_lexes hlexes

end Scanner

end FilterQuery
