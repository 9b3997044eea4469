import FilterQuery.Proofs.Symbols
import Mathlib.Data.List.Chain

/-!
# Cutting a text into lexemes

A text is **decomposed** into pieces, each of them a lexeme with the blank characters in front of
it, and the blank characters at its end. The decomposition is **proper** if every lexeme spells its
token and none of them could go on: words are kept apart by blank characters, and no `=` stands
right behind `<` or `>`. Scanning succeeds on the texts that have a proper decomposition, with the
tokens of its pieces, and no text has two of them (`tokenize_eq_ok_iff`).

* **Ends.** Whether a lexeme could go on is seen at the first character of what follows, and the
  first character of the next piece decides it (`Piece.Precedes`). So the condition on a
  decomposition is one on neighbours, and there is no further one on pieces that are apart.
* **Existence.** Proper decompositions are the texts that lex, read from the front
  (`exists_isProper_of_lexes`).
* **Uniqueness.** The blank characters in front of a lexeme are all that stand there, and two
  lexemes that start at the same place and could not go on are the same. The rest of the text then
  has the same rest of the decomposition.
-/

namespace FilterQuery.Query

/-- A lexeme, the blank characters in front of it, and its token. -/
structure Piece where
  blanks : List Char
  lexeme : List Char
  token : Token

/-- The pieces of a text, and the blank characters behind the last one. -/
structure Decomposition where
  pieces : List Piece
  trailing : List Char

namespace Piece

/-- The characters of the piece. -/
def text (piece : Piece) : List Char := piece.blanks ++ piece.lexeme

/-- The lexeme spells the token, and nothing but blank characters stands in front of it. -/
structure IsProper (piece : Piece) : Prop where
  isBlank : ∀ c ∈ piece.blanks, Text.isBlank c = true
  spells : Spells piece.lexeme piece.token

/-- The lexeme of a piece does not go on in the next piece: two words have a blank character between
them, and there is no `=` right behind `<` or `>`. -/
structure Precedes (piece next : Piece) : Prop where
  word : ∀ first second, piece.token = .word first → next.token = .word second → next.blanks ≠ []
  sign : piece.token = .operator "<" ∨ piece.token = .operator ">" → next.text.head? ≠ some '='

end Piece

namespace Decomposition

/-- The characters of the decomposition. -/
def text (d : Decomposition) : List Char := d.pieces.flatMap Piece.text ++ d.trailing

def tokens (d : Decomposition) : List Token := d.pieces.map Piece.token

/-- The pieces are proper, and no lexeme goes on in the next piece. -/
structure IsProper (d : Decomposition) : Prop where
  pieces : ∀ piece ∈ d.pieces, piece.IsProper
  chain : d.pieces.IsChain Piece.Precedes
  isBlank : ∀ c ∈ d.trailing, Text.isBlank c = true

end Decomposition

/-!
### Where a lexeme ends

A lexeme ends where its token does, which is a condition on the text behind it. For the pieces of a
decomposition it is a condition on the next piece alone.
-/

theorem isReserved_of_isBlank {c : Char} (h : Text.isBlank c = true) : isReserved c = true := by
  rw [isReserved, h, Bool.true_or]

/-- A word has characters of words only. -/
theorem Spells.isReserved_eq_false {lexeme : List Char} {text : String}
    (h : Spells lexeme (.word text)) : ∀ c ∈ lexeme, isReserved c = false := by
  cases h with
  | word _ hplain => exact hplain
  | punctuation hmark => cases punctuation?_eq_some_iff.mp hmark

/-- Only words start with characters of words. -/
theorem Spells.isReserved_head? {lexeme : List Char} {token : Token} (h : Spells lexeme token)
    (hword : ∀ text, token ≠ .word text) : ∀ c ∈ lexeme.head?, isReserved c = true := by
  intro c hc
  cases h with
  | word _ _ => exact absurd rfl (hword _)
  | quoted hquote _ =>
    cases hc
    rcases hquote with rfl | rfl <;> decide
  | operator hsymbol =>
    obtain ⟨first, rest, rfl, hreserved⟩ := Operator.exists_cons_of_isSymbol hsymbol
    cases hc
    exact hreserved
  | punctuation hmark =>
    cases hc
    cases punctuation?_eq_some_iff.mp hmark <;> decide

/-- Every token ends before blank characters. -/
theorem endsBefore_of_isBlank {blanks : List Char} (token : Token)
    (h : ∀ c ∈ blanks, Text.isBlank c = true) : EndsBefore token blanks := by
  have hhead : ∀ c ∈ blanks.head?, Text.isBlank c = true := fun c hc =>
    h c (List.mem_of_mem_head? hc)
  cases token with
  | word text => exact fun c hc => isReserved_of_isBlank (hhead c hc)
  | operator symbol =>
    intro _ heq
    exact absurd (hhead '=' heq) (by decide)
  | _ => trivial

namespace Piece

variable {piece next : Piece} {rest : List Char}

/-- The blank characters at the front of a piece are those of the piece, for its lexeme starts with
another one. -/
theorem IsProper.takeWhile_text (h : piece.IsProper) (rest : List Char) :
    (piece.text ++ rest).takeWhile Text.isBlank = piece.blanks ∧
      (piece.text ++ rest).dropWhile Text.isBlank = piece.lexeme ++ rest := by
  obtain ⟨c, cs, hlexeme, hblank⟩ := h.spells.exists_cons
  have hends : ∀ d ∈ (piece.lexeme ++ rest).head?, Text.isBlank d = false := by
    rw [hlexeme]
    intro d hd
    cases hd
    exact hblank
  rw [text, List.append_assoc]
  exact takeWhile_append_of_ends h.isBlank hends

theorem IsProper.head?_text_append (h : piece.IsProper) :
    (piece.text ++ rest).head? = piece.text.head? := by
  obtain ⟨c, cs, hlexeme, -⟩ := h.spells.exists_cons
  have hne : piece.text ≠ [] := by simp [text, hlexeme]
  exact List.head?_append_of_ne_nil _ hne

/-- The token of a piece ends before the next piece if its lexeme does not go on there. -/
theorem IsProper.endsBefore_iff (hnext : next.IsProper) :
    EndsBefore piece.token (next.text ++ rest) ↔ piece.Precedes next := by
  cases htoken : piece.token with
  | word first =>
    change (∀ c ∈ (next.text ++ rest).head?, isReserved c = true) ↔ _
    rw [hnext.head?_text_append]
    constructor
    · intro hends
      refine ⟨fun _ second _ hsecond hnil => ?_, fun hsign => ?_⟩
      · -- the first character of the second word would be read as one of the first
        have hspells := hnext.spells
        rw [hsecond] at hspells
        obtain ⟨c, cs, hlexeme, -⟩ := hspells.exists_cons
        have hhead : next.text.head? = some c := by rw [text, hnil, hlexeme]; rfl
        have hplain : ∀ d ∈ next.lexeme, isReserved d = false := hspells.isReserved_eq_false
        have hreserved := hends c hhead
        rw [hplain c (hlexeme ▸ List.mem_cons_self)] at hreserved
        cases hreserved
      · rcases hsign with hsign | hsign <;> cases htoken.symm.trans hsign
    · -- the next text starts with a blank, or with a lexeme that is no word
      intro hprecedes c hc
      cases hblanks : next.blanks with
      | cons d ds =>
        rw [text, hblanks] at hc
        cases hc
        exact isReserved_of_isBlank (hnext.isBlank c (hblanks ▸ List.mem_cons_self))
      | nil =>
        have hword : ∀ second, next.token ≠ .word second := fun second hsecond =>
          hprecedes.word first second htoken hsecond hblanks
        rw [text, hblanks] at hc
        exact hnext.spells.isReserved_head? hword c hc
  | operator symbol =>
    change (symbol = "<" ∨ symbol = ">" → (next.text ++ rest).head? ≠ some '=') ↔ _
    rw [hnext.head?_text_append]
    constructor
    · intro hends
      refine ⟨fun _ _ hfirst => ?_, fun hsign => hends ?_⟩
      · cases htoken.symm.trans hfirst
      · rw [htoken] at hsign
        exact hsign.imp Token.operator.inj Token.operator.inj
    · intro hprecedes hsign
      refine hprecedes.sign ?_
      rw [htoken]
      exact hsign.imp (congrArg _) (congrArg _)
  -- a lexeme of a fixed length goes on nowhere
  | _ =>
    refine iff_of_true trivial ⟨fun _ _ hfirst => ?_, fun hsign => ?_⟩
    · cases htoken.symm.trans hfirst
    · rcases hsign with hsign | hsign <;> cases htoken.symm.trans hsign

/-- Nothing but blank characters is no piece. -/
theorem IsProper.ne_text_append {blanks : List Char} (h : piece.IsProper)
    (hblanks : ∀ c ∈ blanks, Text.isBlank c = true) : blanks ≠ piece.text ++ rest := by
  intro heq
  obtain ⟨c, cs, hlexeme, hnot⟩ := h.spells.exists_cons
  have hmem : c ∈ blanks := by
    rw [heq, text, hlexeme]
    simp
  cases (hblanks c hmem).symm.trans hnot

/-- The first piece of a text is determined by the text, and so is what follows it. -/
theorem IsProper.eq_of_text_append_eq {rest' : List Char} (h : piece.IsProper)
    (hnext : next.IsProper) (hends : EndsBefore piece.token rest)
    (hends' : EndsBefore next.token rest') (heq : piece.text ++ rest = next.text ++ rest') :
    piece = next ∧ rest = rest' := by
  obtain ⟨htake, hdrop⟩ := h.takeWhile_text rest
  obtain ⟨htake', hdrop'⟩ := hnext.takeWhile_text rest'
  rw [heq] at htake hdrop
  have hblanks : piece.blanks = next.blanks := htake.symm.trans htake'
  have hlexemes : piece.lexeme ++ rest = next.lexeme ++ rest' := hdrop.symm.trans hdrop'
  -- both tokens are what is cut off the same text
  have hcut : ((.ok piece.token, rest) : Cut) = (.ok next.token, rest') := by
    rw [← cutLexeme_append h.spells hends, hlexemes, cutLexeme_append hnext.spells hends']
  obtain ⟨htoken, rfl⟩ := Prod.mk.inj hcut
  have hlexeme : piece.lexeme = next.lexeme := List.append_cancel_right hlexemes
  refine ⟨?_, rfl⟩
  calc piece = ⟨piece.blanks, piece.lexeme, piece.token⟩ := rfl
    _ = ⟨next.blanks, next.lexeme, next.token⟩ := by
      rw [hblanks, hlexeme, Except.ok.inj htoken]
    _ = next := rfl

end Piece

/-! ### Proper decompositions -/

namespace Decomposition

variable {d other : Decomposition} {piece : Piece} {pieces : List Piece} {trailing : List Char}

/-- A decomposition is proper if its first piece is, keeps apart from the next one and has a proper
rest behind it. -/
theorem isProper_cons_iff :
    IsProper ⟨piece :: pieces, trailing⟩ ↔ piece.IsProper ∧
      (∀ next ∈ pieces.head?, piece.Precedes next) ∧ IsProper ⟨pieces, trailing⟩ := by
  constructor
  · rintro ⟨hpieces, hchain, hblank⟩
    obtain ⟨hpiece, hrest⟩ := List.forall_mem_cons.mp hpieces
    obtain ⟨hhead, htail⟩ := List.isChain_cons.mp hchain
    exact ⟨hpiece, hhead, hrest, htail, hblank⟩
  · rintro ⟨hpiece, hhead, hrest, htail, hblank⟩
    exact ⟨List.forall_mem_cons.mpr ⟨hpiece, hrest⟩, List.isChain_cons.mpr ⟨hhead, htail⟩, hblank⟩

theorem text_cons : text ⟨piece :: pieces, trailing⟩ = piece.text ++ text ⟨pieces, trailing⟩ := by
  simp [text]

/-- The token of a piece ends before the rest of a decomposition if its lexeme does not go on in the
next piece. -/
theorem IsProper.endsBefore_iff (h : IsProper ⟨pieces, trailing⟩) :
    EndsBefore piece.token (text ⟨pieces, trailing⟩) ↔
      ∀ next ∈ pieces.head?, piece.Precedes next := by
  cases pieces with
  | nil => exact iff_of_true (endsBefore_of_isBlank _ h.isBlank) (by simp)
  | cons next pieces =>
    rw [text_cons, (isProper_cons_iff.mp h).1.endsBefore_iff]
    simp

/-- The text of a proper decomposition lexes to the tokens of the pieces. -/
theorem IsProper.lexes (h : d.IsProper) : Lexes d.tokens d.text := by
  obtain ⟨pieces, trailing⟩ := d
  induction pieces with
  | nil => exact .nil h.isBlank
  | cons piece pieces ih =>
    obtain ⟨hpiece, hhead, hrest⟩ := isProper_cons_iff.mp h
    have hends : EndsBefore piece.token (text ⟨pieces, trailing⟩) := hrest.endsBefore_iff.mpr hhead
    rw [text_cons, Piece.text, List.append_assoc]
    exact .cons hpiece.isBlank hpiece.spells hends (ih hrest)

/-- A text that lexes has a proper decomposition. -/
theorem exists_isProper_of_lexes {tokens : List Token} {cs : List Char} (h : Lexes tokens cs) :
    ∃ d : Decomposition, d.IsProper ∧ d.text = cs ∧ d.tokens = tokens := by
  induction h with
  | @nil blanks hblanks => exact ⟨⟨[], blanks⟩, ⟨by simp, .nil, hblanks⟩, rfl, rfl⟩
  | @cons blanks lexeme rest token tokens hblanks hspells hends _ ih =>
    obtain ⟨⟨pieces, trailing⟩, hproper, rfl, rfl⟩ := ih
    have hhead : ∀ next ∈ pieces.head?, (Piece.mk blanks lexeme token).Precedes next :=
      hproper.endsBefore_iff.mp hends
    refine ⟨⟨⟨blanks, lexeme, token⟩ :: pieces, trailing⟩, ?_, ?_, rfl⟩
    · exact isProper_cons_iff.mpr ⟨⟨hblanks, hspells⟩, hhead, hproper⟩
    · rw [text_cons, Piece.text, List.append_assoc]

/-- No text has two proper decompositions. -/
theorem IsProper.eq_of_text_eq (h : d.IsProper) (hother : other.IsProper)
    (htext : d.text = other.text) : d = other := by
  obtain ⟨pieces, trailing⟩ := d
  obtain ⟨others, last⟩ := other
  induction pieces generalizing others with
  | nil =>
    cases others with
    | nil => exact congrArg (Decomposition.mk []) htext
    | cons next others =>
      rw [text_cons] at htext
      exact absurd htext ((isProper_cons_iff.mp hother).1.ne_text_append h.isBlank)
  | cons piece pieces ih =>
    obtain ⟨hpiece, hhead, hrest⟩ := isProper_cons_iff.mp h
    cases others with
    | nil =>
      rw [text_cons] at htext
      exact absurd htext.symm (hpiece.ne_text_append hother.isBlank)
    | cons next others =>
      obtain ⟨hnext, hhead', hrest'⟩ := isProper_cons_iff.mp hother
      rw [text_cons, text_cons] at htext
      -- the first pieces are cut off at the same place, and the rest is shorter
      obtain ⟨rfl, hleft⟩ := hpiece.eq_of_text_append_eq hnext (hrest.endsBefore_iff.mpr hhead)
        (hrest'.endsBefore_iff.mpr hhead') htext
      obtain ⟨rfl, rfl⟩ := mk.inj (ih hrest others hrest' hleft)
      rfl

end Decomposition

/-- **Exact scanning.** A text is scanned as some tokens if it has a proper decomposition with these
tokens, behind which the end of input stands. A text has one proper decomposition at most, and none
of its pieces is the end of input. -/
theorem tokenize_eq_ok_iff (text : String) :
    (∀ tokens, tokenize text = .ok tokens ↔
      ∃ d : Decomposition, d.IsProper ∧ d.text = text.toList ∧
        tokens = d.tokens ++ [.endOfInput]) ∧
    ∀ d other : Decomposition, d.IsProper → other.IsProper →
      d.text = text.toList → other.text = text.toList →
        d = other ∧ Token.endOfInput ∉ d.tokens := by
  constructor
  · intro tokens
    have hscan : tokenize text = .ok tokens ↔ ∃ before, tokens = before ++ [.endOfInput] ∧
        Lexes before text.toList := Scanner.tokens_eq_ok_iff
    rw [hscan]
    constructor
    · rintro ⟨before, rfl, hlexes⟩
      obtain ⟨d, hproper, htext, rfl⟩ := Decomposition.exists_isProper_of_lexes hlexes
      exact ⟨d, hproper, htext, rfl⟩
    · rintro ⟨d, hproper, htext, rfl⟩
      exact ⟨d.tokens, rfl, htext ▸ hproper.lexes⟩
  · intro d other hproper hother htext htext'
    exact ⟨hproper.eq_of_text_eq hother (htext.trans htext'.symm),
      endOfInput_not_mem_of_lexes hproper.lexes⟩

/-- Lexemes may stand close together: `<` takes one `=` and leaves the other to the next operator,
and a word may start behind a quote. -/
theorem tokenize_eq_ok_iff_adjacent :
    tokenize "a <==in=\"b\\\"c\"d" =
        .ok [.word "a", .operator "<=", .operator "=in=", .quoted "b\"c", .word "d",
          .endOfInput] ∧
      ∃ d : Decomposition, d.IsProper ∧ d.text = "a <==in=\"b\\\"c\"d".toList ∧
        ∀ other : Decomposition, other.IsProper →
          other.text = "a <==in=\"b\\\"c\"d".toList → other = d := by
  have hquoted : Spells ['"', 'b', '\\', '"', 'c', '"'] (.quoted "b\"c") :=
    .quoted (.inr rfl) (.plain (by decide) (by decide) (.escaped (.plain (by decide) (by decide)
      .nil)))
  have hproper : Decomposition.IsProper
      ⟨[⟨[], ['a'], .word "a"⟩, ⟨[' '], ['<', '='], .operator "<="⟩,
        ⟨[], ['=', 'i', 'n', '='], .operator "=in="⟩,
        ⟨[], ['"', 'b', '\\', '"', 'c', '"'], .quoted "b\"c"⟩, ⟨[], ['d'], .word "d"⟩], []⟩ := by
    refine ⟨?_, ?_, by simp⟩
    · have hspace : ∀ c ∈ [' '], Text.isBlank c = true := List.forall_mem_singleton.mpr (by decide)
      have hletters : ∀ c ∈ ['i', 'n'], c.isAlpha = true := List.all_eq_true.mp (by decide)
      have hword : Spells ['a'] (.word "a") ∧ Spells ['d'] (.word "d") :=
        ⟨.word (by simp) (List.forall_mem_singleton.mpr (by decide)),
          .word (by simp) (List.forall_mem_singleton.mpr (by decide))⟩
      simp only [List.forall_mem_cons, List.not_mem_nil, false_imp_iff, implies_true, and_true]
      exact ⟨⟨nofun, hword.1⟩, ⟨hspace, .operator (.twofold (by simp))⟩,
        ⟨nofun, .operator (.named ['i', 'n'] hletters)⟩, ⟨nofun, hquoted⟩, ⟨nofun, hword.2⟩⟩
    · simp only [List.isChain_cons_cons, List.isChain_singleton, and_true]
      refine ⟨⟨?_, ?_⟩, ⟨?_, ?_⟩, ⟨?_, ?_⟩, ?_, ?_⟩ <;> simp
  obtain ⟨hscan, hunique⟩ := tokenize_eq_ok_iff "a <==in=\"b\\\"c\"d"
  exact ⟨(hscan _).mpr ⟨_, hproper, rfl, rfl⟩, _, hproper, rfl,
    fun other hother htext => (hunique other _ hother hproper htext rfl).1⟩

end FilterQuery.Query
