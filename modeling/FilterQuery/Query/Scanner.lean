import FilterQuery.Query.Token
import FilterQuery.Number.Whole
import FilterQuery.Text.Blank

/-!
# Scanning a query

A **scanner** is a position in a query text. It skips blank characters and cuts off the longest
**lexeme** at its position. A fault does not end the scan: the scanner stays where the fault was
noticed, and the next lexeme is sought there. Every lexeme of a token leaves a shorter text
(`length_cutLexeme`), so cutting a text into tokens ends.

The first character decides the kind of the lexeme (`cutLexeme`): a punctuation mark is a token by
itself, a quote starts a quoted string, `=` starts an operator with a name, `!`, `<` and `>` start a
short one, and any other character but a tilde starts a word. Each kind is cut off by a definition
of its own, which gives the token or the fault together with what is left of the text.

Positions are counted in characters from the start of the text, blanks included. The position of a
fault is that of the lexeme in which it is noticed, and not that of the character.
-/

namespace FilterQuery

/-- What is wrong with a lexeme. -/
inductive LexicalFault where
  | unterminatedQuote
  | loneExclamation
  | malformedOperator
  | strayTilde
  deriving DecidableEq, Repr

/-- A lexical fault and the position of the lexeme that has it. -/
structure ScanError where
  fault : LexicalFault
  position : Nat
  deriving DecidableEq, Repr

namespace ScanError

/-- What is reported about the fault. -/
def detail (e : ScanError) : String :=
  (match e.fault with
    | .unterminatedQuote => "unterminated quoted string"
    | .loneExclamation => "expected '=' after '!'"
    | .malformedOperator => "malformed comparison operator"
    | .strayTilde => "unexpected character '~'")
    ++ " at position " ++ String.ofList (digitsOf e.position)

end ScanError

namespace Query

/-- The characters with a meaning of their own, which end a word. -/
def isReserved (c : Char) : Bool :=
  Text.isBlank c || ['"', '\'', '(', ')', ';', ',', '=', '!', '~', '<', '>'].contains c

/-- The characters up to the closing quote, and what follows it. A backslash makes the next
character an ordinary one. -/
def quotedBody (quote : Char) : List Char → Option (List Char × List Char)
  | [] => none
  | ['\\'] => none
  | '\\' :: c :: rest => (quotedBody quote rest).map fun found => (c :: found.1, found.2)
  | c :: rest =>
    if c = quote then some ([], rest)
    else (quotedBody quote rest).map fun found => (c :: found.1, found.2)

/-- The operator spelt by some characters. -/
def operatorToken (symbol : List Char) : Token := .operator (String.ofList symbol)

/-- What is cut off the front of a text, and what is left. -/
abbrev Cut := Except LexicalFault Token × List Char

/-- The token that a punctuation mark is. -/
def punctuation? (c : Char) : Option Token :=
  match c with
  | '(' => some .leftParen
  | ')' => some .rightParen
  | ';' => some .semicolon
  | ',' => some .comma
  | _ => none

/-- Cuts off the rest of a quoted string. -/
def cutQuoted (quote : Char) (rest : List Char) : Cut :=
  match quotedBody quote rest with
  | some (body, left) => (.ok (.quoted (String.ofList body)), left)
  | none => (.error .unterminatedQuote, [])

/-- Cuts off the rest of an operator that starts with `=`: letters and a second `=`. -/
def cutNamed (rest : List Char) : Cut :=
  match rest.dropWhile Char.isAlpha with
  | '=' :: left => (.ok (operatorToken ('=' :: (rest.takeWhile Char.isAlpha ++ ['=']))), left)
  | left => (.error .malformedOperator, left)

/-- Cuts off the rest of an operator that starts with `!`, `<` or `>`; the first of them needs
an `=` to follow. -/
def cutShort (c : Char) : List Char → Cut
  | '=' :: left => (.ok (operatorToken [c, '=']), left)
  | left => (if c = '!' then .error .loneExclamation else .ok (operatorToken [c]), left)

/-- Cuts off the rest of a word. -/
def cutWord (c : Char) (rest : List Char) : Cut :=
  (.ok (.word (String.ofList (c :: rest.takeWhile (!isReserved ·)))),
    rest.dropWhile (!isReserved ·))

/-- Cuts off the first lexeme of a text that does not start with a blank character. A stray tilde
is left in place. -/
def cutLexeme : List Char → Cut
  | [] => (.ok .endOfInput, [])
  | c :: rest =>
    match punctuation? c with
    | some token => (.ok token, rest)
    | none =>
      if c = '\'' || c = '"' then cutQuoted c rest
      else if c = '=' then cutNamed rest
      else if c = '!' || c = '<' || c = '>' then cutShort c rest
      else if c = '~' then (.error .strayTilde, c :: rest)
      else cutWord c rest

/-! ### What is left is shorter -/

/-- A quoted string takes its closing quote at least. -/
theorem length_quotedBody {quote : Char} {cs body rest : List Char}
    (h : quotedBody quote cs = some (body, rest)) : rest.length < cs.length := by
  fun_induction quotedBody quote cs generalizing body rest with
  | case1 => simp at h
  | case2 => simp at h
  | case3 c cs ih =>
    obtain ⟨⟨b, r⟩, hfound, heq⟩ := Option.map_eq_some_iff.mp h
    obtain ⟨-, rfl⟩ := Prod.mk.inj heq
    have hlt := ih hfound
    simp only [List.length_cons]
    omega
  | case4 => simp_all
  | case5 c cs _ _ _ ih =>
    obtain ⟨⟨b, r⟩, hfound, heq⟩ := Option.map_eq_some_iff.mp h
    obtain ⟨-, rfl⟩ := Prod.mk.inj heq
    have hlt := ih hfound
    simp only [List.length_cons]
    omega

/-- A quoted string, closed or not, leaves no more than there was. -/
theorem length_cutQuoted (quote : Char) (rest : List Char) :
    (cutQuoted quote rest).2.length ≤ rest.length := by
  unfold cutQuoted
  split
  · next hbody => exact Nat.le_of_lt (length_quotedBody hbody)
  · exact Nat.zero_le _

/-- An operator with a name leaves no more than there was. -/
theorem length_cutNamed (rest : List Char) : (cutNamed rest).2.length ≤ rest.length := by
  have hdrop := (List.dropWhile_suffix Char.isAlpha (l := rest)).length_le
  unfold cutNamed
  split
  · next hleft =>
    rw [hleft] at hdrop
    exact Nat.le_of_succ_le hdrop
  · exact hdrop

/-- A short operator leaves no more than there was. -/
theorem length_cutShort (c : Char) (rest : List Char) :
    (cutShort c rest).2.length ≤ rest.length := by
  unfold cutShort
  split
  · exact Nat.le_succ _
  · exact Nat.le_refl _

theorem length_cutWord (c : Char) (rest : List Char) :
    (cutWord c rest).2.length ≤ rest.length :=
  (List.dropWhile_suffix _).length_le

/-- A lexeme of a token other than the end of input is not empty. -/
theorem length_cutLexeme {cs rest : List Char} {token : Token}
    (h : cutLexeme cs = (.ok token, rest)) (hend : token ≠ .endOfInput) :
    rest.length < cs.length := by
  cases cs with
  | nil =>
    exact absurd (Except.ok.inj (Prod.mk.inj h).1).symm hend
  | cons c cs =>
    have hrest : rest = (cutLexeme (c :: cs)).2 := by rw [h]
    suffices hle : rest.length ≤ cs.length from Nat.lt_succ_of_le hle
    rw [hrest]
    rw [cutLexeme] at h ⊢
    split at h
    · exact Nat.le_refl _
    · split at h
      · simpa [*] using length_cutQuoted c cs
      · split at h
        · simpa [*] using length_cutNamed cs
        · split at h
          · simpa [*] using length_cutShort c cs
          · split at h
            · simp at h
            · simpa [*] using length_cutWord c cs

end Query

/-- A position in a query text: the number of characters before it, and those after it. -/
structure Scanner where
  position : Nat
  rest : List Char
  deriving DecidableEq, Repr

namespace Scanner

/-- The start of a text. -/
def ofText (text : String) : Scanner := ⟨0, text.toList⟩

/-- The position at which only `rest` is left. -/
def moveTo (s : Scanner) (rest : List Char) : Scanner :=
  ⟨s.position + (s.rest.length - rest.length), rest⟩

/-- The next position that is not before a blank character. -/
def skipBlanks (s : Scanner) : Scanner := s.moveTo (s.rest.dropWhile Text.isBlank)

/-- Scans one token. -/
def next (s : Scanner) : Except ScanError Token × Scanner :=
  match Query.cutLexeme s.skipBlanks.rest with
  | (.ok token, rest) => (.ok token, s.skipBlanks.moveTo rest)
  | (.error fault, rest) => (.error ⟨fault, s.skipBlanks.position⟩, s.skipBlanks.moveTo rest)

/-- A token other than the end of input leaves less. -/
theorem length_next {s s' : Scanner} {token : Token} (h : s.next = (.ok token, s'))
    (hend : token ≠ .endOfInput) : s'.rest.length < s.rest.length := by
  have hskip := (List.dropWhile_suffix Text.isBlank (l := s.rest)).length_le
  unfold next at h
  split at h
  · next hcut =>
    obtain ⟨htoken, rfl⟩ := Prod.mk.inj h
    cases htoken
    exact Nat.lt_of_lt_of_le (Query.length_cutLexeme hcut hend) hskip
  · simp at h

/-- All tokens from a position on, the end of input included, or the first fault. -/
def tokens (s : Scanner) : Except ScanError (List Token) :=
  match _hnext : s.next with
  | (.error e, _) => .error e
  | (.ok token, s') =>
    if _hend : token = .endOfInput then .ok [.endOfInput]
    else (tokens s').map (token :: ·)
  termination_by s.rest.length
  decreasing_by exact length_next _hnext _hend

end Scanner

namespace Query

/-- The tokens of a query text, the end of input included, or the first fault. -/
def tokenize (text : String) : Except ScanError (List Token) := (Scanner.ofText text).tokens

end Query

end FilterQuery
