import FilterQuery.Proofs.Lexing
import Mathlib.Logic.Function.Iterate

/-!
# Scanning on behind faults

A scanner that has found a fault can be asked for the next token, which it seeks where the fault was
noticed. So the question is whether it gets anywhere.

* **Faults.** Each kind of fault leaves its own characters behind: the sign and the letters of a
  malformed operator, the rest of the text behind an open quote, a single `!` (`Query.Fails`). A
  tilde is the exception: it is reported where it stands and is not read.
* **Stray tildes.** A tilde **strays** if it stands outside of all quoted strings (`HasStrayTilde`).
  A call neither takes a stray tilde away nor makes one: what it reads is inert, a quoted string as
  a whole, or the rest of a text with an open quote.
* **A call** at the end of the text stays there, at a stray tilde stays as well, and everywhere else
  reads a character at least (`next_cases`).
* **Calls one after the other.** By induction a text without a stray tilde is scanned to its end, in
  no more calls than it has characters, and in any other text the scanner comes to a stray tilde and
  reports it for ever (`Scanner.movesOn_iff`).
-/

namespace FilterQuery

namespace Query

variable {cs rest lexeme : List Char} {c quote : Char} {fault : LexicalFault} {token : Token}

/-! ### Faults -/

/-- The characters start with a fault, and the scanner goes on with the rest. -/
inductive Fails : List Char → LexicalFault → List Char → Prop where
  | unterminated {quote : Char} {cs : List Char} (hquote : quote = '\'' ∨ quote = '"')
      (h : quotedBody quote cs = none) : Fails (quote :: cs) .unterminatedQuote []
  | lone {rest : List Char} (h : rest.head? ≠ some '=') : Fails ('!' :: rest) .loneExclamation rest
  | malformed {letters rest : List Char} (hletters : ∀ c ∈ letters, c.isAlpha = true)
      (h : rest.head? ≠ some '=') : Fails ('=' :: (letters ++ rest)) .malformedOperator rest
  | tilde {cs : List Char} : Fails ('~' :: cs) .strayTilde ('~' :: cs)

/-- An operator that is not closed is malformed. -/
theorem fails_of_cutNamed (h : cutNamed cs = (.error fault, rest)) :
    Fails ('=' :: cs) fault rest := by
  unfold cutNamed at h
  split at h
  · cases h
  · next hnot =>
    cases h
    have hhead : (cs.dropWhile Char.isAlpha).head? ≠ some '=' := by
      intro hhead
      obtain ⟨left, hleft⟩ := List.head?_eq_some_iff.mp hhead
      exact hnot left hleft
    have hletters : ∀ c ∈ cs.takeWhile Char.isAlpha, c.isAlpha = true :=
      List.all_eq_true.mp List.all_takeWhile
    have hfails := Fails.malformed hletters hhead
    rwa [List.takeWhile_append_dropWhile] at hfails

/-- A single exclamation mark is a fault. -/
theorem fails_of_cutShort (h : cutShort c cs = (.error fault, rest)) :
    Fails (c :: cs) fault rest := by
  unfold cutShort at h
  split at h
  · cases h
  · next hnot =>
    obtain ⟨hfault, rfl⟩ := Prod.mk.inj h
    split at hfault
    · next hbang =>
      cases hfault
      subst hbang
      refine .lone fun hhead => ?_
      obtain ⟨left, hleft⟩ := List.head?_eq_some_iff.mp hhead
      exact hnot left hleft
    · cases hfault

/-- A text at which a lexeme cannot be cut off starts with a fault. -/
theorem fails_of_cutLexeme (h : cutLexeme cs = (.error fault, rest)) : Fails cs fault rest := by
  cases cs with
  | nil => cases h
  | cons c cs =>
    -- each branch of the cut that fails gives the fault of its own kind
    rw [cutLexeme] at h
    split at h
    · cases h
    · simp only [Bool.or_eq_true, decide_eq_true_eq] at h
      split at h
      · next hquote =>
        unfold cutQuoted at h
        split at h
        · cases h
        · next hbody =>
          cases h
          exact .unterminated hquote hbody
      · split at h
        · next hequal =>
          subst hequal
          exact fails_of_cutNamed h
        · split at h
          · exact fails_of_cutShort h
          · split at h
            · next htilde =>
              cases h
              subst htilde
              exact .tilde
            · cases h

/-- Only a stray tilde is left in place. -/
theorem Fails.length_lt (h : Fails cs fault rest) (hfault : fault ≠ .strayTilde) :
    rest.length < cs.length := by
  cases h with
  | unterminated _ _ => exact Nat.succ_pos _
  | lone _ => exact Nat.lt_succ_self _
  | malformed _ _ =>
    rw [List.length_cons, List.length_append]
    omega
  | tilde => exact absurd rfl hfault

theorem Fails.exists_eq_cons (h : Fails cs .strayTilde rest) :
    ∃ behind, cs = '~' :: behind ∧ rest = cs := by
  cases h with
  | tilde => exact ⟨_, rfl, rfl⟩

/-!
### Stray tildes

Whether a tilde is stray depends on the quoted strings in front of it, and on nothing else: a string
that is not closed makes the rest of the text a part of it.
-/

/-- A tilde stands in the text outside of all quoted strings. -/
inductive HasStrayTilde : List Char → Prop where
  | here {rest : List Char} : HasStrayTilde ('~' :: rest)
  | behind {c : Char} {rest : List Char} (hc : ¬(c = '\'' ∨ c = '"')) (h : HasStrayTilde rest) :
      HasStrayTilde (c :: rest)
  | behindQuoted {quote : Char} {raw body rest : List Char} (hquote : quote = '\'' ∨ quote = '"')
      (hraw : Quotes quote raw body) (h : HasStrayTilde rest) :
      HasStrayTilde (quote :: (raw ++ quote :: rest))

/-- The character neither is a tilde nor starts a quoted string. -/
def IsInert (c : Char) : Prop := c ∉ ['\'', '"', '~']

theorem isInert_of {p : Char → Bool} {b : Bool}
    (hp : ['\'', '"', '~'].all (fun c => p c == !b) = true) (hc : p c = b) : IsInert c := by
  intro hmem
  have hother : p c = !b := eq_of_beq (List.all_eq_true.mp hp c hmem)
  cases b <;> cases hc.symm.trans hother

/-- An inert character has no part in stray tildes. -/
theorem hasStrayTilde_cons_iff (hc : IsInert c) :
    HasStrayTilde (c :: rest) ↔ HasStrayTilde rest := by
  simp only [IsInert, List.mem_cons, List.not_mem_nil, or_false, not_or] at hc
  constructor
  · intro h
    cases h with
    | here => exact absurd rfl hc.2.2
    | behind _ h => exact h
    | behindQuoted hquote _ _ => exact absurd hquote (not_or.mpr ⟨hc.1, hc.2.1⟩)
  · exact .behind (not_or.mpr ⟨hc.1, hc.2.1⟩)

/-- Neither have several of them. -/
theorem hasStrayTilde_append_iff (h : ∀ c ∈ cs, IsInert c) :
    HasStrayTilde (cs ++ rest) ↔ HasStrayTilde rest := by
  induction cs with
  | nil => exact Iff.rfl
  | cons c cs ih =>
    obtain ⟨hc, hcs⟩ := List.forall_mem_cons.mp h
    rw [List.cons_append, hasStrayTilde_cons_iff hc, ih hcs]

theorem ne_of_isQuote (hquote : quote = '\'' ∨ quote = '"') : quote ≠ '~' ∧ quote ≠ '\\' := by
  rcases hquote with rfl | rfl <;> decide

/-- Behind a quote a stray tilde stands outside of the quoted string. -/
theorem hasStrayTilde_quote_iff (hquote : quote = '\'' ∨ quote = '"') :
    HasStrayTilde (quote :: cs) ↔
      ∃ body rest, quotedBody quote cs = some (body, rest) ∧ HasStrayTilde rest := by
  obtain ⟨htilde, hescape⟩ := ne_of_isQuote hquote
  constructor
  · intro h
    cases h with
    | here => exact absurd rfl htilde
    | behind hc _ => exact absurd hquote hc
    | behindQuoted _ hraw h => exact ⟨_, _, hraw.quotedBody_append hescape _, h⟩
  · rintro ⟨body, rest, hbody, h⟩
    obtain ⟨raw, hraw, rfl⟩ := exists_of_quotedBody hbody
    exact .behindQuoted hquote hraw h

theorem not_hasStrayTilde_nil : ¬ HasStrayTilde [] := nofun

/-- The spelling of a token has no part in a stray tilde. -/
theorem Spells.hasStrayTilde_append_iff (h : Spells lexeme token) :
    HasStrayTilde (lexeme ++ rest) ↔ HasStrayTilde rest := by
  cases h with
  | word _ hword =>
    -- no character of a word, an operator or a mark is a tilde or opens a quotation
    exact Query.hasStrayTilde_append_iff fun c hc => isInert_of (by decide) (hword c hc)
  | @quoted quote raw body hquote hraw =>
    have hbody := hraw.quotedBody_append (ne_of_isQuote hquote).2 rest
    have happend : quote :: (raw ++ [quote]) ++ rest = quote :: (raw ++ quote :: rest) := by simp
    -- the whole quotation is passed over, whatever it holds
    rw [happend, hasStrayTilde_quote_iff hquote, hbody]
    simp [and_assoc]
  | operator hsymbol =>
    refine Query.hasStrayTilde_append_iff ?_
    cases hsymbol with
    | named letters hletters =>
      have hequal : IsInert '=' := by simp [IsInert]
      refine List.forall_mem_cons.mpr ⟨hequal, List.forall_mem_append.mpr ⟨fun c hc => ?_, ?_⟩⟩
      · exact isInert_of (by decide) (hletters c hc)
      · exact List.forall_mem_singleton.mpr hequal
    | twofold hc => rcases hc with rfl | rfl | rfl <;> simp [IsInert]
    | single hc => rcases hc with rfl | rfl <;> simp [IsInert]
  | punctuation hmark =>
    refine Query.hasStrayTilde_append_iff (List.forall_mem_singleton.mpr ?_)
    cases punctuation?_eq_some_iff.mp hmark <;>
      simp [IsInert]

/-- What is left out behind a fault has no part in a stray tilde. -/
theorem Fails.hasStrayTilde_iff (h : Fails cs fault rest) :
    HasStrayTilde cs ↔ HasStrayTilde rest := by
  cases h with
  | unterminated hquote hbody =>
    rw [hasStrayTilde_quote_iff hquote, hbody]
    simp [not_hasStrayTilde_nil]
  | lone _ => exact hasStrayTilde_cons_iff (by simp [IsInert])
  | @malformed letters rest hletters _ =>
    rw [hasStrayTilde_cons_iff (by simp [IsInert])]
    exact Query.hasStrayTilde_append_iff fun c hc => isInert_of (by decide) (hletters c hc)
  | tilde => exact Iff.rfl

/-- A lexeme that is cut off has a character at least, and no part in a stray tilde. -/
theorem of_cutLexeme_eq_ok (hblank : Text.isBlank c = false)
    (h : cutLexeme (c :: cs) = (.ok token, rest)) :
    rest.length < (c :: cs).length ∧ token ≠ .endOfInput ∧
      (HasStrayTilde (c :: cs) ↔ HasStrayTilde rest) := by
  obtain ⟨lexeme, hspells, -, hlexeme⟩ := exists_of_cutLexeme hblank h
  have hstray : HasStrayTilde (c :: cs) ↔ HasStrayTilde rest := by
    rw [hlexeme, hspells.hasStrayTilde_append_iff]
  refine ⟨?_, hspells.ne_endOfInput, hstray⟩
  obtain ⟨first, others, rfl, -⟩ := hspells.exists_cons
  rw [hlexeme, List.length_append, List.length_cons]
  omega

end Query

namespace Scanner

open Query

variable {s : Scanner}

/-!
### A call

All that later proofs have to know of a call is in one statement with its three cases. Whether a
stray tilde is left is one of the things it says, and no call changes that.
-/

/-- The scanner reports the end of input. -/
def IsAtEnd (s : Scanner) : Prop := s.next.1 = .ok .endOfInput

/-- The scanner reports a stray tilde and stays in front of it. -/
def IsStuck (s : Scanner) : Prop := s.next = (.error ⟨.strayTilde, s.position⟩, s)

theorem next_of_cutLexeme_error {fault : LexicalFault} {rest : List Char}
    (h : cutLexeme (s.rest.dropWhile Text.isBlank) = (.error fault, rest)) :
    s.next = (.error ⟨fault, s.skipBlanks.position⟩, s.skipBlanks.moveTo rest) := by
  have hcut : cutLexeme s.skipBlanks.rest = (.error fault, rest) := h
  rw [next, hcut]

theorem moveTo_skipBlanks {rest : List Char}
    (h : rest.length ≤ (s.rest.dropWhile Text.isBlank).length) :
    s.skipBlanks.moveTo rest = s.moveTo rest := by
  have hdrop := (List.dropWhile_suffix Text.isBlank (l := s.rest)).length_le
  simp only [skipBlanks, moveTo, mk.injEq, and_true]
  omega

theorem moveTo_rest (s : Scanner) : s.moveTo s.rest = s := by
  simp [moveTo]

/-- Blank characters have no part in a stray tilde. -/
theorem hasStrayTilde_dropWhile_iff :
    HasStrayTilde (s.rest.dropWhile Text.isBlank) ↔ HasStrayTilde s.rest := by
  have hblanks : ∀ c ∈ s.rest.takeWhile Text.isBlank, IsInert c := fun c hc =>
    isInert_of (by decide) (List.all_eq_true.mp List.all_takeWhile c hc)
  rw [← hasStrayTilde_append_iff hblanks, List.takeWhile_append_dropWhile]

/-- **A call.** The scanner reports the end of input, or reads a character at least, or is stuck in
front of a tilde. What it reads and leaves out has no part in a stray tilde. -/
theorem next_cases (s : Scanner) :
    (s.next = (.ok .endOfInput, s.moveTo []) ∧ ¬ HasStrayTilde s.rest) ∨
    (∃ answer rest, s.next = (answer, s.moveTo rest) ∧ answer ≠ .ok .endOfInput ∧
      rest.length < s.rest.length ∧ (HasStrayTilde s.rest ↔ HasStrayTilde rest)) ∨
    (s.IsStuck ∧ HasStrayTilde s.rest) := by
  have hstray := hasStrayTilde_dropWhile_iff (s := s)
  have hsuffix := List.dropWhile_suffix Text.isBlank (l := s.rest)
  -- either there is nothing but blanks, or a lexeme is cut off, or a fault is found
  cases hcut : cutLexeme (s.rest.dropWhile Text.isBlank) with
  | mk answer rest =>
  cases answer with
  | ok token =>
    have hnext := next_of_cutLexeme hcut
    cases hcs : s.rest.dropWhile Text.isBlank with
    | nil =>
      rw [hcs] at hcut hstray
      cases hcut
      rw [moveTo_skipBlanks (Nat.zero_le _)] at hnext
      exact .inl ⟨hnext, hstray.not.mp not_hasStrayTilde_nil⟩
    | cons c cs =>
      have hblank : Text.isBlank c = false := head?_dropWhile_eq_false c (by rw [hcs]; rfl)
      rw [hcs] at hcut hstray
      obtain ⟨hlt, hend, hrest⟩ := of_cutLexeme_eq_ok hblank hcut
      rw [← hcs] at hlt
      rw [moveTo_skipBlanks (Nat.le_of_lt hlt)] at hnext
      exact .inr (.inl ⟨_, rest, hnext, fun h => hend (Except.ok.inj h),
        Nat.lt_of_lt_of_le hlt hsuffix.length_le, hstray.symm.trans hrest⟩)
  | error fault =>
    have hnext := next_of_cutLexeme_error hcut
    have hfails := fails_of_cutLexeme hcut
    by_cases hfault : fault = .strayTilde
    · -- the scanner stops at the tilde, so it moves on only if blanks stand in front of it
      subst hfault
      obtain ⟨behind, hcs, rfl⟩ := hfails.exists_eq_cons
      by_cases hblanks : s.rest.dropWhile Text.isBlank = s.rest
      · -- no blank character stands in front of the tilde
        have hskip : s.skipBlanks = s := by rw [skipBlanks, hblanks, moveTo_rest]
        rw [hskip, hblanks, moveTo_rest] at hnext
        exact .inr (.inr ⟨hnext, hstray.mp (hcs ▸ .here)⟩)
      · have hlt := Nat.lt_of_le_of_ne hsuffix.length_le (mt hsuffix.eq_of_length hblanks)
        rw [moveTo_skipBlanks (Nat.le_refl _)] at hnext
        exact .inr (.inl ⟨_, _, hnext, nofun, hlt, hstray.symm⟩)
    · have hlt := hfails.length_lt hfault
      rw [moveTo_skipBlanks (Nat.le_of_lt hlt)] at hnext
      refine .inr (.inl ⟨_, rest, hnext, nofun, Nat.lt_of_lt_of_le hlt hsuffix.length_le, ?_⟩)
      rw [← hstray, hfails.hasStrayTilde_iff]

theorem position_moveTo_add {rest : List Char} (h : rest.length ≤ s.rest.length) :
    (s.moveTo rest).position + rest.length = s.position + s.rest.length := by
  change s.position + (s.rest.length - rest.length) + rest.length = _
  omega

/-- The position and the characters that are left go together. -/
theorem position_next_add (s : Scanner) :
    s.next.2.position + s.next.2.rest.length = s.position + s.rest.length := by
  obtain ⟨hnext, -⟩ | ⟨answer, rest, hnext, -, hlt, -⟩ | ⟨hstuck, -⟩ := s.next_cases
  · rw [hnext]
    exact position_moveTo_add (Nat.zero_le _)
  · rw [hnext]
    exact position_moveTo_add (Nat.le_of_lt hlt)
  · rw [hstuck]

/-- A call neither takes a stray tilde away nor makes one. -/
theorem hasStrayTilde_next_iff (s : Scanner) :
    HasStrayTilde s.next.2.rest ↔ HasStrayTilde s.rest := by
  obtain ⟨hnext, hnot⟩ | ⟨answer, rest, hnext, -, -, hstray⟩ | ⟨hstuck, -⟩ := s.next_cases
  · rw [hnext]
    exact iff_of_false not_hasStrayTilde_nil hnot
  · rw [hnext, hstray]
    rfl
  · rw [hstuck]

/-- A call that neither reports the end nor is stuck leaves fewer characters. -/
theorem length_next_lt (hend : ¬ s.IsAtEnd) (hstuck : ¬ s.IsStuck) :
    s.next.2.rest.length < s.rest.length := by
  obtain ⟨hnext, -⟩ | ⟨answer, rest, hnext, -, hlt, -⟩ | ⟨hstuck', -⟩ := s.next_cases
  · exact absurd (congrArg Prod.fst hnext) hend
  · rw [hnext]
    exact hlt
  · exact absurd hstuck' hstuck

/-- A scanner is stuck at a stray tilde. -/
theorem IsStuck.hasStrayTilde (h : s.IsStuck) : HasStrayTilde s.rest := by
  obtain ⟨hnext, -⟩ | ⟨answer, rest, hnext, -, hlt, -⟩ | ⟨-, hstray⟩ := s.next_cases
  · cases h.symm.trans hnext
  · -- a scanner that is stuck leaves all characters
    have hrest : s = s.moveTo rest := congrArg Prod.snd (h.symm.trans hnext)
    have hlength : s.rest.length = rest.length := congrArg (·.rest.length) hrest
    omega
  · exact hstray

/-- At the end of a text the end of input is found. -/
theorem IsAtEnd.next_eq (h : s.IsAtEnd) :
    s.next = (.ok .endOfInput, s.moveTo []) ∧ ¬ HasStrayTilde s.rest := by
  obtain hcase | ⟨answer, rest, hnext, hne, -⟩ | ⟨hstuck, -⟩ := s.next_cases
  · exact hcase
  · exact absurd ((congrArg Prod.fst hnext).symm.trans h) hne
  · cases (congrArg Prod.fst hstuck).symm.trans h

theorem IsAtEnd.next (h : s.IsAtEnd) : s.next.2.IsAtEnd := by
  rw [h.next_eq.1]
  rfl

/-! ### Calls one after the other -/

/-- The scanner after a number of calls, whatever they reported. -/
def after (s : Scanner) (calls : ℕ) : Scanner := (fun s => s.next.2)^[calls] s

theorem after_succ (s : Scanner) (calls : ℕ) : s.after (calls + 1) = (s.after calls).next.2 :=
  Function.iterate_succ_apply' _ _ _

theorem after_add (s : Scanner) (first later : ℕ) :
    s.after (first + later) = (s.after first).after later := by
  rw [Nat.add_comm]
  exact Function.iterate_add_apply _ _ _ _

theorem position_after_add (s : Scanner) (calls : ℕ) :
    (s.after calls).position + (s.after calls).rest.length = s.position + s.rest.length := by
  induction calls with
  | zero => rfl
  | succ calls ih => rw [after_succ, position_next_add, ih]

/-- After any calls there is a stray tilde if there was one at first. -/
theorem hasStrayTilde_after_iff (s : Scanner) (calls : ℕ) :
    HasStrayTilde (s.after calls).rest ↔ HasStrayTilde s.rest := by
  induction calls with
  | zero => exact Iff.rfl
  | succ calls ih => rw [after_succ, hasStrayTilde_next_iff, ih]

/-- A scanner at the end of a text stays there. -/
theorem IsAtEnd.after (h : s.IsAtEnd) (calls : ℕ) : (s.after calls).IsAtEnd := by
  induction calls with
  | zero => exact h
  | succ calls ih =>
    rw [after_succ]
    exact ih.next

theorem IsStuck.after_eq (h : s.IsStuck) (calls : ℕ) : s.after calls = s := by
  induction calls with
  | zero => rfl
  | succ calls ih => rw [after_succ, ih, h]

/-- **Calls.** After at most as many calls as there are characters, the scanner reports the end of
input or is stuck. -/
theorem exists_isAtEnd_or_isStuck (s : Scanner) :
    ∃ calls ≤ s.rest.length, (s.after calls).IsAtEnd ∨ (s.after calls).IsStuck := by
  by_cases hrests : s.IsAtEnd ∨ s.IsStuck
  · exact ⟨0, Nat.zero_le _, hrests⟩
  · obtain ⟨hend, hstuck⟩ := not_or.mp hrests
    have hlt := length_next_lt hend hstuck
    obtain ⟨calls, hcalls, hrests'⟩ := s.next.2.exists_isAtEnd_or_isStuck
    exact ⟨calls + 1, by omega, hrests'⟩
  termination_by s.rest.length

/-! ### Texts -/

/-- Calls on a text never leave it. Each goes on to a later position until one reports the end of
input, which is one of the first calls of which there is one more than there are characters; from
then on every call reports it. -/
structure MovesOn (text : String) : Prop where
  position_le : ∀ calls, ((ofText text).after calls).position ≤ text.toList.length
  position_lt : ∀ calls, ¬ ((ofText text).after calls).IsAtEnd →
    ((ofText text).after calls).position < ((ofText text).after (calls + 1)).position
  ends : ∃ calls ≤ text.toList.length, ((ofText text).after calls).IsAtEnd
  stays : ∀ calls later, calls ≤ later → ((ofText text).after calls).IsAtEnd →
    ((ofText text).after later).IsAtEnd

/-- **Progress.** Calls never leave the text, and go on to report the end of input once they have
done so. They move on through a text if it has no stray tilde, and only then: in a text with one,
they come to a stray tilde, stay there and report it for ever. -/
theorem movesOn_iff (text : String) :
    (MovesOn text ↔ ¬ HasStrayTilde text.toList) ∧
    (∀ calls, ((ofText text).after calls).position ≤ text.toList.length) ∧
    (∀ calls later, calls ≤ later → ((ofText text).after calls).IsAtEnd →
      ((ofText text).after later).IsAtEnd) ∧
    (HasStrayTilde text.toList → ∃ calls ≤ text.toList.length, ∀ later, calls ≤ later →
      ((ofText text).after later).next =
        (.error ⟨.strayTilde, ((ofText text).after calls).position⟩,
          (ofText text).after calls)) := by
  have hposition : ∀ calls, ((ofText text).after calls).position ≤ text.toList.length := by
    intro calls
    have hadd : _ = 0 + text.toList.length := (ofText text).position_after_add calls
    omega
  have hstays : ∀ calls later, calls ≤ later → ((ofText text).after calls).IsAtEnd →
      ((ofText text).after later).IsAtEnd := by
    rintro calls _ hle hend
    obtain ⟨more, rfl⟩ := Nat.exists_eq_add_of_le hle
    rw [after_add]
    exact hend.after more
  obtain ⟨calls, hcalls, hrests⟩ := (ofText text).exists_isAtEnd_or_isStuck
  refine ⟨⟨fun hmoves hstray => ?_, fun hnot => ⟨hposition, fun calls hend => ?_, ?_, hstays⟩⟩,
    hposition, hstays, fun hstray => ⟨calls, hcalls, ?_⟩⟩
  · -- calls that come to the end cannot be stuck, since a stray tilde is still to be read
    obtain ⟨calls, -, hend⟩ := hmoves.ends
    exact hend.next_eq.2 ((hasStrayTilde_after_iff _ calls).mpr hstray)
  · -- a call that is not stuck moves on by a character at least
    have hstuck : ¬ ((ofText text).after calls).IsStuck := fun hstuck =>
      hnot ((hasStrayTilde_after_iff _ calls).mp hstuck.hasStrayTilde)
    have hlt := length_next_lt hend hstuck
    have hadd := ((ofText text).after calls).position_next_add
    rw [after_succ]
    omega
  · refine ⟨calls, hcalls, hrests.resolve_right fun hstuck => ?_⟩
    exact hnot ((hasStrayTilde_after_iff _ calls).mp hstuck.hasStrayTilde)
  · -- the end is not reached with a stray tilde in the text, so the calls are stuck
    have hstuck : ((ofText text).after calls).IsStuck := hrests.resolve_left fun hend =>
      hend.next_eq.2 ((hasStrayTilde_after_iff _ calls).mpr hstray)
    rintro _ hle
    obtain ⟨more, rfl⟩ := Nat.exists_eq_add_of_le hle
    rw [after_add, hstuck.after_eq]
    exact hstuck

/-- A call on a tilde stays where it is. -/
theorem not_movesOn_tilde : ¬ MovesOn "~" := by
  intro h
  have hstuck : (ofText "~").IsStuck := rfl
  have hend : ¬ ((ofText "~").after 0).IsAtEnd := fun hend => by
    cases (congrArg Prod.fst hstuck).symm.trans hend
  have hlt := h.position_lt 0 hend
  rw [hstuck.after_eq, hstuck.after_eq] at hlt
  exact Nat.lt_irrefl _ hlt

end Scanner

end FilterQuery
