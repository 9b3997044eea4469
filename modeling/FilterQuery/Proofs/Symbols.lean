import FilterQuery.Proofs.Lexing
import FilterQuery.Proofs.UpperCase
import FilterQuery.Query.Comparison

/-!
# The symbols of operators

An operator is **well-formed** if it is known, or if its symbol is made of small letters between
two `=` and stands for no known operator. The symbols in a text stand for well-formed operators
(`isWellFormed_ofSymbol`), and the symbol of a well-formed operator stands for that operator
(`ofSymbol_symbol`).

A known operator may be spelt in several ways, with capital letters or by a short sign, and only one
of them is its symbol. So the first statement loses the spelling and the second one is all that the
text of a query needs: it is written with the symbol, which is spelt as an operator is
(`isSymbol_symbol`), and nothing that follows is taken for a part of it.
-/

namespace FilterQuery

namespace Text

/-- A letter in lower case is a small letter. -/
theorem isLower_toLower {c : Char} (h : c.isAlpha = true) : c.toLower.isLower = true := by
  have hascii : c.toNat < 0x80 := by
    rcases (Bool.or_eq_true _ _).mp h with hupper | hlower
    · have hle : c.val ≤ 'Z'.val := (of_decide_eq_true hupper).2
      exact Nat.lt_of_le_of_lt (UInt32.le_iff_toNat_le.mp hle) (by decide)
    · have hle : c.val ≤ 'z'.val := of_decide_eq_true ((Bool.and_eq_true _ _).mp hlower).2
      exact Nat.lt_of_le_of_lt (UInt32.le_iff_toNat_le.mp hle) (by decide)
  exact forall_ascii (P := fun c => c.isAlpha = true → c.toLower.isLower = true)
    (by decide) hascii h

theorem toLower_of_isLower {c : Char} (h : c.isLower = true) : c.toLower = c := by
  refine dif_neg fun hupper => ?_
  have hle : 'a'.val ≤ c.val := of_decide_eq_true ((Bool.and_eq_true _ _).mp h).1
  exact absurd (UInt32.le_trans hle hupper.2) (by decide)

end Text

namespace Operator

/-- The operator is known, or its symbol is a symbol in small letters that is not a known one. -/
def IsWellFormed : Operator → Prop
  | other symbol =>
    (∃ letters : List Char, (∀ c ∈ letters, c.isLower = true) ∧
      symbol = String.ofList ('=' :: (letters ++ ['=']))) ∧
    ∀ known : Operator, known.isOther = false → known.symbol ≠ symbol
  | _ => True

variable {op : Operator}

/-- A symbol in small letters is its own lower case. -/
theorem asciiLower_named {letters : List Char} (h : ∀ c ∈ letters, c.isLower = true) :
    Text.asciiLower (String.ofList ('=' :: (letters ++ ['=']))) =
      String.ofList ('=' :: (letters ++ ['='])) := by
  have hletters : letters.map Char.toLower = letters := by
    rw [List.map_congr_left fun c hc => Text.toLower_of_isLower (h c hc), List.map_id']
  have hequal : '='.toLower = '=' := by decide
  rw [Text.asciiLower, String.toList_ofList, List.map_cons, List.map_append, hletters,
    List.map_cons, hequal, List.map_nil]

/-- The symbol of a well-formed operator stands for it. -/
theorem ofSymbol_symbol (h : op.IsWellFormed) : ofSymbol op.symbol = op := by
  cases op with
  | other symbol =>
    obtain ⟨⟨letters, hletters, rfl⟩, hknown⟩ := h
    -- the known symbols are excluded, and their short forms do not start with `=`
    have hsign : ∀ text : String, text.toList.head? ≠ some '=' →
        String.ofList ('=' :: (letters ++ ['='])) ≠ text := by
      rintro text htext rfl
      exact htext (by simp)
    unfold ofSymbol symbol
    rw [asciiLower_named hletters]
    split
    · next heq => exact absurd heq.symm (hknown equal rfl)
    · next heq => exact absurd heq.symm (hknown notEqual rfl)
    · next heq => exact absurd heq.symm (hknown greater rfl)
    · next heq => exact absurd heq (hsign _ (by decide))
    · next heq => exact absurd heq.symm (hknown greaterOrEqual rfl)
    · next heq => exact absurd heq (hsign _ (by decide))
    · next heq => exact absurd heq.symm (hknown less rfl)
    · next heq => exact absurd heq (hsign _ (by decide))
    · next heq => exact absurd heq.symm (hknown lessOrEqual rfl)
    · next heq => exact absurd heq (hsign _ (by decide))
    · next heq => exact absurd heq.symm (hknown isIn rfl)
    · next heq => exact absurd heq.symm (hknown notIn rfl)
    · next heq => exact absurd heq.symm (hknown like rfl)
    · rfl
  | _ => rfl

/-- A symbol that is read stands for a well-formed operator. -/
theorem isWellFormed_ofSymbol {symbol : List Char} (h : Query.IsSymbol symbol) :
    (ofSymbol (String.ofList symbol)).IsWellFormed := by
  cases h with
  | named letters hletters =>
    have hlower : Text.asciiLower (String.ofList ('=' :: (letters ++ ['=']))) =
        String.ofList ('=' :: (letters.map Char.toLower ++ ['='])) := by
      have hequal : '='.toLower = '=' := by decide
      rw [Text.asciiLower, String.toList_ofList, List.map_cons, List.map_append, hequal,
        List.map_cons, hequal, List.map_nil]
    unfold ofSymbol
    rw [hlower]
    split
    -- no known symbol is spelled so, and the letters in lower case are those of the operator
    case h_14 hequal hnotEqual hgreater _ hgreaterOrEqual _ hless _ hlessOrEqual _ hin hout hlike =>
      refine ⟨⟨letters.map Char.toLower, ?_, rfl⟩, ?_⟩
      · rw [List.forall_mem_map]
        exact fun c hc => Text.isLower_toLower (hletters c hc)
      · intro known hknown heq
        cases known
        · exact hequal heq.symm
        · exact hnotEqual heq.symm
        · exact hgreater heq.symm
        · exact hgreaterOrEqual heq.symm
        · exact hless heq.symm
        · exact hlessOrEqual heq.symm
        · exact hin heq.symm
        · exact hout heq.symm
        · exact hlike heq.symm
        · cases hknown
    all_goals trivial
  | twofold hc => rcases hc with rfl | rfl | rfl <;> trivial
  | single hc => rcases hc with rfl | rfl <;> trivial

/-- The symbol of a well-formed operator is spelt as an operator. -/
theorem isSymbol_symbol (h : op.IsWellFormed) : Query.IsSymbol op.symbol.toList := by
  cases op with
  | notEqual => exact .twofold (.inl rfl)
  | other symbol =>
    obtain ⟨⟨letters, hletters, rfl⟩, -⟩ := h
    rw [symbol, String.toList_ofList]
    exact .named _ fun c hc => (Bool.or_eq_true _ _).mpr (.inr (hletters c hc))
  | equal => exact .named [] (List.all_eq_true.mp rfl)
  | greater => exact .named ['g', 't'] (List.all_eq_true.mp rfl)
  | greaterOrEqual => exact .named ['g', 'e'] (List.all_eq_true.mp rfl)
  | less => exact .named ['l', 't'] (List.all_eq_true.mp rfl)
  | lessOrEqual => exact .named ['l', 'e'] (List.all_eq_true.mp rfl)
  | isIn => exact .named ['i', 'n'] (List.all_eq_true.mp rfl)
  | notIn => exact .named ['o', 'u', 't'] (List.all_eq_true.mp rfl)
  | like => exact .named ['l', 'i'] (List.all_eq_true.mp rfl)

/-- The symbol of a well-formed operator is spelt as it is. -/
theorem spells_symbol (h : op.IsWellFormed) :
    Query.Spells op.symbol.toList (.operator op.symbol) := by
  have hspells := Query.Spells.operator (isSymbol_symbol h)
  rwa [Query.operatorToken, String.ofList_toList] at hspells

/-- A symbol ends the word before it. -/
theorem exists_cons_of_isSymbol {symbol : List Char} (h : Query.IsSymbol symbol) :
    ∃ c cs, symbol = c :: cs ∧ Query.isReserved c = true := by
  cases h with
  | named _ _ => exact ⟨_, _, rfl, by decide⟩
  | twofold hc => rcases hc with rfl | rfl | rfl <;> exact ⟨_, _, rfl, by decide⟩
  | single hc => rcases hc with rfl | rfl <;> exact ⟨_, _, rfl, by decide⟩

/-- Nothing is read on behind the symbol of a well-formed operator. -/
theorem endsBefore_symbol (h : op.IsWellFormed) (rest : List Char) :
    Query.EndsBefore (.operator op.symbol) rest := by
  rintro (heq | heq)
  all_goals
    exfalso
    cases op with
    | other symbol =>
      obtain ⟨⟨letters, -, rfl⟩, -⟩ := h
      rw [symbol, ← String.toList_inj, String.toList_ofList] at heq
      simp at heq
    | _ => revert heq; decide

end Operator

end FilterQuery
