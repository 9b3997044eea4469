/-!
# Whole numbers in decimal

A whole number is written with a minus sign when negative and without leading zeros. It is read more
freely: either sign may stand in front, and leading zeros are allowed. What is written is read back
(`readInt_writeInt`).

The digits are those of core in base ten, so the lemmas of core about them apply
(`ofDigits_digitsOf`). There is no bound on the number: the types with a range check it behind the
reader.
-/

namespace FilterQuery

/-- The decimal digits of a natural number. -/
def digitsOf (n : Nat) : List Char := Nat.toDigits 10 n

/-- The number that a run of decimal digits denotes. -/
def ofDigits (cs : List Char) : Nat := Nat.ofDigitChars 10 cs 0

/-- The decimal text of a whole number. -/
def writeInt (n : Int) : List Char :=
  if n < 0 then '-' :: digitsOf n.natAbs else digitsOf n.natAbs

/-- Whether a minus sign stands in front, and what follows the sign if there is one. -/
def splitSign : List Char → Bool × List Char
  | '-' :: rest => (true, rest)
  | '+' :: rest => (false, rest)
  | cs => (false, cs)

/-- The whole number with the given sign and size. -/
def signed (negative : Bool) (n : Nat) : Int := if negative then -(n : Int) else n

/-- Reads an optional sign and one or more digits; anything else is refused. -/
def readInt (cs : List Char) : Option Int :=
  let (negative, digits) := splitSign cs
  if !digits.isEmpty && digits.all Char.isDigit then some (signed negative (ofDigits digits))
  else none

theorem isDigit_of_mem_digitsOf {n : Nat} {c : Char} (h : c ∈ digitsOf n) : c.isDigit = true :=
  Nat.isDigit_of_mem_toDigits (by decide) (by decide) h

theorem digitsOf_ne_nil (n : Nat) : digitsOf n ≠ [] :=
  Nat.toDigits_ne_nil

theorem ofDigits_digitsOf (n : Nat) : ofDigits (digitsOf n) = n :=
  Nat.ofDigitChars_ten_toDigits

/-- A text that starts with a digit has no sign. -/
theorem splitSign_digits {cs : List Char} (h : ∀ c ∈ cs, c.isDigit = true) :
    splitSign cs = (false, cs) := by
  unfold splitSign
  split
  · exact absurd (h '-' (by simp)) (by decide)
  · exact absurd (h '+' (by simp)) (by decide)
  · rfl

/-- **Whole numbers** are read back from what is written of them. -/
theorem readInt_writeInt (n : Int) : readInt (writeInt n) = some n := by
  have hall : (digitsOf n.natAbs).all Char.isDigit = true :=
    List.all_eq_true.mpr fun _ hc => isDigit_of_mem_digitsOf hc
  have hne : (digitsOf n.natAbs).isEmpty = false := by
    simp [digitsOf_ne_nil]
  have hsign : splitSign (digitsOf n.natAbs) = (false, digitsOf n.natAbs) :=
    splitSign_digits fun _ hc => isDigit_of_mem_digitsOf hc
  by_cases hn : n < 0
  · have hread : readInt ('-' :: digitsOf n.natAbs) = some (-(n.natAbs : Int)) := by
      simp [readInt, splitSign, hne, hall, signed, ofDigits_digitsOf]
    rw [writeInt, if_pos hn, hread]
    congr 1
    omega
  · have hread : readInt (digitsOf n.natAbs) = some (n.natAbs : Int) := by
      simp [readInt, hsign, hne, hall, signed, ofDigits_digitsOf]
    rw [writeInt, if_neg hn, hread]
    congr 1
    omega

end FilterQuery
