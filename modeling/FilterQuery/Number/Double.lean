/-!
# Double-precision numbers

A **double** is a number of the IEEE 754 binary64 format, kept as its sign and its **magnitude
word**: the eleven exponent bits above the fifty-two fraction bits. Words of one sign are in the
order of the numbers they stand for, so comparison needs no arithmetic (`Double.compare?`), and all
arithmetic is exact on natural numbers with one rounding at the end (`Double.round`).

* **Kinds.** The word of the infinities is the bound between the finite doubles and those that are
  no numbers. The two zeros have different signs and the same rank, so they are equal.
* **Equality** has a body of its own (`Double.equals`) and agrees with the order
  (`Double.equals_iff_compare?`): a double that is no number equals none, itself included.
* **Size.** A finite double is `significand * 2 ^ scale`. As a fraction it has a numerator and a
  denominator that are natural numbers, one of which is a power of two.
* **Rounding** takes a fraction to the nearest double, halves to even, and what is too large to the
  infinity of the sign. No rounding gives a double that is no number (`Double.isNaN_round`).
-/

namespace FilterQuery

/-- A binary64 number: its sign, and its exponent and fraction bits as one word. -/
structure Double where
  negative : Bool
  word : Fin 0x8000000000000000
  deriving DecidableEq, Repr

namespace Double

/-- The weight of the lowest exponent bit in a word: the fifty-second power of two. -/
def exponentUnit : Nat := 0x10000000000000

/-- The word of infinity; greater words stand for no number. -/
def infinityWord : Nat := 0x7FF0000000000000

/-- The value that is not a number. -/
def nan : Double := ⟨false, 0x7FF8000000000000, by decide⟩

/-- Infinity of the given sign. -/
def infinity (negative : Bool) : Double := ⟨negative, infinityWord, by decide⟩

/-- Zero of the given sign. -/
def zero (negative : Bool) : Double := ⟨negative, 0, by decide⟩

/-- Whether the double stands for no number. -/
def isNaN (x : Double) : Bool := infinityWord < x.word.val

/-- Whether the double is one of the two infinities. -/
def isInfinite (x : Double) : Bool := x.word.val == infinityWord

/-- Whether the double is a real number. -/
def isFinite (x : Double) : Bool := x.word.val < infinityWord

/-- The number with the opposite sign. -/
def neg (x : Double) : Double := ⟨!x.negative, x.word⟩

/-! ### Order -/

/-- A whole number that is ordered as the doubles are, the two zeros being equal. -/
def rank (x : Double) : Int := if x.negative then -(x.word.val : Int) else x.word.val

/-- Numeric order: the two zeros are equal, and what is no number has no place in it. -/
def compare? (x y : Double) : Option Ordering :=
  if x.isNaN || y.isNaN then none else some (compare x.rank y.rank)

/-- Numeric equality: the two zeros are equal, and what is no number equals nothing, itself
included. -/
def equals (x y : Double) : Bool :=
  !x.isNaN && !y.isNaN && (x == y || (x.word.val == 0 && y.word.val == 0))

/-- Doubles have the same rank if they are the same or both are zero. -/
theorem rank_eq_rank_iff {x y : Double} :
    x.rank = y.rank ↔ x = y ∨ (x.word.val = 0 ∧ y.word.val = 0) := by
  obtain ⟨negative, word, hword⟩ := x
  obtain ⟨negative', word', hword'⟩ := y
  cases negative <;> cases negative' <;> simp only [rank, mk.injEq, Fin.mk.injEq, true_and,
    false_and, false_or, reduceCtorEq, if_true, Bool.false_eq_true, if_false] <;> omega

/-- Equality, which reads the bits, agrees with the numeric order. -/
theorem equals_iff_compare? {x y : Double} : x.equals y = true ↔ x.compare? y = some .eq := by
  have hrank : compare x.rank y.rank = .eq ↔ x.rank = y.rank := Std.LawfulEqCmp.compare_eq_iff_eq
  unfold equals compare?
  cases x.isNaN <;> cases y.isNaN <;> simp [hrank, rank_eq_rank_iff]

/-! ### Values of finite doubles -/

/-- The whole number `m` with `|x| = m · 2 ^ scale x`, for a finite `x`. -/
def significand (x : Double) : Nat :=
  if x.word.val < exponentUnit then x.word.val else exponentUnit + x.word.val % exponentUnit

/-- The power of two that multiplies the significand of a finite double. -/
def scale (x : Double) : Int :=
  if x.word.val < exponentUnit then -1074 else (x.word.val / exponentUnit : Nat) - 1075

/-- The numerator of `|x|` over `denominator x`, for a finite `x`. -/
def numerator (x : Double) : Nat := x.significand * Nat.pow 2 x.scale.toNat

/-- A power of two that makes `|x|` a fraction of whole numbers, for a finite `x`. -/
def denominator (x : Double) : Nat := Nat.pow 2 (-x.scale).toNat

/-! ### Rounding -/

/-- The quotient `num / den` rounded to a whole number, a half to the even neighbour. -/
def divideToEven (num den : Nat) : Nat :=
  let quotient := num / den
  let twice := 2 * (num % den)
  if den < twice || (twice == den && quotient % 2 == 1) then quotient + 1 else quotient

/-- The binary exponent of the last place of the double nearest to `num / den`: the significand
has fifty-three bits unless the number is so small that fewer are left. -/
def lastPlace (num den : Nat) : Int :=
  let guess : Int := (num.log2 : Int) - den.log2
  let leading :=
    if num * Nat.pow 2 (-guess).toNat < den * Nat.pow 2 guess.toNat then guess - 1 else guess
  max (-1074) (leading - 52)

/-- The double nearest to `num / den` with the given sign; a tie goes to the even significand, and
what is beyond the greatest finite double is infinite. A carry out of the significand moves to
the next exponent because the exponent bits stand above the fraction bits. -/
def round (negative : Bool) (num den : Nat) : Double :=
  if num = 0 then zero negative
  else
    let place := lastPlace num den
    let significand :=
      divideToEven (num * Nat.pow 2 (-place).toNat) (den * Nat.pow 2 place.toNat)
    let word := (place + 1074).toNat * exponentUnit + significand
    if h : word < infinityWord then ⟨negative, word, Nat.lt_trans h (by decide)⟩
    else infinity negative

/-- The double nearest to a whole number. -/
def ofInt (n : Int) : Double := round (decide (n < 0)) n.natAbs 1

/-- The product of two finite doubles, rounded. -/
def mul (x y : Double) : Double :=
  round (x.negative != y.negative) (x.numerator * y.numerator) (x.denominator * y.denominator)

/-- The quotient of a finite double by a finite double other than zero, rounded. -/
def div (x y : Double) : Double :=
  round (x.negative != y.negative) (x.numerator * y.denominator) (x.denominator * y.numerator)

/-- A number equals itself, and what is no number does not. -/
theorem compare?_self (x : Double) : x.compare? x = if x.isNaN then none else some .eq := by
  simp [compare?, Std.ReflCmp.compare_self]

theorem isNaN_of_isFinite {x : Double} (h : x.isFinite = true) : x.isNaN = false :=
  decide_eq_false (Nat.lt_asymm (of_decide_eq_true h))

/-- What is rounded becomes a number, if only an infinite one. -/
theorem isNaN_round (negative : Bool) (num den : Nat) : (round negative num den).isNaN = false := by
  unfold round
  split
  · rfl
  · dsimp only
    split
    · next hsmall => exact decide_eq_false (Nat.lt_asymm hsmall)
    · rfl

@[simp] theorem isNaN_ofInt (n : Int) : (ofInt n).isNaN = false := isNaN_round _ _ _

end Double

end FilterQuery
