import FilterQuery.Number.Double
import FilterQuery.Number.Whole
import Mathlib.Algebra.Order.Ring.Nat

/-!
# The values of doubles

Every finite double is a whole multiple of the least positive one. The **magnitude** of a double is
that multiple for its size, and its value in these **units** is the magnitude with the sign.

Words of one sign are in the order of the magnitudes, whether or not the exponent bits are all zero:
where they are, the magnitude is the word itself, and each further exponent doubles the distance of
neighbours, with the first magnitude of an exponent right behind the last one of the exponent before
(`magnitude_lt_of_word_lt`). So doubles are compared as their values are, zeros of both signs
included (`Double.compare?_eq_units`), and what is said of comparisons later is said of whole
numbers.
-/

namespace FilterQuery

/-- Two pairs of numbers in the same order are compared alike. -/
theorem compare_eq_compare {a b c d : Int} (hless : a < b ↔ c < d) (hgreater : b < a ↔ d < c) :
    compare a b = compare c d := by
  rcases Int.lt_trichotomy a b with h | h | h
  · rw [Int.compare_eq_lt.mpr h, Int.compare_eq_lt.mpr (hless.mp h)]
  · rw [Int.compare_eq_eq.mpr h, Int.compare_eq_eq.mpr (by omega)]
  · rw [Int.compare_eq_gt.mpr h, Int.compare_eq_gt.mpr (hgreater.mp h)]

namespace Double

variable {x y : Double}

/-- The size of a double in units of the least positive one. -/
def magnitude (x : Double) : Nat := x.significand * 2 ^ (x.scale + 1074).toNat

/-- The double in units of the least positive one. -/
def units (x : Double) : Int := signed x.negative x.magnitude

theorem magnitude_of_lt (h : x.word.val < exponentUnit) : x.magnitude = x.word.val := by
  simp [magnitude, significand, scale, h]

/-- With exponent bits the significand has a bit in front, and each further exponent doubles it. -/
theorem magnitude_of_ge (h : exponentUnit ≤ x.word.val) :
    x.magnitude =
      (exponentUnit + x.word.val % exponentUnit) * 2 ^ (x.word.val / exponentUnit - 1) := by
  have hnot : ¬x.word.val < exponentUnit := Nat.not_lt.mpr h
  have hscale : (x.scale + 1074).toNat = x.word.val / exponentUnit - 1 := by
    rw [scale, if_neg hnot]
    omega
  rw [magnitude, significand, if_neg hnot, hscale]

/-- A significand of fifty-three bits, or the least one with one bit more, at the scale that the
exponent bits give it. -/
theorem magnitude_of_word_eq {k s : Nat} (hword : x.word.val = k * exponentUnit + s)
    (hlow : exponentUnit ≤ s) (hhigh : s ≤ 2 * exponentUnit) : x.magnitude = s * 2 ^ k := by
  unfold exponentUnit at hword hlow hhigh
  rw [magnitude_of_ge (by unfold exponentUnit; omega)]
  unfold exponentUnit
  rcases Nat.eq_or_lt_of_le hhigh with hcarry | hsmall
  · have hrest : x.word.val % 0x10000000000000 = 0 := by omega
    have hplace : x.word.val / 0x10000000000000 - 1 = k + 1 := by omega
    rw [hrest, hplace, hcarry, Nat.pow_succ]
    omega
  · have hrest : x.word.val % 0x10000000000000 = s - 0x10000000000000 := by omega
    have hplace : x.word.val / 0x10000000000000 - 1 = k := by omega
    rw [hrest, hplace, Nat.add_sub_cancel' hlow]

/-- Magnitudes are in the order of the words. -/
theorem magnitude_lt_of_word_lt (h : x.word.val < y.word.val) : x.magnitude < y.magnitude := by
  rcases Nat.lt_or_ge x.word.val exponentUnit with hx | hx <;>
    rcases Nat.lt_or_ge y.word.val exponentUnit with hy | hy
  · rwa [magnitude_of_lt hx, magnitude_of_lt hy]
  · rw [magnitude_of_lt hx, magnitude_of_ge hy]
    calc x.word.val < exponentUnit := hx
      _ ≤ exponentUnit + y.word.val % exponentUnit := Nat.le_add_right _ _
      _ ≤ _ := Nat.le_mul_of_pos_right _ (Nat.two_pow_pos _)
  · omega
  · rw [magnitude_of_ge hx, magnitude_of_ge hy]
    have hxword := Nat.div_add_mod x.word.val exponentUnit
    have hyword := Nat.div_add_mod y.word.val exponentUnit
    have hquotient : x.word.val / exponentUnit ≤ y.word.val / exponentUnit :=
      Nat.div_le_div_right (Nat.le_of_lt h)
    rcases Nat.eq_or_lt_of_le hquotient with hsame | hless
    · -- with the same exponent, the significands are in the order of the words
      rw [hsame] at hxword ⊢
      refine Nat.mul_lt_mul_of_pos_right ?_ (Nat.two_pow_pos _)
      omega
    · -- one place further, the least significand is beyond all significands
      have hrest : x.word.val % exponentUnit < exponentUnit := Nat.mod_lt _ (by decide)
      have hplace : 0 < x.word.val / exponentUnit := Nat.div_pos hx (by decide)
      calc (exponentUnit + x.word.val % exponentUnit) * 2 ^ (x.word.val / exponentUnit - 1)
          < exponentUnit * 2 * 2 ^ (x.word.val / exponentUnit - 1) :=
            Nat.mul_lt_mul_of_pos_right (by omega) (Nat.two_pow_pos _)
        _ = exponentUnit * 2 ^ (x.word.val / exponentUnit) := by
            rw [Nat.mul_assoc, ← Nat.pow_succ', Nat.succ_eq_add_one, Nat.sub_add_cancel hplace]
        _ ≤ exponentUnit * 2 ^ (y.word.val / exponentUnit - 1) :=
            Nat.mul_le_mul_left _ (Nat.pow_le_pow_right (by decide) (by omega))
        _ ≤ _ := Nat.mul_le_mul_right _ (Nat.le_add_right _ _)

/-- Words are in the order of the sizes that they stand for. -/
theorem magnitude_lt_iff : x.magnitude < y.magnitude ↔ x.word.val < y.word.val := by
  refine ⟨fun h => ?_, magnitude_lt_of_word_lt⟩
  refine Nat.lt_of_not_ge fun hword => ?_
  rcases Nat.eq_or_lt_of_le hword with hsame | hless
  · have hequal : y.word = x.word := Fin.ext hsame
    simp [magnitude, significand, scale, hequal] at h
  · exact Nat.lt_asymm h (magnitude_lt_of_word_lt hless)

/-- Only zero has no magnitude. -/
theorem magnitude_pos_iff : 0 < x.magnitude ↔ 0 < x.word.val := by
  have hzero : (zero false).magnitude = 0 := magnitude_of_lt (by decide)
  have h := magnitude_lt_iff (x := zero false) (y := x)
  rw [hzero] at h
  exact h

/-- The order of doubles is the order of their values. -/
theorem rank_lt_iff : x.rank < y.rank ↔ x.units < y.units := by
  have hxy := magnitude_lt_iff (x := x) (y := y)
  have hyx := magnitude_lt_iff (x := y) (y := x)
  have hx := magnitude_pos_iff (x := x)
  have hy := magnitude_pos_iff (x := y)
  unfold rank units signed
  split <;> split <;> omega

/-- Doubles are compared as their values are. -/
theorem compare?_eq_units (hx : x.isNaN = false) (hy : y.isNaN = false) :
    x.compare? y = some (compare x.units y.units) := by
  rw [compare?, hx, hy, if_neg (by simp), compare_eq_compare rank_lt_iff rank_lt_iff]

end Double

end FilterQuery
